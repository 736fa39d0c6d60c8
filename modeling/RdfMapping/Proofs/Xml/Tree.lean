import Mathlib.Data.List.Basic
import RdfMapping.Xml.Document
/-!
Documents as trees. The children that an element lists are those whose parent it is, in the
order in which they were added, and every element apart from the document itself has a parent.
This holds of the empty document, and each event of a text keeps it.
-/

namespace RdfMapping.Xml

namespace Document

def parent? (document : Document) (index : Nat) : Option Nat :=
  (document.element? index).bind Element.parent

/-- An element that is not the document itself. -/
def Holds (document : Document) (index : Nat) : Prop :=
  index ≠ 0 ∧ index < document.elements.size

variable {document : Document}

theorem lt_of_parent? {index parent : Nat} (above : document.parent? index = some parent) :
    parent < index := by
  obtain ⟨element, found, has⟩ := Option.bind_eq_some_iff.mp above
  exact document.earlier index element found parent has

theorem lt_size_of_parent? {index parent : Nat} (above : document.parent? index = some parent) :
    index < document.elements.size := by
  obtain ⟨element, found, _⟩ := Option.bind_eq_some_iff.mp above
  exact (Array.getElem?_eq_some_iff.mp found).1

structure IsTree (document : Document) : Prop where
  mem_children : ∀ parent child,
    child ∈ document.children parent ↔ document.parent? child = some parent
  increasing : ∀ parent, (document.children parent).Pairwise (· < ·)
  rooted : ∀ index, document.Holds index → ∃ parent, document.parent? index = some parent

/-! ### Growth -/

theorem children_addText (document : Document) (target : Nat) (content : String) (index : Nat) :
    (document.addText target content).children index = document.children index := by
  rw [children, children, element?, element?, addText, Array.getElem?_modify]
  split
  · cases document.elements[index]? <;> rfl
  · rfl

theorem parent?_addText (document : Document) (target : Nat) (content : String) (index : Nat) :
    (document.addText target content).parent? index = document.parent? index := by
  rw [parent?, parent?, element?, element?, addText, Array.getElem?_modify]
  split
  · cases document.elements[index]? <;> rfl
  · rfl

theorem text_addText (document : Document) {target : Nat}
    (present : target < document.elements.size) (content : String) (index : Nat) :
    (document.addText target content).text index =
      if index = target then document.text index ++ content else document.text index := by
  rw [text, text, element?, element?, addText, Array.getElem?_modify]
  by_cases same : index = target
  · rw [if_pos same.symm, if_pos same, same, Array.getElem?_eq_getElem present]
    rfl
  · rw [if_neg (Ne.symm same), if_neg same]

section Addition

variable (document) (parent : Nat) (present : parent < document.elements.size) (name : String)
  (attributes : List (String × String))

theorem children_addElement (index : Nat) :
    (document.addElement parent present name attributes).children index =
      if index = parent then document.children index ++ [document.elements.size]
      else document.children index := by
  rw [children, children, element?, element?, addElement, Array.getElem?_push,
    Array.size_modify, Array.getElem?_modify]
  by_cases last : index = document.elements.size
  · rw [if_pos last, if_neg (by omega), last, Array.getElem?_eq_none (Nat.le_refl _)]
    rfl
  · rw [if_neg last]
    by_cases same : index = parent
    · rw [if_pos same.symm, if_pos same, same, Array.getElem?_eq_getElem present]
      rfl
    · rw [if_neg (Ne.symm same), if_neg same]

theorem parent?_addElement (index : Nat) :
    (document.addElement parent present name attributes).parent? index =
      if index = document.elements.size then some parent else document.parent? index := by
  rw [parent?, parent?, element?, element?, addElement, Array.getElem?_push,
    Array.size_modify, Array.getElem?_modify]
  by_cases last : index = document.elements.size
  · rw [if_pos last, if_pos last]
    rfl
  · rw [if_neg last, if_neg last]
    split
    · cases document.elements[index]? <;> rfl
    · rfl

theorem text_addElement (index : Nat) :
    (document.addElement parent present name attributes).text index = document.text index := by
  rw [text, text, element?, element?, addElement, Array.getElem?_push, Array.size_modify,
    Array.getElem?_modify]
  by_cases last : index = document.elements.size
  · rw [if_pos last, last, Array.getElem?_eq_none (Nat.le_refl _)]
    rfl
  · rw [if_neg last]
    split
    · cases document.elements[index]? <;> rfl
    · rfl

end Addition

theorem children_empty (index : Nat) : empty.children index = [] := by
  cases index <;> rfl

theorem parent?_empty (index : Nat) : empty.parent? index = none := by
  cases index <;> rfl

theorem isTree_empty : IsTree empty where
  mem_children := by
    intro parent child
    simp [children_empty, parent?_empty]
  increasing := by
    intro parent
    rw [children_empty]
    exact List.Pairwise.nil
  rooted := by
    intro index holds
    have single : index < 1 := holds.2
    exact absurd (Nat.lt_one_iff.mp single) holds.1

namespace IsTree

theorem addText (tree : document.IsTree) (target : Nat) (content : String) :
    (document.addText target content).IsTree where
  mem_children := by
    intro parent child
    rw [children_addText, parent?_addText]
    exact tree.mem_children parent child
  increasing := by
    intro parent
    rw [children_addText]
    exact tree.increasing parent
  rooted := by
    intro index holds
    rw [Holds, size_addText] at holds
    rw [parent?_addText]
    exact tree.rooted index holds

theorem lt_of_mem_children (tree : document.IsTree) {parent child : Nat}
    (member : child ∈ document.children parent) :
    parent < child ∧ child < document.elements.size := by
  have above := (tree.mem_children parent child).mp member
  exact ⟨lt_of_parent? above, lt_size_of_parent? above⟩

theorem addElement (tree : document.IsTree) {parent : Nat}
    (present : parent < document.elements.size) (name : String)
    (attributes : List (String × String)) :
    (document.addElement parent present name attributes).IsTree where
  mem_children := by
    intro above child
    have before := tree.mem_children above child
    rw [children_addElement, parent?_addElement]
    by_cases last : child = document.elements.size
    · have fresh : child ∉ document.children above := by
        intro member
        have within := (tree.lt_of_mem_children member).2
        omega
      rw [if_pos last, Option.some.injEq]
      by_cases same : above = parent
      · rw [if_pos same]
        simp [last, same]
      · rw [if_neg same]
        simp [fresh, Ne.symm same]
    · rw [if_neg last]
      by_cases same : above = parent
      · rw [if_pos same, List.mem_append, List.mem_singleton, or_iff_left last]
        exact before
      · rw [if_neg same]
        exact before
  increasing := by
    intro above
    rw [children_addElement]
    by_cases same : above = parent
    · rw [if_pos same, List.pairwise_append]
      refine ⟨tree.increasing above, List.pairwise_singleton _ _, ?_⟩
      intro child member last isLast
      rw [List.mem_singleton.mp isLast]
      exact (tree.lt_of_mem_children member).2
    · rw [if_neg same]
      exact tree.increasing above
  rooted := by
    intro index holds
    rw [Holds, size_addElement] at holds
    rw [parent?_addElement]
    by_cases last : index = document.elements.size
    · rw [if_pos last]
      exact ⟨parent, rfl⟩
    · rw [if_neg last]
      exact tree.rooted index ⟨holds.1, by omega⟩

end IsTree

end Document

/-! ### Events -/

theorem Construction.isTree_step {c : Construction} (tree : c.document.IsTree) (event : Event) :
    (c.step event).document.IsTree := by
  cases event with
  | opening name attributes => exact tree.addElement c.current_lt name attributes
  | closing => exact tree
  | empty name attributes => exact tree.addElement c.current_lt name attributes
  | text content => exact tree.addText c.current content

theorem Construction.isTree_foldl {c : Construction} (tree : c.document.IsTree)
    (events : List Event) : (events.foldl Construction.step c).document.IsTree := by
  induction events generalizing c with
  | nil => exact tree
  | cons event later ih => exact ih (isTree_step tree event)

namespace Document

theorem isTree_ofEvents (events : List Event) : (ofEvents events).IsTree :=
  Construction.isTree_foldl isTree_empty events

theorem parse_of_read {id content : String} {events : List Event}
    (read : read? content.toList = some events) : parse id content [] = .ok (ofEvents events) := by
  rw [parse, dropDeclarations, List.foldl_nil, read]

/-- A document that is read is built from the events of its text. -/
theorem exists_events_of_parse {id content : String} {declarations : List (String × String)}
    {document : Document} (parsed : parse id content declarations = .ok document) :
    ∃ events, read? (dropDeclarations declarations content.toList) = some events ∧
      document = ofEvents events := by
  unfold parse at parsed
  split at parsed
  · next events read =>
      cases parsed
      exact ⟨events, read, rfl⟩
  · cases parsed

theorem isTree_of_parse {id content : String} {declarations : List (String × String)}
    {document : Document} (parsed : parse id content declarations = .ok document) :
    document.IsTree := by
  obtain ⟨events, _, rfl⟩ := exists_events_of_parse parsed
  exact isTree_ofEvents events

end Document

end RdfMapping.Xml
