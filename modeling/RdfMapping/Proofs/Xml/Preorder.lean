import Mathlib.Data.List.Count
import RdfMapping.Proofs.Xml.Descendants
import RdfMapping.Proofs.Xml.ReadBack
import RdfMapping.Proofs.Xml.Spine
/-!
The order of elements. A new element becomes the last child of the element that is open innermost,
and this one stands on the spine of last children. In the listing of all elements, parents before
their children, the new one therefore comes last, so that the elements are listed as they are
numbered. Nothing but these numbers is needed for a walk to end that goes up from parent to parent,
or down from child to child.
-/

namespace RdfMapping.Xml

/-- What starts with an event: an element by its name and its attributes, or nothing. -/
def Event.tag? : Event → Option (String × List (String × String))
  | .opening name attributes | .empty name attributes => some (name, attributes)
  | .closing | .text _ => none

namespace Document

def tags (document : Document) : List (String × List (String × String)) :=
  document.elements.toList.map fun element => (element.name, element.attributes)

/-! ### Walks -/

/-- The way to an element, found by going to the parent for `rounds` rounds at most: nothing if
there are more parents, or if an element is missing. -/
def climb? (document : Document) : (rounds : Nat) → (index : Nat) → Option String
  | 0, _ => none
  | rounds + 1, index => do
      let element ← document.element? index
      match element.parent with
      | none => some ""
      | some parent =>
          let outer ← document.climb? rounds parent
          some (outer ++ "/" ++ element.name ++
            "[" ++ toString (document.position parent index) ++ "]")

/-- What an element gives from what its children give, `depth` elements being inside each other at
most: nothing if there are more of them, or if an element is missing. -/
def gather? {α : Type} (document : Document) (combine : Nat → Element → List α → α) :
    (depth : Nat) → (index : Nat) → Option α
  | 0, _ => none
  | depth + 1, index => do
      let element ← document.element? index
      let inner ← element.children.mapM (document.gather? combine depth)
      some (combine index element inner)

def withInner (_ : Nat) (element : Element) (inner : List String) : String :=
  element.text ++ String.join inner

def beforeInner (index : Nat) (_ : Element) (inner : List (List Nat)) : List Nat :=
  index :: inner.flatten

/-- The elements form a tree in which they are numbered in document order, parents before their
children, and every walk ends: the way up to the document, and the ways down that collect character
data or elements. -/
structure IsPreorder (document : Document) : Prop where
  root : document.parent? 0 = none
  placed : ∀ index, document.Holds index → ∃ parent < index,
    document.parent? index = some parent ∧
      ∀ other, (document.children other).count index = if other = parent then 1 else 0
  increasing : ∀ parent, (document.children parent).Pairwise (· < ·)
  listing : document.selfAndDescendants 0 = List.range document.elements.size
  climbs : ∀ index < document.elements.size, ∀ rounds, index < rounds →
    document.climb? rounds index = some (document.path index)
  gathers : ∀ index < document.elements.size, ∀ depth, document.elements.size - index ≤ depth →
    document.gather? withInner depth index = some (document.stringValue index)
  lists : ∀ index < document.elements.size, ∀ depth, document.elements.size - index ≤ depth →
    document.gather? beforeInner depth index = some (document.selfAndDescendants index)

variable {document : Document}

/-! ### One entry and its neighbours -/

theorem parent?_root (document : Document) : document.parent? 0 = none := by
  rw [Option.eq_none_iff_forall_ne_some]
  intro parent above
  exact Nat.not_lt_zero parent (lt_of_parent? above)

theorem IsTree.count_children (tree : document.IsTree) {index parent : Nat}
    (above : document.parent? index = some parent) (other : Nat) :
    (document.children other).count index = if other = parent then 1 else 0 := by
  have nodup : (document.children other).Nodup :=
    (tree.increasing other).imp fun before => Nat.ne_of_lt before
  have member : index ∈ document.children other ↔ other = parent := by
    rw [tree.mem_children, above, Option.some_inj, eq_comm]
  rw [nodup.count]
  exact if_congr member rfl rfl

theorem exists_element {index : Nat} (present : index < document.elements.size) :
    ∃ element, document.element? index = some element :=
  ⟨_, Array.getElem?_eq_getElem present⟩

theorem stringValue_eq_withInner {index : Nat} {element : Element}
    (found : document.element? index = some element) :
    document.stringValue index =
      withInner index element (element.children.map document.stringValue) := by
  rw [stringValue_eq, innerValue, text, children, found]
  rfl

theorem selfAndDescendants_eq_beforeInner {index : Nat} {element : Element}
    (found : document.element? index = some element) :
    document.selfAndDescendants index =
      beforeInner index element (element.children.map document.selfAndDescendants) := by
  rw [selfAndDescendants_eq (Array.getElem?_eq_some_iff.mp found).1, children, found,
    List.flatMap_def]
  rfl

/-! ### Walks end -/

theorem climb?_eq_path {rounds index : Nat} (present : index < document.elements.size)
    (enough : index < rounds) : document.climb? rounds index = some (document.path index) := by
  induction rounds generalizing index with
  | zero => exact absurd enough (Nat.not_lt_zero index)
  | succ rounds ih =>
      obtain ⟨element, found⟩ := exists_element present
      have above : document.parent? index = element.parent := by
        rw [parent?, found, Option.bind_some]
      have named : document.name index = element.name := by
        rw [name, found]
        rfl
      rw [climb?, found, Option.bind_eq_bind, Option.bind_some]
      cases has : element.parent with
      | none => rw [path_of_root (above.trans has)]
      | some parent =>
          have before := lt_of_parent? (above.trans has)
          have outer := ih (Nat.lt_trans before present) (by omega)
          rw [path_of_parent? (above.trans has), named]
          exact congrArg (Option.bind · _) outer

theorem mapM_eq_some {α β : Type} {f : α → Option β} {g : α → β} {items : List α}
    (each : ∀ item ∈ items, f item = some (g item)) : items.mapM f = some (items.map g) := by
  induction items with
  | nil => rfl
  | cons item rest ih =>
      obtain ⟨first, others⟩ := List.forall_mem_cons.mp each
      rw [List.mapM_cons, first, ih others]
      rfl

/-- Below an element there are no more levels than elements behind it. -/
theorem IsTree.gather?_eq {α : Type} (tree : document.IsTree)
    {combine : Nat → Element → List α → α} {value : Nat → α}
    (made : ∀ {index element}, document.element? index = some element →
      value index = combine index element (element.children.map value))
    {depth index : Nat} (present : index < document.elements.size)
    (enough : document.elements.size - index ≤ depth) :
    document.gather? combine depth index = some (value index) := by
  induction depth generalizing index with
  | zero => omega
  | succ depth ih =>
      obtain ⟨element, found⟩ := exists_element present
      have inner : element.children.mapM (document.gather? combine depth) =
          some (element.children.map value) := by
        refine mapM_eq_some fun child member => ?_
        have isChild : child ∈ document.children index := by
          rw [children, found]
          exact member
        have bounds := tree.lt_of_mem_children isChild
        exact ih bounds.2 (by omega)
      rw [gather?, found, Option.bind_eq_bind, Option.bind_some, inner, made found]
      rfl

/-! ### Elements of a growing document -/

theorem getElem?_tags (document : Document) (index : Nat) :
    document.tags[index]? =
      (document.element? index).map fun element => (element.name, element.attributes) := by
  rw [tags, List.getElem?_map, Array.getElem?_toList, element?]

theorem tags_addText (document : Document) (target : Nat) (content : String) :
    (document.addText target content).tags = document.tags := by
  refine List.ext_getElem? fun index => ?_
  rw [getElem?_tags, getElem?_tags, element?, element?, addText, Array.getElem?_modify]
  split
  · rw [Option.map_map]
    rfl
  · rfl

theorem tags_addElement (document : Document) (parent : Nat)
    (present : parent < document.elements.size) (name : String)
    (attributes : List (String × String)) :
    (document.addElement parent present name attributes).tags =
      document.tags ++ [(name, attributes)] := by
  rw [tags, tags, addElement, Array.toList_push, List.map_append, List.map_singleton]
  refine congrArg (· ++ _) (List.ext_getElem? fun index => ?_)
  rw [List.getElem?_map, List.getElem?_map, Array.getElem?_toList, Array.getElem?_toList,
    Array.getElem?_modify]
  split
  · rw [Option.map_map]
    rfl
  · rfl

theorem IsTree.selfAndDescendants_addText (tree : document.IsTree) (target : Nat)
    (content : String) (index : Nat) :
    (document.addText target content).selfAndDescendants index =
      document.selfAndDescendants index := by
  by_cases present : index < document.elements.size
  · have later : (document.addText target content).elements.size = document.elements.size :=
      size_addText document target content
    have below : ∀ child ∈ document.children index,
        (document.addText target content).selfAndDescendants child =
          document.selfAndDescendants child := by
      intro child member
      have bounds := tree.lt_of_mem_children member
      exact selfAndDescendants_addText tree target content child
    rw [selfAndDescendants_eq (later ▸ present), selfAndDescendants_eq present, children_addText,
      List.flatMap_congr below]
  · rw [selfAndDescendants_of_absent present, selfAndDescendants_of_absent]
    rwa [size_addText]
termination_by document.elements.size - index

end Document

namespace Construction

section Addition

variable (c : Construction) (name : String) (attributes : List (String × String))

theorem document_addElement : (c.addElement name attributes).document =
    c.document.addElement c.current c.current_lt name attributes := rfl

theorem selfAndDescendants_addElement {index : Nat} (present : index < c.document.elements.size) :
    (c.addElement name attributes).document.selfAndDescendants index =
      index :: (if index = c.current then c.document.children index ++ [c.document.elements.size]
        else c.document.children index).flatMap
          (c.addElement name attributes).document.selfAndDescendants := by
  have grown : index < (c.addElement name attributes).document.elements.size := by
    rw [document_addElement, Document.size_addElement]
    exact Nat.lt_succ_of_lt present
  rw [Document.selfAndDescendants_eq grown, document_addElement, Document.children_addElement]

theorem selfAndDescendants_addElement_last :
    (c.addElement name attributes).document.selfAndDescendants c.document.elements.size =
      [c.document.elements.size] := by
  have apart : c.document.elements.size ≠ c.current := Nat.ne_of_gt c.current_lt
  have grown : c.document.elements.size <
      (c.addElement name attributes).document.elements.size := by
    rw [document_addElement, Document.size_addElement]
    exact Nat.lt_succ_self _
  rw [Document.selfAndDescendants_eq grown, document_addElement, Document.children_addElement,
    if_neg apart, Document.children, Document.element?, Array.getElem?_eq_none (Nat.le_refl _)]
  rfl

end Addition

namespace IsSpine

variable {c : Construction} (spine : c.IsSpine) (name : String)
  (attributes : List (String × String))
include spine

theorem selfAndDescendants_addElement_of_not_mem {index : Nat}
    (present : index < c.document.elements.size) (off : index ∉ c.spine) :
    (c.addElement name attributes).document.selfAndDescendants index =
      c.document.selfAndDescendants index := by
  have apart : index ≠ c.current := fun same => off (same ▸ c.current_mem_spine)
  have below : ∀ child ∈ c.document.children index,
      (c.addElement name attributes).document.selfAndDescendants child =
        c.document.selfAndDescendants child := by
    intro child member
    have bounds := spine.tree.lt_of_mem_children member
    have alsoOff : child ∉ c.spine := fun on => off (spine.last_of_mem_children member on).1
    exact selfAndDescendants_addElement_of_not_mem bounds.2 alsoOff
  rw [selfAndDescendants_addElement c name attributes present, if_neg apart,
    List.flatMap_congr below, Document.selfAndDescendants_eq present]
termination_by c.document.elements.size - index

theorem selfAndDescendants_addElement_current :
    (c.addElement name attributes).document.selfAndDescendants c.current =
      c.document.selfAndDescendants c.current ++ [c.document.elements.size] := by
  have before : ∀ child ∈ c.document.children c.current,
      (c.addElement name attributes).document.selfAndDescendants child =
        c.document.selfAndDescendants child := fun child isChild =>
    spine.selfAndDescendants_addElement_of_not_mem name attributes
      (spine.tree.lt_of_mem_children isChild).2 (spine.child_of_current_not_mem isChild)
  rw [selfAndDescendants_addElement c name attributes c.current_lt, if_pos rfl,
    List.flatMap_append, List.flatMap_congr before, List.flatMap_singleton,
    selfAndDescendants_addElement_last, Document.selfAndDescendants_eq c.current_lt]
  rfl

theorem selfAndDescendants_addElement_of_last {parent child : Nat} (on : child ∈ c.spine)
    (last : (c.document.children parent).getLast? = some child)
    (below : (c.addElement name attributes).document.selfAndDescendants child =
      c.document.selfAndDescendants child ++ [c.document.elements.size]) :
    (c.addElement name attributes).document.selfAndDescendants parent =
      c.document.selfAndDescendants parent ++ [c.document.elements.size] := by
  have bounds := spine.tree.lt_of_mem_children (List.mem_of_getLast? last)
  have present : parent < c.document.elements.size := Nat.lt_trans bounds.1 bounds.2
  have outer : parent < c.current := Nat.lt_of_lt_of_le bounds.1 (spine.le_current on)
  obtain ⟨elder, whole⟩ := List.getLast?_eq_some_iff.mp last
  have before : ∀ sibling ∈ elder,
      (c.addElement name attributes).document.selfAndDescendants sibling =
        c.document.selfAndDescendants sibling := by
    intro sibling member
    have isChild : sibling ∈ c.document.children parent := whole ▸ List.mem_append_left _ member
    exact spine.selfAndDescendants_addElement_of_not_mem name attributes
      (spine.tree.lt_of_mem_children isChild).2 (spine.elder_not_mem whole sibling member)
  rw [selfAndDescendants_addElement c name attributes present, if_neg (Nat.ne_of_lt outer), whole,
    List.flatMap_append, List.flatMap_congr before, List.flatMap_singleton, below,
    Document.selfAndDescendants_eq present, whole, List.flatMap_append, List.flatMap_singleton,
    List.cons_append, List.append_assoc]

/-- In an element that is still open, the new element is listed last. -/
theorem selfAndDescendants_addElement_of_mem {index : Nat} (on : index ∈ c.spine) :
    (c.addElement name attributes).document.selfAndDescendants index =
      c.document.selfAndDescendants index ++ [c.document.elements.size] := by
  apply spine.outwards (spine.selfAndDescendants_addElement_current name attributes) _ on
  intro parent child onSpine last below
  exact spine.selfAndDescendants_addElement_of_last name attributes onSpine last below

end IsSpine

/-- All elements are listed as they are numbered, and the open ones are on the spine. -/
structure IsListed (c : Construction) : Prop where
  spine : c.IsSpine
  listing : c.document.selfAndDescendants 0 = List.range c.document.elements.size

theorem isListed_start : start.IsListed where
  spine := isSpine_start
  listing := by
    rw [Document.selfAndDescendants_eq start.document.inhabited]
    rfl

namespace IsListed

variable {c : Construction} (listed : c.IsListed)
include listed

theorem addElement (name : String) (attributes : List (String × String)) :
    (c.addElement name attributes).document.selfAndDescendants 0 =
      List.range (c.addElement name attributes).document.elements.size := by
  have root : 0 ∈ c.spine := List.mem_append_right _ (List.mem_singleton_self 0)
  rw [listed.spine.selfAndDescendants_addElement_of_mem name attributes root, listed.listing,
    document_addElement, Document.size_addElement, List.range_succ]

theorem step (event : Event) : (c.step event).IsListed where
  spine := listed.spine.step event
  listing := by
    cases event with
    | opening name attributes => exact listed.addElement name attributes
    | closing => exact listed.listing
    | empty name attributes => exact listed.addElement name attributes
    | text content =>
        show (c.document.addText c.current content).selfAndDescendants 0 =
          List.range (c.document.addText c.current content).elements.size
        rw [listed.spine.tree.selfAndDescendants_addText, listed.listing, Document.size_addText]

theorem foldl (events : List Event) : (events.foldl Construction.step c).IsListed := by
  induction events generalizing c with
  | nil => exact listed
  | cons event later ih => exact ih (listed.step event)

theorem isPreorder : c.document.IsPreorder := by
  have tree := listed.spine.tree
  refine ⟨Document.parent?_root _, fun index holds => ?_, tree.increasing, listed.listing,
    ?_, ?_, ?_⟩
  · obtain ⟨parent, above⟩ := tree.rooted index holds
    exact ⟨parent, Document.lt_of_parent? above, above, tree.count_children above⟩
  · exact fun index present rounds enough => Document.climb?_eq_path present enough
  · exact fun index present depth enough =>
      tree.gather?_eq Document.stringValue_eq_withInner present enough
  · exact fun index present depth enough =>
      tree.gather?_eq Document.selfAndDescendants_eq_beforeInner present enough

end IsListed

/-- An event that starts an element adds it at the end, and no other event adds any. -/
theorem tags_step (c : Construction) (event : Event) :
    (c.step event).document.tags = c.document.tags ++ event.tag?.toList := by
  cases event with
  | opening name attributes => exact Document.tags_addElement _ _ c.current_lt name attributes
  | closing => exact (List.append_nil _).symm
  | empty name attributes => exact Document.tags_addElement _ _ c.current_lt name attributes
  | text content => exact (Document.tags_addText _ _ content).trans (List.append_nil _).symm

theorem tags_foldl (c : Construction) (events : List Event) :
    (events.foldl Construction.step c).document.tags =
      c.document.tags ++ events.filterMap Event.tag? := by
  induction events generalizing c with
  | nil => exact (List.append_nil _).symm
  | cons event later ih =>
      rw [List.foldl_cons, ih, tags_step, List.append_assoc]
      cases event <;> rfl

end Construction

namespace Document

/-- Whatever the events are, several elements at the top, some left open at the end and closings
of nothing included: the elements form a tree in document order, and after the document itself
there is one for each event that starts an element. -/
theorem isPreorder_ofEvents (events : List Event) :
    (ofEvents events).IsPreorder ∧
      (ofEvents events).tags = ("", []) :: events.filterMap Event.tag? :=
  ⟨(Construction.isListed_start.foldl events).isPreorder, Construction.start.tags_foldl events⟩

/-- Elements inside each other, an empty one, two at the top, and two that are left open. -/
def unclosed : List Event :=
  [.opening "a" [], .empty "b" [], .opening "c" [], .text "x", .closing, .closing,
    .opening "d" [("n", "1")], .opening "e" []]

theorem isPreorder_unclosed :
    parse "rows" "<a><b/><c>x</c></a><d n='1'><e>" [] = .ok (ofEvents unclosed) ∧
      (ofEvents unclosed).IsPreorder := by
  have read : read? "<a><b/><c>x</c></a><d n='1'><e>".toList = some unclosed := by decide +kernel
  exact ⟨parse_of_read read, (isPreorder_ofEvents unclosed).1⟩

/-- The elements of every document that is read form a tree in document order. -/
theorem isPreorder_of_parse {id content : String} {declarations : List (String × String)}
    {document : Document} (parsed : parse id content declarations = .ok document) :
    document.IsPreorder := by
  obtain ⟨events, _, rfl⟩ := exists_events_of_parse parsed
  exact (Construction.isListed_start.foldl events).isPreorder

end Document

end RdfMapping.Xml
