import Mathlib.Data.List.Chain
import RdfMapping.Proofs.Xml.Tree
/-!
Character data in a growing document. The elements that are still open form a spine: each of them
is the last child of the next one, up to the document itself. Character data go to the end of the
innermost one's own text. In the string value of this element, and of every other one on the spine,
they therefore stand before all that the innermost element has in its children.
-/

namespace RdfMapping.Xml

theorem join_concat (texts : List String) (last : String) :
    String.join (texts ++ [last]) = String.join texts ++ last := by
  rw [String.join_append, String.join_cons, String.join_nil, String.append_empty]

namespace Document

def innerValue (document : Document) (index : Nat) : String :=
  String.join ((document.children index).map document.stringValue)

theorem stringValue_eq (document : Document) (index : Nat) :
    document.stringValue index = document.text index ++ document.innerValue index := by
  rw [stringValue, innerValue, text, children, element?]
  split
  · next absent =>
      rw [absent]
      rfl
  · next element here =>
      rw [here]
      simp

theorem innerValue_of_absent {document : Document} {index : Nat}
    (absent : document.elements.size ≤ index) : document.innerValue index = "" := by
  rw [innerValue, children, element?, Array.getElem?_eq_none absent]
  rfl

theorem stringValue_of_absent {document : Document} {index : Nat}
    (absent : document.elements.size ≤ index) : document.stringValue index = "" := by
  rw [stringValue_eq, innerValue_of_absent absent, text, element?, Array.getElem?_eq_none absent]
  rfl

/-- A new element adds nothing to any string value. -/
theorem IsTree.stringValue_addElement {document : Document} (tree : document.IsTree) {parent : Nat}
    (present : parent < document.elements.size) (name : String)
    (attributes : List (String × String)) (index : Nat) :
    (document.addElement parent present name attributes).stringValue index =
      document.stringValue index := by
  have before : ∀ child ∈ document.children index,
      (document.addElement parent present name attributes).stringValue child =
        document.stringValue child := by
    intro child member
    have bounds := tree.lt_of_mem_children member
    exact stringValue_addElement tree present name attributes child
  rw [stringValue_eq, stringValue_eq, text_addElement, innerValue, innerValue,
    children_addElement]
  by_cases same : index = parent
  · have last : (document.addElement parent present name attributes).stringValue
        document.elements.size = document.stringValue document.elements.size :=
      stringValue_addElement tree present name attributes document.elements.size
    rw [if_pos same, List.map_append, List.map_congr_left before, List.map_singleton, join_concat,
      last, stringValue_of_absent (Nat.le_refl _), String.append_empty]
  · rw [if_neg same, List.map_congr_left before]
termination_by document.elements.size - index

theorem IsTree.innerValue_addElement {document : Document} (tree : document.IsTree) {parent : Nat}
    (present : parent < document.elements.size) (name : String)
    (attributes : List (String × String)) (index : Nat) :
    (document.addElement parent present name attributes).innerValue index =
      document.innerValue index := by
  have same := tree.stringValue_addElement present name attributes index
  rw [stringValue_eq, stringValue_eq, text_addElement] at same
  exact (String.append_right_inj _).mp same

end Document

/-- A text becomes another one by something put in before its end. -/
def PutBefore (ending content old new : String) : Prop :=
  ∃ front, old = front ++ ending ∧ new = front ++ (content ++ ending)

theorem PutBefore.prepend {ending content old new : String}
    (put : PutBefore ending content old new) (prefixed : String) :
    PutBefore ending content (prefixed ++ old) (prefixed ++ new) := by
  obtain ⟨front, rfl, rfl⟩ := put
  exact ⟨prefixed ++ front, String.append_assoc.symm, String.append_assoc.symm⟩

theorem PutBefore.eq_append {ending content old new : String}
    (put : PutBefore ending content old new) (last : content = "" ∨ ending = "") :
    new = old ++ content := by
  obtain ⟨front, rfl, rfl⟩ := put
  rcases last with rfl | rfl
  · rw [String.empty_append, String.append_empty]
  · rw [String.append_empty, String.append_empty]

namespace Construction

/-- The elements that are still open, and the document itself. -/
def spine (c : Construction) : List Nat := c.opened ++ [0]

/-- Each element of the spine is the last child so far of the next one. -/
structure IsSpine (c : Construction) : Prop where
  tree : c.document.IsTree
  lasts : c.spine.IsChain fun child parent => (c.document.children parent).getLast? = some child

/-- Character data are put in before what the innermost element has in its children: in the value
of an element, and for an outer one in the value of what is inside it. -/
structure TakesText (c : Construction) (content : String) (index : Nat) : Prop where
  bound : index ≤ c.current
  value : PutBefore (c.document.innerValue c.current) content (c.document.stringValue index)
    ((c.addText content).document.stringValue index)
  inner : index < c.current →
    PutBefore (c.document.innerValue c.current) content (c.document.innerValue index)
      ((c.addText content).document.innerValue index)

theorem head?_spine (c : Construction) : c.spine.head? = some c.current := by
  rw [spine, current]
  cases c.opened <;> rfl

theorem current_mem_spine (c : Construction) : c.current ∈ c.spine :=
  List.mem_of_head? c.head?_spine

theorem not_mem_spine {c : Construction} {index : Nat} (proper : index ≠ 0)
    (closed : index ∉ c.opened) : index ∉ c.spine := by
  rw [spine, List.mem_append, List.mem_singleton, not_or]
  exact ⟨closed, proper⟩

theorem opened_opening (c : Construction) (name : String) (attributes : List (String × String)) :
    (c.step (.opening name attributes)).opened = c.document.elements.size :: c.opened := by
  show ((c.document.addElement c.current c.current_lt name attributes).elements.size - 1) ::
    c.opened = _
  rw [Document.size_addElement]
  rfl

theorem isSpine_start : start.IsSpine := ⟨Document.isTree_empty, .singleton 0⟩

namespace IsSpine

variable {c : Construction} (spine : c.IsSpine)
include spine

theorem decreasing : c.spine.Pairwise (· > ·) := by
  refine List.isChain_iff_pairwise.mp (spine.lasts.imp fun child parent last => ?_)
  exact (spine.tree.lt_of_mem_children (List.mem_of_getLast? last)).1

theorem le_current {index : Nat} (member : index ∈ c.spine) : index ≤ c.current := by
  obtain ⟨rest, whole⟩ := List.head?_eq_some_iff.mp c.head?_spine
  have below := spine.decreasing
  rw [whole] at member below
  rcases List.mem_cons.mp member with rfl | later
  · exact Nat.le_refl _
  · exact Nat.le_of_lt ((List.pairwise_cons.mp below).1 index later)

theorem lt_current {index : Nat} (member : index ∈ c.spine.tail) : index < c.current := by
  obtain ⟨rest, whole⟩ := List.head?_eq_some_iff.mp c.head?_spine
  have below := spine.decreasing
  rw [whole] at member below
  exact (List.pairwise_cons.mp below).1 index member

theorem pos_of_mem_opened {index : Nat} (member : index ∈ c.opened) : 0 < index :=
  (List.pairwise_append.mp spine.decreasing).2.2 index member 0 (List.mem_singleton_self 0)

theorem exists_parent {index : Nat} (member : index ∈ c.opened) :
    ∃ parent ∈ c.spine, (c.document.children parent).getLast? = some index := by
  obtain ⟨before, after, whole⟩ := List.append_of_mem member
  have split : c.spine = before ++ index :: (after ++ [0]) := by
    rw [Construction.spine, whole, List.append_assoc, List.cons_append]
  have lasts := spine.lasts
  rw [split] at lasts
  obtain ⟨parent, rest, next⟩ := List.exists_cons_of_ne_nil (List.concat_ne_nil 0 after)
  refine ⟨parent, ?_, lasts.right_of_append.rel_head? (next ▸ rfl)⟩
  rw [split, next]
  simp

theorem last_of_mem_children {parent child : Nat} (isChild : child ∈ c.document.children parent)
    (member : child ∈ c.spine) :
    parent ∈ c.spine ∧ (c.document.children parent).getLast? = some child := by
  have bounds := spine.tree.lt_of_mem_children isChild
  have opened : child ∈ c.opened := by
    rcases List.mem_append.mp member with before | root
    · exact before
    · rw [List.mem_singleton.mp root] at bounds
      exact absurd bounds.1 (Nat.not_lt_zero _)
  obtain ⟨above, onSpine, last⟩ := spine.exists_parent opened
  have same := (spine.tree.mem_children above child).mp (List.mem_of_getLast? last)
  rw [(spine.tree.mem_children parent child).mp isChild] at same
  cases same
  exact ⟨onSpine, last⟩

/-- What holds of the innermost element, and of an element if it holds of its last child, holds on
the whole spine. -/
theorem outwards {property : Nat → Prop} (innermost : property c.current)
    (next : ∀ {parent child : Nat}, child ∈ c.spine →
      (c.document.children parent).getLast? = some child → property child → property parent)
    {index : Nat} (on : index ∈ c.spine) : property index := by
  have both : index ∈ c.spine ∧ property index := by
    refine spine.lasts.induction (fun index => index ∈ c.spine ∧ property index) _
      (fun child parent last below => ?_) (fun proper => ?_) index on
    · have isChild := List.mem_of_getLast? last
      exact ⟨(spine.last_of_mem_children isChild below.1).1, next below.1 last below.2⟩
    · have first : c.spine.head proper = c.current :=
        Option.some.inj ((List.head?_eq_some_head proper).symm.trans c.head?_spine)
      exact first ▸ ⟨c.current_mem_spine, innermost⟩
  exact both.2

theorem elder_not_mem {parent child : Nat} {elder : List Nat}
    (whole : c.document.children parent = elder ++ [child]) :
    ∀ sibling ∈ elder, sibling ∉ c.spine := by
  intro sibling member on
  have isChild : sibling ∈ c.document.children parent := whole ▸ List.mem_append_left _ member
  have last := (spine.last_of_mem_children isChild on).2
  rw [whole, List.getLast?_concat] at last
  cases last
  have increasing := spine.tree.increasing parent
  rw [whole] at increasing
  exact Nat.lt_irrefl _
    ((List.pairwise_append.mp increasing).2.2 child member child (List.mem_singleton_self _))

theorem child_of_current_not_mem {child : Nat} (isChild : child ∈ c.document.children c.current) :
    child ∉ c.spine := fun on =>
  Nat.not_lt.mpr (spine.le_current on) (spine.tree.lt_of_mem_children isChild).1

theorem addElement (name : String) (attributes : List (String × String)) :
    (c.addElement name attributes).IsSpine where
  tree := spine.tree.addElement c.current_lt name attributes
  lasts := by
    refine spine.lasts.imp_of_mem_tail_imp fun child parent _ outer last => ?_
    have apart := Nat.ne_of_lt (spine.lt_current outer)
    show ((c.document.addElement c.current c.current_lt name attributes).children
      parent).getLast? = some child
    rw [Document.children_addElement, if_neg apart]
    exact last

theorem step (event : Event) : (c.step event).IsSpine := by
  cases event with
  | opening name attributes =>
      have grown := spine.addElement name attributes
      refine ⟨grown.tree, ?_⟩
      rw [Construction.spine, opened_opening, List.cons_append]
      refine List.isChain_cons.mpr ⟨fun parent inner => ?_, grown.lasts⟩
      have isCurrent : c.current = parent := Option.some.inj (c.head?_spine.symm.trans inner)
      show ((c.document.addElement c.current c.current_lt name attributes).children
        parent).getLast? = some c.document.elements.size
      rw [Document.children_addElement, if_pos isCurrent.symm, List.getLast?_concat]
  | closing =>
      have lasts := spine.lasts
      refine ⟨spine.tree, ?_⟩
      rw [Construction.spine] at lasts
      show (c.opened.tail ++ [0]).IsChain _
      cases opened : c.opened with
      | nil => exact .singleton 0
      | cons innermost outer =>
          rw [opened] at lasts
          exact lasts.tail
  | empty name attributes => exact spine.addElement name attributes
  | text content =>
      refine ⟨spine.tree.addText c.current content, spine.lasts.imp fun child parent last => ?_⟩
      show ((c.document.addText c.current content).children parent).getLast? = some child
      rw [Document.children_addText]
      exact last

/-! ### Character data -/

theorem stringValue_addText_of_not_mem (content : String) {index : Nat}
    (off : index ∉ c.spine) :
    (c.addText content).document.stringValue index = c.document.stringValue index := by
  have apart : index ≠ c.current := fun same => off (same ▸ c.current_mem_spine)
  have below : ∀ child ∈ c.document.children index,
      (c.addText content).document.stringValue child = c.document.stringValue child := by
    intro child member
    have bounds := spine.tree.lt_of_mem_children member
    have alsoOff : child ∉ c.spine := fun on => off (spine.last_of_mem_children member on).1
    exact stringValue_addText_of_not_mem content alsoOff
  rw [Document.stringValue_eq, Document.stringValue_eq, Document.innerValue, Document.innerValue,
    addText, Document.text_addText _ c.current_lt, if_neg apart, Document.children_addText]
  exact congrArg (_ ++ String.join ·) (List.map_congr_left below)
termination_by c.document.elements.size - index

theorem innerValue_addText_current (content : String) :
    (c.addText content).document.innerValue c.current = c.document.innerValue c.current := by
  rw [Document.innerValue, Document.innerValue, addText, Document.children_addText]
  exact congrArg String.join (List.map_congr_left fun child member =>
    spine.stringValue_addText_of_not_mem content (spine.child_of_current_not_mem member))

theorem innerValue_addText_of_last (content : String) {parent child : Nat}
    (last : (c.document.children parent).getLast? = some child) :
    ∃ others, c.document.innerValue parent = others ++ c.document.stringValue child ∧
      (c.addText content).document.innerValue parent =
        others ++ (c.addText content).document.stringValue child := by
  obtain ⟨elder, whole⟩ := List.getLast?_eq_some_iff.mp last
  have kept : ∀ sibling ∈ elder, (c.addText content).document.stringValue sibling =
      c.document.stringValue sibling := fun sibling member =>
    spine.stringValue_addText_of_not_mem content (spine.elder_not_mem whole sibling member)
  refine ⟨String.join (elder.map c.document.stringValue), ?_, ?_⟩
  · rw [Document.innerValue, whole, List.map_append, List.map_singleton, join_concat]
  · rw [Document.innerValue, addText, Document.children_addText, whole, List.map_append,
      List.map_singleton, join_concat, ← List.map_congr_left kept]
    rfl

theorem takesText_current (content : String) : c.TakesText content c.current where
  bound := Nat.le_refl _
  value := by
    refine ⟨c.document.text c.current, Document.stringValue_eq _ _, ?_⟩
    rw [Document.stringValue_eq, spine.innerValue_addText_current content, addText,
      Document.text_addText _ c.current_lt, if_pos rfl, String.append_assoc]
  inner := fun inside => absurd inside (Nat.lt_irrefl _)

theorem takesText_of_last {content : String} {parent child : Nat}
    (last : (c.document.children parent).getLast? = some child)
    (below : c.TakesText content child) : c.TakesText content parent := by
  obtain ⟨others, before, after⟩ := spine.innerValue_addText_of_last content last
  have older := (spine.tree.lt_of_mem_children (List.mem_of_getLast? last)).1
  have outer := Nat.lt_of_lt_of_le older below.bound
  have inner := below.value.prepend others
  rw [← before, ← after] at inner
  refine ⟨Nat.le_of_lt outer, ?_, fun _ => inner⟩
  rw [Document.stringValue_eq, Document.stringValue_eq, addText,
    Document.text_addText _ c.current_lt, if_neg (Nat.ne_of_lt outer)]
  exact inner.prepend _

theorem takesText (content : String) {index : Nat} (on : index ∈ c.spine) :
    c.TakesText content index := by
  apply spine.outwards (spine.takesText_current content) _ on
  intro parent child _ last below
  exact spine.takesText_of_last last below

end IsSpine

end Construction

end RdfMapping.Xml
