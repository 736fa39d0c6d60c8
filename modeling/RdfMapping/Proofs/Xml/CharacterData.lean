import RdfMapping.Proofs.Xml.Spine
/-!
The order of character data. The string value of an element is made of the character data that
stand between its start and its end, but its own are kept apart from those of the elements inside.
So they are in document order exactly as long as, in every element, character data of its own come
before all that the elements inside it have.
-/

namespace RdfMapping.Xml

/-! ### What a text delivers -/

/-- The character data up to the end of an element, `depth` other open elements being inside it. -/
def contentsUntilClosed : (depth : Nat) → List Event → List String
  | _, [] => []
  | depth, .opening _ _ :: later => contentsUntilClosed (depth + 1) later
  | 0, .closing :: _ => []
  | depth + 1, .closing :: later => contentsUntilClosed depth later
  | depth, .empty _ _ :: later => contentsUntilClosed depth later
  | depth, .text content :: later => content :: contentsUntilClosed depth later

/-- The character data between the start and the end of an element, `count` other elements starting
before it. -/
def delivered : (count : Nat) → List Event → List String
  | _, [] => []
  | 0, .opening _ _ :: later => contentsUntilClosed 0 later
  | 0, .empty _ _ :: _ => []
  | count + 1, .opening _ _ :: later => delivered count later
  | count + 1, .empty _ _ :: later => delivered count later
  | count, .closing :: later => delivered count later
  | count, .text _ :: later => delivered count later

/-- The string value of every element has its character data in document order. -/
def InDocumentOrder (events : List Event) : Prop :=
  ∀ count < (Document.ofEvents events).size,
    (Document.ofEvents events).stringValue (count + 1) = String.join (delivered count events)

namespace Event

def content : Event → String
  | .text content => content
  | .opening _ _ | .closing | .empty _ _ => ""

def starts : Event → Nat
  | .opening _ _ | .empty _ _ => 1
  | .closing | .text _ => 0

/-- Keeps the record whether elements inside an open element have character data, for each open
element, the innermost first. -/
def mark (flags : List Bool) : Event → List Bool
  | .opening _ _ => false :: flags
  | .closing => flags.tail
  | .empty _ _ => flags
  | .text content =>
      if content = "" then flags
      else flags.take 1 ++ flags.tail.map fun _ => true

/-- The same event, but with other character data in place of any that there are. -/
inductive Retexts : Event → Event → Prop
  | opening {name : String} {attributes : List (String × String)} :
      Retexts (.opening name attributes) (.opening name attributes)
  | closing : Retexts .closing .closing
  | empty {name : String} {attributes : List (String × String)} :
      Retexts (.empty name attributes) (.empty name attributes)
  | text {content other : String} : (content = "" → other = "") →
      Retexts (.text content) (.text other)

end Event

/-- No element has character data behind elements inside it that have some; `flags` tells for each
open element whether it has such elements. -/
def DataFirst : (flags : List Bool) → List Event → Prop
  | _, [] => True
  | flags, event :: later =>
      (event.content = "" ∨ flags.head? ≠ some true) ∧ DataFirst (event.mark flags) later

/-! ### One event -/

namespace Construction

def flags (c : Construction) : List Bool :=
  c.opened.map fun index => decide (c.document.innerValue index ≠ "")

theorem head?_flags {c : Construction} {index : Nat} (member : index ∈ c.opened) :
    c.flags.head? = some (decide (c.document.innerValue c.current ≠ "")) := by
  obtain ⟨first, rest, whole⟩ := List.exists_cons_of_ne_nil (List.ne_nil_of_mem member)
  rw [flags, current, whole]
  rfl

theorem addText_empty (c : Construction) : c.addText "" = c := by
  have same : c.document.addText c.current "" = c.document := by
    rw [Document.addText, Document.mk.injEq]
    refine Array.ext_getElem? fun index => ?_
    rw [Array.getElem?_modify]
    split
    · cases c.document.elements[index]? with
      | none => rfl
      | some element => simp
    · rfl
  rw [Construction.mk.injEq]
  exact ⟨same, rfl⟩

namespace IsSpine

variable {c : Construction} (spine : c.IsSpine)
include spine

theorem stringValue_step (event : Event)
    (first : event.content = "" ∨ c.flags.head? ≠ some true) {index : Nat} (proper : index ≠ 0) :
    (c.step event).document.stringValue index =
      c.document.stringValue index ++ (if index ∈ c.opened then event.content else "") := by
  cases event with
  | opening name attributes =>
      rw [Event.content, ite_self, String.append_empty]
      exact spine.tree.stringValue_addElement c.current_lt name attributes index
  | closing =>
      rw [Event.content, ite_self, String.append_empty]
      rfl
  | empty name attributes =>
      rw [Event.content, ite_self, String.append_empty]
      exact spine.tree.stringValue_addElement c.current_lt name attributes index
  | text content =>
      by_cases opened : index ∈ c.opened
      · have last : content = "" ∨ c.document.innerValue c.current = "" := by
          rw [head?_flags opened] at first
          simpa [Event.content] using first
        rw [if_pos opened]
        exact (spine.takesText content (List.mem_append_left _ opened)).value.eq_append last
      · rw [if_neg opened, String.append_empty]
        exact spine.stringValue_addText_of_not_mem content (not_mem_spine proper opened)

theorem flags_addElement (name : String) (attributes : List (String × String)) :
    (c.addElement name attributes).flags = c.flags := by
  refine List.map_congr_left fun index _ => ?_
  show decide ((c.document.addElement c.current c.current_lt name attributes).innerValue index ≠
    "") = _
  rw [spine.tree.innerValue_addElement c.current_lt]

theorem flags_addText (content : String) :
    (c.addText content).flags = (Event.text content).mark c.flags := by
  rw [Event.mark]
  by_cases blank : content = ""
  · rw [if_pos blank, blank, addText_empty]
  · rw [if_neg blank]
    cases opened : c.opened with
    | nil =>
        have stillOpened : (c.addText content).opened = [] := opened
        rw [flags, flags, stillOpened, opened]
        rfl
    | cons innermost outer =>
        have isCurrent : c.current = innermost := by
          rw [current, opened]
          rfl
        have around : outer.map (fun index =>
            decide ((c.addText content).document.innerValue index ≠ "")) =
              outer.map fun _ => true := by
          refine List.map_congr_left fun index member => decide_eq_true ?_
          have tail : index ∈ c.spine.tail := by
            rw [Construction.spine, opened]
            exact List.mem_append_left _ member
          have taken := spine.takesText content (List.mem_of_mem_tail tail)
          obtain ⟨front, _, new⟩ := taken.inner (spine.lt_current tail)
          rw [new]
          simp [blank]
        have inside := spine.innerValue_addText_current content
        have stillOpened : (c.addText content).opened = innermost :: outer := opened
        rw [isCurrent] at inside
        rw [flags, flags, stillOpened, opened, List.map_cons, List.map_cons, around, inside]
        simp

theorem flags_step (event : Event) : (c.step event).flags = event.mark c.flags := by
  cases event with
  | opening name attributes =>
      have fresh : (c.addElement name attributes).document.innerValue
          c.document.elements.size = "" := by
        show (c.document.addElement c.current c.current_lt name attributes).innerValue _ = ""
        rw [spine.tree.innerValue_addElement c.current_lt]
        exact Document.innerValue_of_absent (Nat.le_refl _)
      rw [flags, opened_opening, List.map_cons]
      exact congrArg₂ List.cons (decide_eq_false (not_not.mpr fresh))
        (spine.flags_addElement name attributes)
  | closing => exact List.map_tail
  | empty name attributes => exact spine.flags_addElement name attributes
  | text content => exact spine.flags_addText content

end IsSpine

/-! ### A run -/

def received (c : Construction) (index : Nat) : List Event → String
  | [] => ""
  | event :: later =>
      (if index ∈ c.opened then event.content else "") ++ (c.step event).received index later

theorem received_append (c : Construction) (index : Nat) (before after : List Event) :
    c.received index (before ++ after) =
      c.received index before ++ (before.foldl Construction.step c).received index after := by
  induction before generalizing c with
  | nil => exact String.empty_append.symm
  | cons event later ih =>
      rw [List.cons_append, received, received, ih, List.foldl_cons, String.append_assoc]

theorem received_of_blank {c : Construction} {index : Nat} {events : List Event}
    (blank : ∀ event ∈ events, event.content = "") : c.received index events = "" := by
  induction events generalizing c with
  | nil => rfl
  | cons event later ih =>
      obtain ⟨here, others⟩ := List.forall_mem_cons.mp blank
      rw [received, here, ite_self, ih others, String.append_empty]

namespace IsSpine

variable {c : Construction} (spine : c.IsSpine)
include spine

theorem foldl (events : List Event) : (events.foldl Construction.step c).IsSpine := by
  induction events generalizing c with
  | nil => exact spine
  | cons event later ih => exact ih (spine.step event)

theorem flags_foldl (events : List Event) :
    (events.foldl Construction.step c).flags =
      events.foldl (fun flags event => event.mark flags) c.flags := by
  induction events generalizing c with
  | nil => rfl
  | cons event later ih =>
      rw [List.foldl_cons, List.foldl_cons, ih (spine.step event), spine.flags_step]

theorem stringValue_foldl {events : List Event} (first : DataFirst c.flags events) {index : Nat}
    (proper : index ≠ 0) :
    (events.foldl Construction.step c).document.stringValue index =
      c.document.stringValue index ++ c.received index events := by
  induction events generalizing c with
  | nil => exact String.append_empty.symm
  | cons event later ih =>
      obtain ⟨here, others⟩ := first
      rw [← spine.flags_step event] at others
      rw [List.foldl_cons, ih (spine.step event) others, spine.stringValue_step event here proper,
        received, String.append_assoc]

end IsSpine

/-! ### What an element receives -/

theorem size_step (c : Construction) (event : Event) :
    (c.step event).document.elements.size = c.document.elements.size + event.starts := by
  cases event with
  | opening name attributes => exact c.document.size_addElement c.current c.current_lt _ _
  | closing => rfl
  | empty name attributes => exact c.document.size_addElement c.current c.current_lt _ _
  | text content => exact c.document.size_addText c.current content

theorem received_of_closed {c : Construction} {index : Nat}
    (present : index < c.document.elements.size) (closed : index ∉ c.opened)
    (events : List Event) : c.received index events = "" := by
  induction events generalizing c with
  | nil => rfl
  | cons event later ih =>
      have still : index ∉ (c.step event).opened := by
        cases event with
        | opening name attributes =>
            rw [opened_opening, List.mem_cons, not_or]
            exact ⟨Nat.ne_of_lt present, closed⟩
        | closing => exact fun member => closed (List.mem_of_mem_tail member)
        | empty name attributes => exact closed
        | text content => exact closed
      rw [received, if_neg closed, String.empty_append,
        ih (c.size_step event ▸ Nat.lt_add_right _ present) still]

theorem IsSpine.received_of_opened {c : Construction} (spine : c.IsSpine) {depth index : Nat}
    (opened : c.opened[depth]? = some index) (events : List Event) :
    c.received index events = String.join (contentsUntilClosed depth events) := by
  induction events generalizing c depth with
  | nil => cases depth <;> rfl
  | cons event later ih =>
      have member := List.mem_of_getElem? opened
      rw [received, if_pos member]
      cases event with
      | opening name attributes =>
          have deeper : (c.step (.opening name attributes)).opened[depth + 1]? = some index := by
            rw [opened_opening, List.getElem?_cons_succ, opened]
          rw [ih (spine.step _) deeper, Event.content, String.empty_append, contentsUntilClosed]
      | closing =>
          rw [Event.content, String.empty_append]
          cases depth with
          | zero =>
              -- elements that are opened later come after it, so that it is not open twice
              have closed : index ∉ c.opened.tail := by
                obtain ⟨rest, whole⟩ := List.head?_eq_some_iff.mp
                  (List.head?_eq_getElem? ▸ opened : c.opened.head? = some index)
                have below := (List.pairwise_append.mp spine.decreasing).1
                rw [whole] at below ⊢
                exact fun again => Nat.lt_irrefl _ ((List.pairwise_cons.mp below).1 index again)
              exact received_of_closed (c := c.close) (c.present index member) closed later
          | succ depth =>
              have outer : c.opened.tail[depth]? = some index := by
                rw [List.getElem?_tail, opened]
              rw [ih (spine.step .closing) outer, contentsUntilClosed]
      | empty name attributes =>
          rw [ih (spine.step (.empty name attributes)) opened, Event.content, String.empty_append,
            contentsUntilClosed]
      | text content =>
          rw [ih (spine.step (.text content)) opened, Event.content, contentsUntilClosed,
            String.join_cons]

theorem IsSpine.received_of_unborn {c : Construction} (spine : c.IsSpine) (count : Nat)
    (events : List Event) :
    c.received (c.document.elements.size + count) events =
      String.join (delivered count events) := by
  induction events generalizing c count with
  | nil => cases count <;> rfl
  | cons event later ih =>
      have absent : c.document.elements.size + count ∉ c.opened := fun member =>
        absurd (c.present _ member) (Nat.not_lt.mpr (Nat.le_add_right _ _))
      have next (count : Nat) : (c.step event).received
          (c.document.elements.size + (event.starts + count)) later =
            String.join (delivered count later) := by
        rw [← ih (spine.step event) count, size_step, Nat.add_assoc]
      rw [received, if_neg absent, String.empty_append]
      cases event with
      | opening name attributes =>
          cases count with
          | zero =>
              have opened : (c.step (.opening name attributes)).opened[0]? =
                  some c.document.elements.size := by
                rw [opened_opening]
                rfl
              rw [Nat.add_zero, (spine.step _).received_of_opened opened, delivered]
          | succ count => rw [delivered, ← next count, Event.starts, Nat.add_comm 1]
      | closing => rw [delivered, ← next count, Event.starts, Nat.zero_add]
      | empty name attributes =>
          cases count with
          | zero =>
              have present : c.document.elements.size <
                  (c.step (.empty name attributes)).document.elements.size := by
                rw [size_step]
                exact Nat.lt_succ_self _
              exact received_of_closed present absent later
          | succ count => rw [delivered, ← next count, Event.starts, Nat.add_comm 1]
      | text content => rw [delivered, ← next count, Event.starts, Nat.zero_add]

end Construction

open Construction

theorem inDocumentOrder_of_dataFirst {events : List Event} (first : DataFirst [] events) :
    InDocumentOrder events := by
  intro count _
  have absent : start.document.stringValue (count + 1) = "" :=
    Document.stringValue_of_absent (Nat.le_add_left 1 count)
  calc (Document.ofEvents events).stringValue (count + 1)
      = start.document.stringValue (count + 1) ++ start.received (count + 1) events :=
        isSpine_start.stringValue_foldl first (Nat.succ_ne_zero count)
    _ = start.received (1 + count) events := by
        rw [absent, String.empty_append, Nat.add_comm]
    _ = String.join (delivered count events) := isSpine_start.received_of_unborn count events

/-! ### Other character data -/

theorem dataFirst_of_blank {events : List Event} (blank : ∀ event ∈ events, event.content = "")
    (flags : List Bool) : DataFirst flags events := by
  induction events generalizing flags with
  | nil => trivial
  | cons event later ih =>
      obtain ⟨here, others⟩ := List.forall_mem_cons.mp blank
      exact ⟨Or.inl here, ih others _⟩

theorem exists_of_not_dataFirst {flags : List Bool} {events : List Event}
    (fails : ¬ DataFirst flags events) :
    ∃ before content after, events = before ++ .text content :: after ∧ content ≠ "" ∧
      (before.foldl (fun flags event => event.mark flags) flags).head? = some true := by
  induction events generalizing flags with
  | nil => exact absurd trivial fails
  | cons event later ih =>
      rw [DataFirst, not_and_or, not_or, not_not] at fails
      rcases fails with ⟨proper, inside⟩ | further
      · cases event with
        | text content => exact ⟨[], content, later, rfl, proper, inside⟩
        | _ => exact absurd rfl proper
      · obtain ⟨before, content, after, whole, found⟩ := ih further
        exact ⟨event :: before, content, after, whole ▸ rfl, found⟩

def Within (flags fewer : List Bool) : Prop :=
  List.Forall₂ (fun flag other => other = true → flag = true) flags fewer

theorem Event.Retexts.mark_within {event other : Event} (retexts : event.Retexts other)
    {flags fewer : List Bool} (within : Within flags fewer) :
    Within (event.mark flags) (other.mark fewer) := by
  cases retexts with
  | opening => exact .cons id within
  | closing =>
      cases within with
      | nil => exact .nil
      | cons _ outer => exact outer
  | empty => exact within
  | @text content other kept =>
      rw [mark, mark]
      cases within with
      | nil =>
          rw [List.take_nil, List.tail_nil, List.map_nil, List.append_nil, ite_self, ite_self]
          exact .nil
      | @cons flag less flags fewer here outer =>
          have all : Within (flags.map fun _ => true) fewer :=
            List.forall₂_map_left_iff.mpr (outer.imp fun _ _ _ _ => rfl)
          have both : Within (flags.map fun _ => true) (fewer.map fun _ => true) :=
            List.forall₂_map_left_iff.mpr
              (List.forall₂_map_right_iff.mpr (outer.imp fun _ _ _ _ => rfl))
          by_cases blank : other = ""
          · rw [if_pos blank]
            split
            · exact .cons here outer
            · exact .cons here all
          · rw [if_neg blank, if_neg (mt kept blank)]
            exact .cons here both

theorem dataFirst_of_retexts {flags fewer : List Bool} {events others : List Event}
    (within : Within flags fewer) (retexts : List.Forall₂ Event.Retexts events others)
    (first : DataFirst flags events) : DataFirst fewer others := by
  induction retexts generalizing flags fewer with
  | nil => trivial
  | @cons event other later others same _ ih =>
      obtain ⟨here, further⟩ := first
      refine ⟨?_, ih (same.mark_within within) further⟩
      rcases here with blank | outside
      · cases same with
        | text kept => exact Or.inl (kept blank)
        | _ => exact Or.inl rfl
      · refine Or.inr fun inside => outside ?_
        cases within with
        | nil => cases inside
        | cons below _ => exact congrArg some (below (Option.some.inj inside))

def Event.blank : Event → Event
  | .text _ => .text ""
  | event => event

theorem Event.retexts_blank (event : Event) : event.Retexts event.blank := by
  cases event with
  | opening => exact .opening
  | closing => exact .closing
  | empty => exact .empty
  | text content => exact .text fun _ => rfl

theorem Event.retexts_refl (event : Event) : event.Retexts event := by
  cases event with
  | opening => exact .opening
  | closing => exact .closing
  | empty => exact .empty
  | text content => exact .text id

theorem Event.content_blank (event : Event) : event.blank.content = "" := by
  cases event <;> rfl

theorem current_mem_opened {c : Construction} {flag : Bool} (first : c.flags.head? = some flag) :
    c.current ∈ c.opened := by
  rw [flags, List.head?_map] at first
  obtain ⟨index, head, _⟩ := Option.map_eq_some_iff.mp first
  obtain ⟨rest, whole⟩ := List.head?_eq_some_iff.mp head
  rw [current, whole]
  exact List.mem_cons_self

/-- Behind elements with character data, there is a character that does not get to the end of the
value when it arrives. -/
theorem Construction.IsSpine.exists_moved {c : Construction} (spine : c.IsSpine)
    (inside : c.flags.head? = some true) :
    ∃ d, ∀ after : List Event, (∀ event ∈ after, event.content = "") → ∀ arrived,
      ((.text (String.singleton d) :: after).foldl Construction.step c).document.stringValue
        c.current ≠ arrived ++ String.singleton d := by
  have opened := current_mem_opened inside
  have proper : c.document.innerValue c.current ≠ "" := by
    rw [head?_flags opened] at inside
    exact of_decide_eq_true (Option.some.inj inside)
  obtain ⟨final, last⟩ := Option.ne_none_iff_exists'.mp
    (mt List.getLast?_eq_none_iff.mp (mt String.toList_eq_nil_iff.mp proper))
  obtain ⟨d, apart⟩ : ∃ d, d ≠ final := by
    by_cases same : final = 'x'
    · exact ⟨'y', same ▸ by decide⟩
    · exact ⟨'x', Ne.symm same⟩
  refine ⟨d, fun after blank arrived same => apart ?_⟩
  obtain ⟨front, _, grown⟩ := (spine.takesText_current (String.singleton d)).value
  have still := (spine.step (.text (String.singleton d))).stringValue_foldl
    (dataFirst_of_blank blank _) (Nat.ne_of_gt (spine.pos_of_mem_opened opened))
  rw [received_of_blank blank, String.append_empty] at still
  have ends := congrArg (fun text => text.toList.getLast?)
    (grown.symm.trans (still.symm.trans same))
  simp only [String.toList_append, List.getLast?_append, last, Option.some_or,
    String.toList_singleton, List.getLast?_singleton] at ends
  exact (Option.some.inj ends).symm

theorem Construction.size_foldl_le (c : Construction) (events : List Event) :
    c.document.elements.size ≤ (events.foldl Construction.step c).document.elements.size := by
  induction events generalizing c with
  | nil => exact Nat.le_refl _
  | cons event later ih =>
      refine Nat.le_trans ?_ (ih (c.step event))
      rw [size_step]
      exact Nat.le_add_right _ _

theorem exists_disorder {events : List Event} (fails : ¬ DataFirst [] events) :
    ∃ others, List.Forall₂ Event.Retexts events others ∧ ¬ InDocumentOrder others := by
  obtain ⟨before, content, after, rfl, proper, inside⟩ := exists_of_not_dataFirst fails
  obtain ⟨c, reached⟩ : ∃ c, before.foldl Construction.step start = c := ⟨_, rfl⟩
  have spine : c.IsSpine := reached ▸ isSpine_start.foldl before
  have flags : c.flags.head? = some true := by
    rw [← reached, isSpine_start.flags_foldl before]
    exact inside
  have opened := current_mem_opened flags
  obtain ⟨d, moved⟩ := spine.exists_moved flags
  -- what follows is left without character data, so that the character should come last
  have blank : ∀ event ∈ after.map Event.blank, event.content = "" := by
    intro event listed
    obtain ⟨original, _, rfl⟩ := List.mem_map.mp listed
    exact original.content_blank
  refine ⟨before ++ .text (String.singleton d) :: after.map Event.blank,
    List.rel_append (List.forall₂_same.mpr fun event _ => event.retexts_refl)
      (.cons (.text fun empty => absurd empty proper)
        (List.forall₂_map_right_iff.mpr (List.forall₂_same.mpr fun event _ =>
          event.retexts_blank))), fun ordered => ?_⟩
  obtain ⟨count, isNext⟩ := Nat.exists_eq_succ_of_ne_zero
    (Nat.ne_of_gt (spine.pos_of_mem_opened opened))
  have present : c.current < (Document.ofEvents (before ++
      .text (String.singleton d) :: after.map Event.blank)).elements.size := by
    rw [Document.ofEvents, List.foldl_append, reached]
    exact Nat.lt_of_lt_of_le c.current_lt (c.size_foldl_le _)
  have value := ordered count (by rw [Document.size]; omega)
  rw [← isSpine_start.received_of_unborn count, received_append, reached, Document.ofEvents,
    List.foldl_append, reached] at value
  have isCurrent : start.document.elements.size + count = c.current :=
    (Nat.add_comm 1 count).trans isNext.symm
  rw [isCurrent, received, if_pos opened, received_of_blank blank, String.append_empty] at value
  rw [← Nat.succ_eq_add_one, ← isNext] at value
  exact moved _ blank _ value

/-- The string values of all elements are in document order, whatever the character data are, if
and only if in no element character data of its own follow elements that have some. -/
theorem inDocumentOrder_iff (events : List Event) :
    (∀ others, List.Forall₂ Event.Retexts events others → InDocumentOrder others) ↔
      DataFirst [] events := by
  constructor
  · intro ordered
    by_contra fails
    obtain ⟨others, retexts, disorder⟩ := exists_disorder fails
    exact disorder (ordered others retexts)
  · intro first others retexts
    exact inDocumentOrder_of_dataFirst (dataFirst_of_retexts .nil retexts first)

def mixed : List Event :=
  [.opening "a" [], .text "x", .opening "b" [], .text "y", .closing, .text "z", .closing]

/-- What follows the inner element is put before it. -/
theorem stringValue_mixed :
    Document.parse "mixed" "<a>x<b>y</b>z</a>" [] = .ok (.ofEvents mixed) ∧
      (Document.ofEvents mixed).stringValue 1 = "xzy" ∧
      String.join (delivered 0 mixed) = "xyz" := by
  have read : read? "<a>x<b>y</b>z</a>".toList = some mixed := by decide +kernel
  exact ⟨Document.parse_of_read read, by decide +kernel, by decide +kernel⟩

end RdfMapping.Xml
