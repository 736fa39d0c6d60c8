import Mathlib.Data.List.Chain
import RdfMapping.Proofs.Outcome
import RdfMapping.Template
/-!
Templates that are written and read again. Segments that are not empty, and of which no two
literal ones stand together, are read back from their written form.
-/

namespace RdfMapping

def Segment.isLiteral : Segment → Bool
  | .literal _ => true
  | .reference _ => false

namespace Template

/-! ### Steps of the reader -/

theorem readFrom_escaped (place : Place) (c : Char) (rest : List Char) :
    readFrom place ('\\' :: c :: rest) = readFrom (place.push c) rest := by
  cases place <;> simp [readFrom]

theorem readFrom_plain (place : Place) {c : Char} (rest : List Char) (noEscape : c ≠ '\\')
    (noOpening : c ≠ '\x7b') (noClosing : c ≠ '\x7d') :
    readFrom place (c :: rest) = readFrom (place.push c) rest := by
  cases place <;> simp [readFrom, noEscape, noOpening, noClosing]

theorem readFrom_opening (text rest : List Char) :
    readFrom (.outside text) ('\x7b' :: rest) =
      (readFrom (.inside []) rest).map (literalSegment text ++ ·) := by
  simp only [readFrom]
  cases readFrom (.inside []) rest <;> rfl

theorem readFrom_nested (selector rest : List Char) :
    readFrom (.inside selector) ('\x7b' :: rest) = .error .nestedBrace := by
  simp [readFrom]

theorem readFrom_brace (text rest : List Char) :
    readFrom (.outside text) ('\x7d' :: rest) = readFrom (.outside ('\x7d' :: text)) rest := by
  simp [readFrom]

theorem readFrom_empty (rest : List Char) :
    readFrom (.inside []) ('\x7d' :: rest) = .error .emptyPlaceholder := by
  simp [readFrom]

theorem readFrom_closing {selector : List Char} (rest : List Char) (filled : selector ≠ []) :
    readFrom (.inside selector) ('\x7d' :: rest) =
      (readFrom (.outside []) rest).map (.reference (String.ofList selector.reverse) :: ·) := by
  cases selector with
  | nil => exact absurd rfl filled
  | cons c selector =>
      simp only [readFrom]
      cases readFrom (.outside []) rest <;> rfl

theorem exists_map_eq_ok_iff {α β : Type} {x : Except Fault α} {f : α → β} :
    (∃ b, x.map f = .ok b) ↔ ∃ a, x = .ok a := by
  simp [Outcome.map_eq_ok]

theorem parse_eq_ok_iff {source : String} {template : Template} :
    parse source = .ok template ↔
      template.source = source ∧ read source.toList = .ok template.segments := by
  unfold parse
  cases read source.toList with
  | error fault => simp
  | ok segments =>
      cases template
      simp [eq_comm]

/-! ### Proper segments -/

/-- No segment is empty, and literal segments do not stand together. -/
structure Proper (segments : List Segment) : Prop where
  filled : ∀ segment ∈ segments, segment ≠ .literal "" ∧ segment ≠ .reference ""
  merged : segments.IsChain fun one two => ¬ (one.isLiteral = true ∧ two.isLiteral = true)

def StartsApart (segments : List Segment) : Prop :=
  ∀ first ∈ segments.head?, first.isLiteral = false

theorem startsApart_nil : StartsApart [] := nofun

theorem startsApart_reference (selector : String) (rest : List Segment) :
    StartsApart (.reference selector :: rest) := by
  rintro first ⟨⟩
  rfl

theorem proper_nil : Proper [] := ⟨nofun, .nil⟩

theorem proper_literal_cons {text : String} {segments : List Segment} :
    Proper (.literal text :: segments) ↔ text ≠ "" ∧ StartsApart segments ∧ Proper segments := by
  constructor
  · rintro ⟨filled, merged⟩
    obtain ⟨first, later⟩ := List.forall_mem_cons.mp filled
    obtain ⟨apart, chained⟩ := List.isChain_cons.mp merged
    refine ⟨fun empty => first.1 (congrArg Segment.literal empty), ?_, later, chained⟩
    intro next member
    exact Bool.eq_false_iff.mpr fun literal => apart next member ⟨rfl, literal⟩
  · rintro ⟨filled, apart, proper⟩
    refine ⟨List.forall_mem_cons.mpr ⟨⟨?_, nofun⟩, proper.filled⟩, ?_⟩
    · exact fun empty => filled (Segment.literal.inj empty)
    · refine List.isChain_cons.mpr ⟨?_, proper.merged⟩
      rintro next member ⟨_, literal⟩
      exact Bool.false_ne_true ((apart next member).symm.trans literal)

theorem proper_reference_cons {selector : String} {segments : List Segment} :
    Proper (.reference selector :: segments) ↔ selector ≠ "" ∧ Proper segments := by
  constructor
  · rintro ⟨filled, merged⟩
    obtain ⟨first, later⟩ := List.forall_mem_cons.mp filled
    exact ⟨fun empty => first.2 (congrArg Segment.reference empty), later,
      (List.isChain_cons.mp merged).2⟩
  · rintro ⟨filled, proper⟩
    refine ⟨List.forall_mem_cons.mpr ⟨⟨nofun, ?_⟩, proper.filled⟩, ?_⟩
    · exact fun empty => filled (Segment.reference.inj empty)
    · exact List.isChain_cons.mpr ⟨fun _ _ both => Bool.false_ne_true both.1, proper.merged⟩

theorem proper_literalSegment {text : List Char} {segments : List Segment}
    (apart : StartsApart segments) (proper : Proper segments) :
    Proper (literalSegment text ++ segments) := by
  unfold literalSegment
  split
  · exact proper
  · next filled =>
      refine proper_literal_cons.mpr ⟨?_, apart, proper⟩
      intro empty
      apply filled
      simpa using congrArg String.toList empty

/-! ### What is written is read -/

def Place.gather : Place → List Char → Place
  | .outside start, text => .outside (text.reverse ++ start)
  | .inside start, text => .inside (text.reverse ++ start)

theorem Place.gather_nil (place : Place) : place.gather [] = place := by
  cases place <;> rfl

theorem Place.gather_cons (place : Place) (c : Char) (text : List Char) :
    place.gather (c :: text) = (place.push c).gather text := by
  cases place <;> simp [gather, push]

theorem readFrom_escape (place : Place) (text rest : List Char) :
    readFrom place (escape text ++ rest) = readFrom (place.gather text) rest := by
  induction text generalizing place with
  | nil => rw [Place.gather_nil, escape, List.flatMap_nil, List.nil_append]
  | cons c text ih =>
      rw [Place.gather_cons, ← ih, escape, List.flatMap_cons, List.append_assoc]
      split
      · exact readFrom_escaped place c _
      · next plain =>
          simp only [not_or] at plain
          exact readFrom_plain place _ plain.1 plain.2.1 plain.2.2

theorem literalSegment_reverse {text : String} (filled : text ≠ "") :
    literalSegment text.toList.reverse = [.literal text] := by
  unfold literalSegment
  rw [if_neg (by simpa using filled), List.reverse_reverse, String.ofList_toList]

/-- A literal text that is still being gathered is followed by none. -/
theorem readFrom_write {segments : List Segment} (proper : Proper segments) {text : List Char}
    (apart : text ≠ [] → StartsApart segments) :
    readFrom (.outside text) (write segments) = .ok (literalSegment text ++ segments) := by
  induction segments generalizing text with
  | nil => simp [write, readFrom]
  | cons segment rest ih =>
      cases segment with
      | literal literal =>
          have start : text = [] := by
            by_contra gathered
            cases apart gathered _ rfl
          obtain ⟨filled, restApart, restProper⟩ := proper_literal_cons.mp proper
          rw [write, List.flatMap_cons, Segment.write, readFrom_escape, Place.gather, start,
            List.append_nil, ← write, ih restProper fun _ => restApart,
            literalSegment_reverse filled]
          rfl
      | reference selector =>
          obtain ⟨filled, restProper⟩ := proper_reference_cons.mp proper
          have nonempty : selector.toList.reverse ≠ [] := by simpa using filled
          rw [write, List.flatMap_cons, Segment.write, List.cons_append, List.cons_append,
            readFrom_opening, List.append_assoc, readFrom_escape, Place.gather, List.append_nil,
            List.singleton_append, readFrom_closing _ nonempty, ← write,
            ih restProper fun gathered => absurd rfl gathered, List.reverse_reverse,
            String.ofList_toList]
          rfl

theorem parse_write {segments : List Segment} (proper : Proper segments) :
    parse (String.ofList (write segments)) = .ok ⟨String.ofList (write segments), segments⟩ := by
  rw [parse_eq_ok_iff, String.toList_ofList]
  exact ⟨rfl, readFrom_write proper fun gathered => absurd rfl gathered⟩

end Template

end RdfMapping
