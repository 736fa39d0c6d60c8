import RdfMapping.Proofs.Text.Tokens
import RdfMapping.Proofs.Triple.Grammar
import RdfMapping.XPath
/-!
How paths into XML documents are written. A path is a row of segments with one or two slashes
between each two of them, and before the first one if it is taken from the document. As long as
the quotes and brackets of every segment are closed in it, the path is read segment by segment.
-/

namespace RdfMapping

/-! ### Names -/

namespace Xml

/-- A name as the grammar of XML has it: it begins as the name of a blank node does, and full
stops may follow. -/
def isName : List Char → Bool
  | [] => false
  | first :: rest =>
      NTriples.isIn NTriples.nameStartRanges first && rest.all NTriples.isLabelChar

theorem exists_cons_of_isName {name : List Char} (named : isName name = true) :
    ∃ first rest, name = first :: rest ∧ NTriples.isIn NTriples.nameStartRanges first = true := by
  cases name with
  | nil => cases named
  | cons first rest => exact ⟨first, rest, rfl, (Bool.and_eq_true_iff.mp named).1⟩

theorem isLabelChar_of_mem_name {name : List Char} (named : isName name = true) {c : Char}
    (member : c ∈ name) : NTriples.isLabelChar c = true := by
  cases name with
  | nil => cases member
  | cons first rest =>
      obtain ⟨starts, others⟩ := Bool.and_eq_true_iff.mp named
      rcases List.mem_cons.mp member with rfl | later
      · rw [NTriples.isLabelChar, NTriples.isNameChar, starts]
        rfl
      · exact List.all_eq_true.mp others c later

theorem not_mem_name {name : List Char} (named : isName name = true) {c : Char}
    (outside : NTriples.isLabelChar c = false) : c ∉ name := by
  intro member
  rw [isLabelChar_of_mem_name named member] at outside
  cases outside

end Xml

namespace XPath

/-! ### Segments -/

/-- The characters at which a step may end, or that tell where it does not. -/
def marks : List Char := ['/', '\'', '"', '[', ']']

theorem cutStep_append {text : List Char} (unmarked : ∀ c ∈ text, c ∉ marks) (depth : Nat)
    (rest : List Char) :
    cutStep depth none (text ++ rest) =
      (text ++ (cutStep depth none rest).1, (cutStep depth none rest).2) := by
  induction text with
  | nil => rfl
  | cons c text ih =>
      obtain ⟨here, later⟩ := List.forall_mem_cons.mp unmarked
      simp only [marks, List.mem_cons, List.not_mem_nil, or_false, not_or] at here
      rw [List.cons_append, cutStep, if_neg (fun both => here.1 both.1),
        if_neg (not_or.mpr ⟨here.2.1, here.2.2.1⟩), if_neg here.2.2.2.1, if_neg here.2.2.2.2,
        ih later]
      rfl

theorem unmarked_of_name {name : List Char} (named : Xml.isName name = true) :
    ∀ c ∈ name, c ∉ marks := by
  intro c member mark
  have outside : marks.all (!NTriples.isLabelChar ·) = true := by decide
  have noLabel := List.all_eq_true.mp outside c mark
  exact Xml.not_mem_name named (Bool.not_eq_true' _ |>.mp noLabel) member

/-- A text that stands between slashes as one step: there is something in it, and a slash behind
it ends it, as its quotes and brackets are closed. -/
structure IsSegment (text : List Char) : Prop where
  proper : text ≠ []
  closed : cutStep 0 none (text ++ ['/']) = (text, ['/'])

/-- A character at which a step does not end leaves the reader at some depth and in some quote,
and is kept. -/
theorem exists_cutStep_cons {depth : Nat} {quote : Option Char} {c : Char}
    (goesOn : ¬ (quote = none ∧ c = '/' ∧ depth = 0)) :
    ∃ deeper opened, ∀ rest, cutStep depth quote (c :: rest) =
      (c :: (cutStep deeper opened rest).1, (cutStep deeper opened rest).2) := by
  cases quote with
  | some mark => exact ⟨depth, if c = mark then none else some mark, fun rest => by rw [cutStep]⟩
  | none =>
      have inside : ¬ (c = '/' ∧ depth = 0) := fun ends => goesOn ⟨rfl, ends⟩
      by_cases quoted : c = '\'' ∨ c = '"'
      · exact ⟨depth, some c, fun rest => by rw [cutStep, if_neg inside, if_pos quoted]⟩
      · by_cases opens : c = '['
        · refine ⟨depth + 1, none, fun rest => ?_⟩
          rw [cutStep, if_neg inside, if_neg quoted, if_pos opens]
        · by_cases closes : c = ']'
          · refine ⟨depth - 1, none, fun rest => ?_⟩
            rw [cutStep, if_neg inside, if_neg quoted, if_neg opens, if_pos closes]
          · refine ⟨depth, none, fun rest => ?_⟩
            rw [cutStep, if_neg inside, if_neg quoted, if_neg opens, if_neg closes]

/-- What a slash ends is ended by it whatever follows, and by the end of the path as well. -/
theorem cutStep_of_closed {depth : Nat} {quote : Option Char} {text : List Char}
    (closed : cutStep depth quote (text ++ ['/']) = (text, ['/'])) (rest : List Char)
    (follows : ∀ c, rest.head? = some c → c = '/') :
    cutStep depth quote (text ++ rest) = (text, rest) := by
  induction text generalizing depth quote with
  | nil =>
      by_cases ends : quote = none ∧ depth = 0
      · obtain ⟨rfl, rfl⟩ := ends
        cases rest with
        | nil => rfl
        | cons c rest => rw [List.nil_append, cutStep, if_pos ⟨follows c rfl, rfl⟩]
      · have goesOn : ¬ (quote = none ∧ '/' = '/' ∧ depth = 0) := fun all => ends ⟨all.1, all.2.2⟩
        obtain ⟨deeper, opened, kept⟩ := exists_cutStep_cons goesOn
        rw [List.nil_append, kept] at closed
        cases closed
  | cons c text ih =>
      by_cases ends : quote = none ∧ c = '/' ∧ depth = 0
      · obtain ⟨rfl, outside⟩ := ends
        rw [List.cons_append, cutStep, if_pos outside] at closed
        cases closed
      · obtain ⟨deeper, opened, kept⟩ := exists_cutStep_cons ends
        rw [List.cons_append, kept] at closed ⊢
        obtain ⟨first, second⟩ := Prod.ext_iff.mp closed
        rw [ih (Prod.ext (List.cons.inj first).2 second)]

namespace IsSegment

variable {text : List Char} (segment : IsSegment text)
include segment

theorem head_ne_slash {c : Char} (first : text.head? = some c) : c ≠ '/' := by
  rintro rfl
  obtain ⟨rest, rfl⟩ := List.head?_eq_some_iff.mp first
  have closed := segment.closed
  rw [List.cons_append, cutStep, if_pos ⟨rfl, rfl⟩] at closed
  cases closed

theorem takeAxis_append (rest : List Char) :
    takeAxis (text ++ rest) = (.child, text ++ rest) ∧ (text ++ rest).isEmpty = false := by
  obtain ⟨first, further, rfl⟩ := List.exists_cons_of_ne_nil segment.proper
  refine ⟨?_, rfl⟩
  rw [List.cons_append, takeAxis]
  intro _ same
  exact segment.head_ne_slash rfl (List.cons.inj same).1

end IsSegment

/-! ### Paths -/

def Axis.chars : Axis → List Char
  | .child => ['/']
  | .descendant => ['/', '/']

/-- A step as it is written: its axis, and the text between the slashes. -/
abbrev Segment := Axis × List Char

def segmentsChars (segments : List Segment) : List Char :=
  segments.flatMap fun segment => segment.1.chars ++ segment.2

/-- How a path is written, whether it is taken from the document or from an element. -/
inductive PathText : (absolute : Bool) → List Segment → List Char → Prop
  | absolute {segments : List Segment} :
      segments ≠ [] → PathText true segments (segmentsChars segments)
  | relative {text : List Char} {segments : List Segment} :
      PathText false ((.child, text) :: segments) (text ++ segmentsChars segments)

def Segment.read (segment : Segment) : Except Fault Step := readStep segment.1 segment.2

/-- A segment is accepted as a step wherever it stands. -/
structure Segment.Spells (segment : Segment) (step : Step) : Prop where
  isSegment : IsSegment segment.2
  read : segment.read = .ok step

theorem segmentsChars_cons (axis : Axis) (text : List Char) (rest : List Segment) :
    segmentsChars ((axis, text) :: rest) = axis.chars ++ (text ++ segmentsChars rest) := by
  rw [segmentsChars, List.flatMap_cons, List.append_assoc]
  rfl

theorem head?_segmentsChars {segments : List Segment} {c : Char}
    (first : (segmentsChars segments).head? = some c) : c = '/' := by
  cases segments with
  | nil => cases first
  | cons segment rest =>
      obtain ⟨axis, text⟩ := segment
      rw [segmentsChars_cons] at first
      cases axis <;> exact (Option.some.inj first).symm

theorem IsSegment.takeAxis_segment {text : List Char} (segment : IsSegment text) (axis : Axis)
    (rest : List Char) :
    ∃ after, axis.chars ++ (text ++ rest) = '/' :: after ∧
      takeAxis after = (axis, text ++ rest) ∧ (text ++ rest).isEmpty = false := by
  obtain ⟨taken, some⟩ := segment.takeAxis_append rest
  cases axis with
  | child => exact ⟨text ++ rest, rfl, taken, some⟩
  | descendant => exact ⟨'/' :: (text ++ rest), rfl, rfl, some⟩

theorem readSteps_segments {axis : Axis} {text : List Char} {rest : List Segment}
    (here : IsSegment text) (later : ∀ segment ∈ rest, IsSegment segment.2) :
    readSteps axis (text ++ segmentsChars rest) =
      (((axis, text) :: rest : List Segment)).mapM Segment.read := by
  induction rest generalizing axis text with
  | nil =>
      have cut := cutStep_of_closed here.closed (segmentsChars []) nofun
      rw [readSteps, cut]
      rfl
  | cons next rest ih =>
      obtain ⟨nextAxis, nextText⟩ := next
      obtain ⟨nextHere, nextLater⟩ := List.forall_mem_cons.mp later
      have cut := cutStep_of_closed here.closed (segmentsChars ((nextAxis, nextText) :: rest))
        fun c first => head?_segmentsChars first
      obtain ⟨after, whole, taken, some⟩ :=
        nextHere.takeAxis_segment nextAxis (segmentsChars rest)
      rw [segmentsChars_cons, whole] at cut
      rw [segmentsChars_cons, whole, readSteps, cut, List.mapM_cons, ← ih nextHere nextLater]
      show (do
        let step ← readStep axis text
        if (takeAxis after).2.isEmpty then Except.error Fault.trailingSlash
        else do
          let steps ← readSteps (takeAxis after).1 (takeAxis after).2
          return step :: steps) = _
      rw [taken, some]
      rfl

theorem read_of_pathText {absolute : Bool} {segments : List Segment} {text : List Char}
    (written : PathText absolute segments text) (all : ∀ segment ∈ segments, IsSegment segment.2) :
    read text = (segments.mapM Segment.read).map (⟨absolute, ·⟩) := by
  cases written with
  | absolute some =>
      obtain ⟨⟨axis, first⟩, rest, rfl⟩ := List.exists_cons_of_ne_nil some
      obtain ⟨here, later⟩ := List.forall_mem_cons.mp all
      obtain ⟨after, whole, taken, proper⟩ :=
        here.takeAxis_segment axis (segmentsChars rest)
      rw [segmentsChars_cons, whole, read, taken, proper, ← readSteps_segments here later]
      rfl
  | @relative first rest =>
      obtain ⟨here, later⟩ := List.forall_mem_cons.mp all
      rw [← readSteps_segments here later]
      have noSlash := fun c => here.head_ne_slash (c := c)
      obtain ⟨start, further, rfl⟩ := List.exists_cons_of_ne_nil here.proper
      rw [List.cons_append, read]
      · exact List.cons_ne_nil _ _
      · intro _ same
        exact noSlash start rfl (List.cons.inj same).1

/-- A path is read segment by segment, any blanks at its ends apart. -/
theorem parse_segments {absolute : Bool} {segments : List Segment} {text : String}
    (written : PathText absolute segments (Text.trim Text.isBlank text.toList))
    (all : ∀ segment ∈ segments, IsSegment segment.2) :
    parse text =
      match segments.mapM Segment.read with
      | .ok steps => .ok ⟨absolute, steps⟩
      | .error fault => .error (.invalidSelector text fault.detail) := by
  rw [parse, read_of_pathText written all]
  cases segments.mapM Segment.read <;> rfl

theorem mapM_read_of_spells {segments : List Segment} {steps : List Step}
    (spelled : List.Forall₂ Segment.Spells segments steps) :
    segments.mapM Segment.read = .ok steps := by
  induction spelled with
  | nil => rfl
  | cons here _ ih =>
      rw [List.mapM_cons, here.read, ih]
      rfl

theorem isSegment_of_spells {segments : List Segment} {steps : List Step}
    (spelled : List.Forall₂ Segment.Spells segments steps) :
    ∀ segment ∈ segments, IsSegment segment.2 := by
  induction spelled with
  | nil => exact nofun
  | cons here _ ih => exact List.forall_mem_cons.mpr ⟨here.isSegment, ih⟩

theorem parse_of_spells {absolute : Bool} {segments : List Segment} {text : String}
    {steps : List Step}
    (written : PathText absolute segments (Text.trim Text.isBlank text.toList))
    (spelled : List.Forall₂ Segment.Spells segments steps) :
    parse text = .ok ⟨absolute, steps⟩ := by
  rw [parse_segments written (isSegment_of_spells spelled), mapM_read_of_spells spelled]

/-! ### Segments that begin with a name -/

section Names

variable {name : List Char} (named : Xml.isName name = true)
include named

theorem isSegment_name : IsSegment name := by
  obtain ⟨first, rest, rfl, _⟩ := Xml.exists_cons_of_isName named
  refine ⟨List.cons_ne_nil _ _, ?_⟩
  rw [cutStep_append (unmarked_of_name named), cutStep, if_pos ⟨rfl, rfl⟩, List.append_nil]

/-- A filter behind a name belongs to its segment, whatever stands in it, as long as the bracket
behind it is the one that closes. -/
theorem isSegment_filter {content : List Char}
    (kept : ∀ rest, cutStep 1 none (content ++ rest) =
      (content ++ (cutStep 1 none rest).1, (cutStep 1 none rest).2)) :
    IsSegment (name ++ '[' :: (content ++ [']'])) := by
  have closing : cutStep 1 none [']', '/'] = ([']'], ['/']) := by decide
  have opening : cutStep 0 none ('[' :: (content ++ [']', '/'])) =
      ('[' :: (content ++ [']']), ['/']) := by
    rw [cutStep, if_neg (by decide), if_neg (by decide), if_pos rfl, kept, closing]
  have whole : name ++ '[' :: (content ++ [']']) ++ ['/'] =
      name ++ '[' :: (content ++ [']', '/']) := by simp
  refine ⟨by simp, ?_⟩
  rw [whole, cutStep_append (unmarked_of_name named), opening]

theorem readTest_name : readTest name = .ok (.element (some (String.ofList name))) := by
  have absent {c : Char} (outside : NTriples.isLabelChar c = false) : c ∉ name :=
    Xml.not_mem_name named outside
  obtain ⟨first, rest, whole, starts⟩ := Xml.exists_cons_of_isName named
  have noDot : first ≠ '.' := by
    intro same
    rw [same] at starts
    exact absurd starts (by decide)
  have plain : ¬ (name.any fun c => c == '(' || c == ')' || c == '=' || c == ' ') = true := by
    intro any
    obtain ⟨c, member, mark⟩ := List.any_eq_true.mp any
    simp only [Bool.or_eq_true, beq_iff_eq] at mark
    rcases mark with ((rfl | rfl) | rfl) | rfl
    all_goals exact absent (by decide) member
  unfold readTest
  split
  · cases named
  · exact absurd (List.cons.inj whole).1.symm noDot
  · exact absurd (List.cons.inj whole).1.symm noDot
  · exact absurd List.mem_cons_self (absent (c := '*') (by decide))
  · exact absurd List.mem_cons_self (absent (c := '@') (by decide))
  · exact absurd List.mem_cons_self (absent (c := '@') (by decide))
  · rw [if_neg plain, if_neg]
    intro same
    exact absent (c := '(') (by decide) (same ▸ by decide)

theorem readStep_name (axis : Axis) (rest : List Char)
    (follows : ∀ c, rest.head? = some c → c = '[') :
    readStep axis (name ++ rest) =
      (readFilters rest).map (⟨axis, .element (some (String.ofList name)), ·⟩) := by
  have noBracket : ∀ c ∈ name, (c != '[') = true := by
    intro c member
    have apart : c ≠ '[' := fun same => Xml.not_mem_name named (by decide) (same ▸ member)
    exact bne_iff_ne.mpr apart
  have stops : ∀ c, rest.head? = some c → (c != '[') = false := by
    intro c first
    rw [follows c first]
    rfl
  obtain ⟨taken, left⟩ := Text.span_of_stop noBracket stops
  rw [readStep, taken, left, readTest_name named]
  cases readFilters rest <;> rfl

end Names

/-! ### Filters -/

/-- A filter ends at the first closing bracket. -/
theorem readFilters_append {content : List Char} (unclosed : ']' ∉ content) (after : List Char) :
    readFilters ('[' :: (content ++ ']' :: after)) = (do
      let filter ← readFilter (Text.trim Text.isBlank content)
      let filters ← readFilters after
      return filter :: filters) := by
  have cut := Text.cutAt?_mark unclosed after
  rw [readFilters]
  split
  · next none =>
      rw [cut] at none
      cases none
  · next found =>
      rw [cut] at found
      cases found
      rfl

end XPath

end RdfMapping
