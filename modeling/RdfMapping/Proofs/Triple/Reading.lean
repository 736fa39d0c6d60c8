import RdfMapping.Proofs.Triple.Grammar
/-!
No line of N-Triples can be read in two ways. Every token is told from what follows it: by
a closing mark, or by a character that cannot stand in the token.
-/

namespace RdfMapping.NTriples

/-! ### Quoted texts -/

namespace Quoting

variable {quoting : Quoting}

theorem Escape.length_pos {text : List Char} {c : Char} (escape : quoting.Escape text c) :
    0 < text.length := by
  cases escape with
  | named known => exact Nat.one_pos
  | short length number => exact Nat.succ_pos _
  | long length number => exact Nat.succ_pos _

theorem Escape.unique {first second rest other : List Char} {c d : Char}
    (one : quoting.Escape first c) (two : quoting.Escape second d)
    (same : first ++ rest = second ++ other) : c = d ∧ rest = other := by
  -- escapes by number have a fixed length, and no name begins as they do
  have byNumber {digits others : List Char} {c d : Char} (length : digits.length = others.length)
      (number : hexNumber? digits = some c.toNat) (another : hexNumber? others = some d.toNat)
      (equal : digits ++ rest = others ++ other) : c = d ∧ rest = other := by
    obtain ⟨sameDigits, sameRest⟩ := List.append_inj equal length
    rw [sameDigits, another] at number
    exact ⟨Char.toNat_inj.mp (Option.some.inj number).symm, sameRest⟩
  cases one with
  | named known =>
      cases two with
      | named also =>
          obtain ⟨sameName, sameRest⟩ := List.cons.inj same
          rw [sameName, also] at known
          exact ⟨(Option.some.inj known).symm, sameRest⟩
      | short length number =>
          rw [(List.cons.inj same).1, quoting.unnamed.1] at known
          cases known
      | long length number =>
          rw [(List.cons.inj same).1, quoting.unnamed.2] at known
          cases known
  | short length number =>
      cases two with
      | named also =>
          rw [← (List.cons.inj same).1, quoting.unnamed.1] at also
          cases also
      | short also another =>
          exact byNumber (length.trans also.symm) number another (List.cons.inj same).2
      | long also another => exact absurd (List.cons.inj same).1 (by decide)
  | long length number =>
      cases two with
      | named also =>
          rw [← (List.cons.inj same).1, quoting.unnamed.2] at also
          cases also
      | short also another => exact absurd (List.cons.inj same).1 (by decide)
      | long also another =>
          exact byNumber (length.trans also.symm) number another (List.cons.inj same).2

theorem Writes.unique {first second rest other : List Char} {c d : Char}
    (one : quoting.Writes first c) (two : quoting.Writes second d)
    (same : first ++ rest = second ++ other) : c = d ∧ rest = other := by
  cases one with
  | plain isPlain =>
      cases two with
      | plain also => exact List.cons.inj same
      | escaped escape =>
          rw [(List.cons.inj same).1, quoting.backslash] at isPlain
          cases isPlain
  | escaped escape =>
      cases two with
      | plain also =>
          rw [← (List.cons.inj same).1, quoting.backslash] at also
          cases also
      | escaped another => exact escape.unique another (List.cons.inj same).2

theorem Writes.ne_closing {text rest other : List Char} {c : Char}
    (writes : quoting.Writes text c) : text ++ rest ≠ quoting.closing :: other := by
  intro same
  cases writes with
  | plain isPlain =>
      rw [(List.cons.inj same).1, quoting.unquoted] at isPlain
      cases isPlain
  | escaped escape => exact quoting.apart (List.cons.inj same).1

theorem Body.unique {first second value another rest other : List Char}
    (one : quoting.Body first value) (two : quoting.Body second another)
    (same : first ++ quoting.closing :: rest = second ++ quoting.closing :: other) :
    value = another ∧ rest = other := by
  induction one generalizing second another with
  | nil =>
      cases two with
      | nil => exact ⟨rfl, (List.cons.inj same).2⟩
      | cons writes later =>
          rw [List.append_assoc] at same
          exact absurd same.symm writes.ne_closing
  | cons writes later ih =>
      cases two with
      | nil =>
          rw [List.append_assoc] at same
          exact absurd same writes.ne_closing
      | cons also more =>
          rw [List.append_assoc, List.append_assoc] at same
          obtain ⟨sameChar, sameRest⟩ := writes.unique also same
          obtain ⟨sameValue, sameEnd⟩ := ih more sameRest
          exact ⟨by rw [sameChar, sameValue], sameEnd⟩

theorem body_of_plain {value : List Char} (plain : ∀ c ∈ value, quoting.plain c = true) :
    quoting.Body value value := by
  induction value with
  | nil => exact Body.nil
  | cons c rest ih =>
      obtain ⟨first, later⟩ := List.forall_mem_cons.mp plain
      exact Body.cons (Writes.plain first) (ih later)

/-- A body without an escape is its value; escapes make it longer. -/
theorem Body.length {text value : List Char} (body : quoting.Body text value) :
    value.length ≤ text.length ∧
      (text.length ≤ value.length → text = value ∧ ∀ c ∈ value, quoting.plain c = true) := by
  induction body with
  | nil => exact ⟨Nat.le_refl _, fun _ => ⟨rfl, nofun⟩⟩
  | @cons text rest value c writes later ih =>
      obtain ⟨bound, equal⟩ := ih
      rw [List.length_append, List.length_cons]
      cases writes with
      | plain isPlain =>
          rw [List.length_singleton]
          refine ⟨by omega, ?_⟩
          intro short
          obtain ⟨same, plain⟩ := equal (by omega)
          exact ⟨congrArg (c :: ·) same, List.forall_mem_cons.mpr ⟨isPlain, plain⟩⟩
      | escaped escape =>
          have some := escape.length_pos
          rw [List.length_cons]
          exact ⟨by omega, fun short => by omega⟩

end Quoting

theorem hexDigits_of_number {digits : List Char} {number start : Nat}
    (given : digits.foldlM (fun number digit => (Json.hexValue? digit).map (number * 16 + ·))
      start = some number) : ∀ digit ∈ digits, (Json.hexValue? digit).isSome = true := by
  induction digits generalizing start with
  | nil => nofun
  | cons digit rest ih =>
      rw [List.foldlM_cons] at given
      cases value : Json.hexValue? digit with
      | none =>
          rw [value] at given
          cases given
      | some n =>
          rw [value] at given
          exact List.forall_mem_cons.mpr ⟨by rw [value]; rfl, ih given⟩

/-- No angle bracket stands inside an IRI. -/
theorem closing_not_mem_iriBody {text value : List Char} (body : iriQuoting.Body text value) :
    '>' ∉ text := by
  have digits {text : List Char} {c : Char} (number : hexNumber? text = some c.toNat) :
      '>' ∉ text := by
    intro member
    have value := hexDigits_of_number number '>' member
    cases value
  induction body with
  | nil => exact List.not_mem_nil
  | cons writes later ih =>
      rw [List.mem_append, not_or]
      refine ⟨?_, ih⟩
      intro member
      cases writes with
      | plain isPlain =>
          rw [← List.mem_singleton.mp member] at isPlain
          cases isPlain
      | escaped escape =>
          have member := (List.mem_cons.mp member).resolve_left (by decide)
          cases escape with
          | named known => cases known
          | short length number =>
              exact digits number ((List.mem_cons.mp member).resolve_left (by decide))
          | long length number =>
              exact digits number ((List.mem_cons.mp member).resolve_left (by decide))

/-- A value that is written as it is can be read back only if it has no character that
must not stand for itself. -/
theorem plain_of_iriBody {text value rest other : List Char}
    (body : iriQuoting.Body text value) (same : text ++ '>' :: rest = value ++ '>' :: other) :
    (∀ c ∈ value, isIriChar c = true) ∧ rest = other := by
  obtain ⟨bound, equal⟩ := body.length
  -- the value has no room for more than the text, and the text none for the closing mark
  rcases List.append_eq_append_iff.mp same with
    ⟨more, sameValue, sameRest⟩ | ⟨more, sameText, sameRest⟩
  · rw [sameValue, List.length_append] at bound
    have none := List.eq_nil_of_length_eq_zero (by omega : more.length = 0)
    rw [none, List.append_nil] at sameValue
    rw [none] at sameRest
    have length := Nat.le_of_eq (congrArg List.length sameValue.symm)
    exact ⟨(equal length).2, (List.cons.inj sameRest).2⟩
  · cases more with
    | nil =>
        rw [List.append_nil] at sameText
        have length := Nat.le_of_eq (congrArg List.length sameText)
        exact ⟨(equal length).2, (List.cons.inj sameRest).2.symm⟩
    | cons first later =>
        apply absurd _ (closing_not_mem_iriBody body)
        rw [sameText, ← (List.cons.inj sameRest).1]
        exact List.mem_append_right _ List.mem_cons_self

theorem mem_splitOnP {isSeparator : Char → Bool} {c : Char} {text : List Char} (member : c ∈ text)
    (kept : isSeparator c = false) : ∃ piece ∈ text.splitOnP isSeparator, c ∈ piece := by
  induction text with
  | nil => cases member
  | cons first rest ih =>
      rw [List.splitOnP_cons_eq_if_modifyHead]
      by_cases separates : isSeparator first = true
      · rw [if_pos separates]
        rcases List.mem_cons.mp member with here | later
        · rw [here, separates] at kept
          cases kept
        · obtain ⟨piece, pieceMember, inPiece⟩ := ih later
          exact ⟨piece, List.mem_cons_of_mem _ pieceMember, inPiece⟩
      · rw [if_neg separates]
        cases pieces : rest.splitOnP isSeparator with
        | nil => exact absurd pieces (List.splitOnP_ne_nil _ _)
        | cons head others =>
            rw [List.modifyHead_cons]
            rcases List.mem_cons.mp member with here | later
            · exact ⟨_, List.mem_cons_self, by rw [here]; exact List.mem_cons_self⟩
            · obtain ⟨piece, pieceMember, inPiece⟩ := ih later
              rw [pieces] at pieceMember
              rcases List.mem_cons.mp pieceMember with inHead | another
              · rw [inHead] at inPiece
                exact ⟨_, List.mem_cons_self, List.mem_cons_of_mem _ inPiece⟩
              · exact ⟨piece, List.mem_cons_of_mem _ another, inPiece⟩

/-! ### One reading at most -/

/-- Texts of a kind are told from what follows them. -/
def Unique {α : Type} (reads : List Char → α → Prop) (follows : List Char → Prop) : Prop :=
  ∀ first second value other rest more, reads first value → reads second other →
    follows rest → follows more → first ++ rest = second ++ more → value = other ∧ rest = more

theorem IriText.starts {text : List Char} {iri : String} (given : IriText text iri) :
    ∃ c rest, text = c :: rest ∧ isBlank c = false := by
  obtain ⟨body⟩ := given
  exact ⟨_, _, rfl, rfl⟩

theorem ResourceText.starts {text : List Char} {term : Term} (given : ResourceText text term) :
    ∃ c rest, text = c :: rest ∧ isBlank c = false ∧ c ≠ '"' := by
  cases given with
  | iri given =>
      obtain ⟨body⟩ := given
      exact ⟨_, _, rfl, rfl, by decide⟩
  | blank isLabel => exact ⟨_, _, rfl, rfl, by decide⟩

theorem ResourceText.visible {text : List Char} {term : Term} (given : ResourceText text term) :
    ∃ c rest, text = c :: rest ∧ isBlank c = false := by
  obtain ⟨c, rest, same, visible, _⟩ := given.starts
  exact ⟨c, rest, same, visible⟩

theorem ObjectText.visible {text : List Char} {term : Term} (given : ObjectText text term) :
    ∃ c rest, text = c :: rest ∧ isBlank c = false := by
  cases given with
  | resource given => exact given.visible
  | literal body suffix => exact ⟨_, _, rfl, rfl⟩

theorem run_unique {isOfClass : Char → Bool} {first second rest more : List Char} {c d : Char}
    (one : ∀ c ∈ first, isOfClass c = true) (two : ∀ c ∈ second, isOfClass c = true)
    (ends : isOfClass c = false) (also : isOfClass d = false)
    (same : first ++ c :: rest = second ++ d :: more) :
    first = second ∧ c = d ∧ rest = more := by
  have taken := congrArg (List.takeWhile isOfClass) same
  have dropped := congrArg (List.dropWhile isOfClass) same
  rw [List.takeWhile_append_of_pos one, List.takeWhile_append_of_pos two,
    List.takeWhile_cons_of_neg (by simp [ends]), List.takeWhile_cons_of_neg (by simp [also]),
    List.append_nil, List.append_nil] at taken
  rw [List.dropWhile_append_of_pos one, List.dropWhile_append_of_pos two,
    List.dropWhile_cons_of_neg (by simp [ends]),
    List.dropWhile_cons_of_neg (by simp [also])] at dropped
  exact ⟨taken, List.cons.inj dropped⟩

theorem Unique.spaced {α : Type} {reads : List Char → α → Prop} {follows : List Char → Prop}
    (unique : Unique reads follows)
    (visible : ∀ text value, reads text value → ∃ c rest, text = c :: rest ∧ isBlank c = false) :
    Unique (Spaced reads) follows := by
  intro first second value other rest more one two follow another same
  obtain ⟨blanks, token, spaced, given, rfl⟩ := one
  obtain ⟨others, symbol, also, found, rfl⟩ := two
  obtain ⟨c, tail, rfl, shown⟩ := visible token value given
  obtain ⟨d, last, rfl, seen⟩ := visible symbol other found
  rw [List.append_assoc, List.append_assoc] at same
  obtain ⟨_, sameFirst, sameRest⟩ := run_unique spaced also shown seen same
  refine unique _ _ _ _ _ _ given found follow another ?_
  rw [sameFirst]
  exact congrArg (d :: ·) sameRest

theorem iriText_unique (follows : List Char → Prop) : Unique IriText follows := by
  intro first second value other rest more one two _ _ same
  obtain ⟨body⟩ := one
  obtain ⟨another⟩ := two
  rw [List.cons_append, List.cons_append, List.append_assoc, List.append_assoc] at same
  obtain ⟨sameValue, sameRest⟩ := body.unique another (List.cons.inj same).2
  exact ⟨String.toList_inj.mp sameValue, sameRest⟩

/-- No label goes on with what follows it. -/
def LabelEnds (text : List Char) : Prop :=
  ∀ c rest, text = c :: rest → isNameChar c = false ∧
    (c = '.' → ∀ d more, rest = d :: more → isLabelChar d = false)

theorem label_not_longer {label more rest : List Char} (some : label ≠ [])
    (longer : isLabel (label ++ more) = true) (ends : LabelEnds (more ++ rest)) : more = [] := by
  cases label with
  | nil => exact absurd rfl some
  | cons first tail =>
      cases more with
      | nil => rfl
      | cons c others =>
          simp only [isLabel, List.cons_append, Bool.and_eq_true, List.all_append, List.all_cons,
            bne_iff_ne] at longer
          obtain ⟨⟨_, _, labelChar, labelChars⟩, last⟩ := longer
          obtain ⟨unnamed, stops⟩ := ends c (others ++ rest) rfl
          have fullStop : c = '.' := by
            unfold isLabelChar at labelChar
            rw [unnamed] at labelChar
            exact beq_iff_eq.mp labelChar
          cases others with
          | nil =>
              rw [fullStop, List.getLast?_concat] at last
              exact absurd rfl last
          | cons d later =>
              have further := stops fullStop d (later ++ rest) rfl
              rw [List.all_cons, further] at labelChars
              cases labelChars

theorem label_unique {first second rest more : List Char} (one : isLabel first = true)
    (two : isLabel second = true) (ends : LabelEnds rest) (also : LabelEnds more)
    (same : first ++ rest = second ++ more) : first = second ∧ rest = more := by
  have some {label : List Char} (isLabel : isLabel label = true) : label ≠ [] := by
    intro none
    rw [none] at isLabel
    cases isLabel
  rcases List.append_eq_append_iff.mp same with ⟨longer, split, after⟩ | ⟨longer, split, after⟩
  · rw [split] at two
    rw [after] at ends
    have none := label_not_longer (some one) two ends
    rw [none, List.append_nil] at split
    rw [none] at after
    exact ⟨split.symm, after⟩
  · rw [split] at one
    rw [after] at also
    have none := label_not_longer (some two) one also
    rw [none, List.append_nil] at split
    rw [none] at after
    exact ⟨split, after.symm⟩

theorem resourceText_unique : Unique ResourceText LabelEnds := by
  intro first second value other rest more one two ends also same
  cases one with
  | iri given =>
      cases two with
      | iri found =>
          obtain ⟨sameValue, sameRest⟩ :=
            iriText_unique LabelEnds _ _ _ _ _ _ given found ends also same
          exact ⟨congrArg Term.iri sameValue, sameRest⟩
      | blank isLabel =>
          obtain ⟨body⟩ := given
          exact absurd (List.cons.inj same).1 (by decide)
  | blank isLabel =>
      cases two with
      | iri found =>
          obtain ⟨body⟩ := found
          exact absurd (List.cons.inj same).1 (by decide)
      | blank isOther =>
          obtain ⟨sameLabel, sameRest⟩ := label_unique isLabel isOther ends also
            (List.cons.inj (List.cons.inj same).2).2
          exact ⟨congrArg Term.blank (String.toList_inj.mp sameLabel), sameRest⟩

/-! ### Literals -/

def isTagChar (c : Char) : Bool := c.isAlphanum || c == '-'

theorem isTagChar_of_mem {tag : List Char} (given : isTag tag = true) :
    ∀ c ∈ tag, isTagChar c = true := by
  intro c member
  unfold isTagChar
  rw [Bool.or_eq_true]
  by_cases hyphen : (c == '-') = true
  · exact Or.inr hyphen
  · have kept : (c == '-') = false := Bool.eq_false_iff.mpr hyphen
    have split : ∃ piece ∈ tag.splitOn '-', c ∈ piece := mem_splitOnP member kept
    obtain ⟨piece, pieceMember, inPiece⟩ := split
    unfold isTag at given
    cases pieces : tag.splitOn '-' with
    | nil =>
        rw [pieces] at pieceMember
        cases pieceMember
    | cons first rest =>
        simp only [pieces, isSubtag, Bool.and_eq_true, List.all_eq_true] at given
        obtain ⟨⟨_, letters⟩, others⟩ := given
        rw [pieces] at pieceMember
        rcases List.mem_cons.mp pieceMember with here | later
        · rw [here] at inPiece
          have letter := letters c inPiece
          unfold Char.isAlphanum
          rw [letter]
          exact Or.inl rfl
        · exact Or.inl ((others piece later).2 c inPiece)

/-- What follows an object begins with a blank, or with the full stop. -/
theorem EndText.starts {text : List Char} (ending : EndText text) :
    ∃ blanks rest, Blanks blanks ∧ text = blanks ++ '.' :: rest := by
  obtain ⟨before, after, comment, spaced, _, _, same⟩ := ending
  exact ⟨before, after ++ comment, spaced, same⟩

theorem EndText.head {text : List Char} (ending : EndText text) :
    ∃ c rest, text = c :: rest ∧ (isBlank c = true ∨ c = '.') := by
  obtain ⟨blanks, rest, spaced, same⟩ := ending.starts
  cases blanks with
  | nil => exact ⟨'.', rest, same, Or.inr rfl⟩
  | cons c others => exact ⟨c, _, same, Or.inl (spaced c List.mem_cons_self)⟩

theorem EndText.not_tagChar {c : Char} (starts : isBlank c = true ∨ c = '.') :
    isTagChar c = false := by
  unfold isBlank at starts
  rw [Bool.or_eq_true, beq_iff_eq, beq_iff_eq] at starts
  rcases starts with (space | tab) | fullStop
  · rw [space]
    rfl
  · rw [tab]
    rfl
  · rw [fullStop]
    rfl

theorem isLabelChar_of_blank {c : Char} (blank : isBlank c = true) : isLabelChar c = false := by
  unfold isBlank at blank
  rw [Bool.or_eq_true, beq_iff_eq, beq_iff_eq] at blank
  rcases blank with space | tab
  · rw [space]
    decide
  · rw [tab]
    decide

theorem isNameChar_of_blank {c : Char} (blank : isBlank c = true) : isNameChar c = false :=
  (Bool.or_eq_false_iff.mp (isLabelChar_of_blank blank)).1

theorem labelEnds_of_blank {c : Char} (blank : isBlank c = true) (rest : List Char) :
    LabelEnds (c :: rest) := by
  intro d tail split
  rw [← (List.cons.inj split).1]
  refine ⟨isNameChar_of_blank blank, ?_⟩
  intro fullStop
  rw [fullStop] at blank
  cases blank

theorem EndText.labelEnds {text : List Char} (ending : EndText text) : LabelEnds text := by
  obtain ⟨before, after, comment, spaced, alsoSpaced, isComment, same⟩ := ending
  rw [same]
  cases before with
  | nil =>
      intro c rest split
      obtain ⟨fullStop, sameRest⟩ := List.cons.inj split
      rw [← fullStop]
      refine ⟨by decide, ?_⟩
      intro _ d more next
      rw [← sameRest] at next
      cases after with
      | nil =>
          rcases isComment with none | mark
          · rw [none] at next
            cases next
          · rw [List.nil_append] at next
            rw [next] at mark
            rw [Option.some.inj mark]
            decide
      | cons blank others =>
          rw [← (List.cons.inj next).1]
          exact isLabelChar_of_blank (alsoSpaced blank List.mem_cons_self)
  | cons blank others => exact labelEnds_of_blank (spaced blank List.mem_cons_self) _

/-- What follows a subject is a predicate, with blanks in front of it or without. -/
theorem labelEnds_predicate {text : List Char} {iri : String} (given : Spaced IriText text iri)
    (rest : List Char) : LabelEnds (text ++ rest) := by
  obtain ⟨blanks, token, spaced, ⟨body⟩, same⟩ := given
  rw [same]
  cases blanks with
  | nil =>
      intro c tail split
      rw [← (List.cons.inj split).1]
      exact ⟨by decide, fun fullStop => absurd fullStop (by decide)⟩
  | cons blank others => exact labelEnds_of_blank (spaced blank List.mem_cons_self) _

theorem suffixText_unique (value : String) : Unique (SuffixText value) EndText := by
  intro first second term other rest more one two ends also same
  -- the first visible character tells the three kinds apart
  obtain ⟨blanks, tail, spaced, sameRest⟩ := ends.starts
  obtain ⟨others, last, alsoSpaced, sameMore⟩ := also.starts
  cases one with
  | none =>
      cases two with
      | none => exact ⟨rfl, same⟩
      | typed gap given =>
          rw [sameRest, List.append_assoc] at same
          exact absurd (run_unique spaced gap rfl rfl same).2.1 (by decide)
      | inLanguage gap isTag =>
          rw [sameRest, List.append_assoc] at same
          exact absurd (run_unique spaced gap rfl rfl same).2.1 (by decide)
  | typed before given =>
      rw [List.append_assoc] at same
      cases two with
      | none =>
          rw [sameMore] at same
          exact absurd (run_unique before alsoSpaced rfl rfl same).2.1 (by decide)
      | typed gap found =>
          rw [List.append_assoc] at same
          obtain ⟨_, _, inner⟩ := run_unique before gap rfl rfl same
          obtain ⟨sameDatatype, sameEnd⟩ :=
            (iriText_unique EndText).spaced (fun _ _ => IriText.starts) _ _ _ _ _ _ given found
              ends also (List.cons.inj inner).2
          exact ⟨by rw [sameDatatype], sameEnd⟩
      | inLanguage gap isTag =>
          rw [List.append_assoc] at same
          exact absurd (run_unique before gap rfl rfl same).2.1 (by decide)
  | inLanguage before isTag =>
      rw [List.append_assoc] at same
      cases two with
      | none =>
          rw [sameMore] at same
          exact absurd (run_unique before alsoSpaced rfl rfl same).2.1 (by decide)
      | typed gap given =>
          rw [List.append_assoc] at same
          exact absurd (run_unique before gap rfl rfl same).2.1 (by decide)
      | inLanguage gap isOther =>
          rw [List.append_assoc] at same
          obtain ⟨_, _, inner⟩ := run_unique before gap rfl rfl same
          obtain ⟨c, afterTag, startsRest, stops⟩ := ends.head
          obtain ⟨d, afterOther, startsMore, halts⟩ := also.head
          rw [startsRest, startsMore] at inner ⊢
          obtain ⟨sameTag, sameEnd⟩ := run_unique (isTagChar_of_mem isTag)
            (isTagChar_of_mem isOther) (EndText.not_tagChar stops) (EndText.not_tagChar halts) inner
          exact ⟨by rw [String.toList_inj.mp sameTag], by rw [sameEnd.1, sameEnd.2]⟩

theorem objectText_unique : Unique ObjectText EndText := by
  intro first second value other rest more one two ends also same
  cases one with
  | resource given =>
      cases two with
      | resource found =>
          exact resourceText_unique _ _ _ _ _ _ given found ends.labelEnds also.labelEnds same
      | literal body suffix =>
          obtain ⟨c, tail, rfl, _, unquoted⟩ := given.starts
          exact absurd (List.cons.inj same).1 unquoted
  | literal body suffix =>
      cases two with
      | resource found =>
          obtain ⟨c, tail, rfl, _, unquoted⟩ := found.starts
          exact absurd (List.cons.inj same).1.symm unquoted
      | literal another ending =>
          rw [List.cons_append, List.cons_append, List.append_assoc, List.append_assoc] at same
          obtain ⟨sameValue, sameRest⟩ := body.unique another (List.cons.inj same).2
          rw [String.toList_inj.mp sameValue] at suffix
          exact suffixText_unique _ _ _ _ _ _ _ suffix ending ends also sameRest

/-! ### Lines -/

theorem Line.unique {text : List Char} {first second : Triple} (one : Line text first)
    (two : Line text second) : first = second := by
  obtain ⟨subject, predicate, object, ending, iri, subjectText, predicateText, isIri, objectText,
    endText, same⟩ := one
  obtain ⟨subject', predicate', object', ending', iri', subjectText', predicateText', isIri',
    objectText', endText', same'⟩ := two
  rw [same] at same'
  obtain ⟨sameSubject, afterSubject⟩ := resourceText_unique.spaced
    (fun _ _ given => given.visible) _ _ _ _ _ _ subjectText subjectText'
    (labelEnds_predicate predicateText _) (labelEnds_predicate predicateText' _) same'
  obtain ⟨samePredicate, afterPredicate⟩ := (iriText_unique fun _ => True).spaced
    (fun _ _ => IriText.starts) _ _ _ _ _ _ predicateText predicateText' trivial trivial
    afterSubject
  obtain ⟨sameObject, _⟩ := objectText_unique.spaced (fun _ _ given => given.visible) _ _ _ _ _ _
    objectText objectText' endText endText' afterPredicate
  cases first
  cases second
  rw [← samePredicate] at isIri'
  rw [Triple.mk.injEq]
  exact ⟨sameSubject, isIri.trans isIri'.symm, sameObject⟩

end RdfMapping.NTriples
