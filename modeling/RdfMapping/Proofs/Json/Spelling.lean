import RdfMapping.Proofs.Json.ReadBack
/-!
How paths are written. A member stands behind a dot or in brackets and quotes, an element in
brackets, a descendant behind two dots; the root mark is `$` or `@`. A path that is written so
is read as its steps, whichever steps stand next to each other.
-/

namespace RdfMapping.JsonPath

/-! ### Spellings -/

/-- A name that can stand behind a dot. -/
structure IsBare (name : String) : Prop where
  proper : name ≠ ""
  noDot : '.' ∉ name.toList
  noBracket : '[' ∉ name.toList
  notWildcard : name ≠ "*"
  visibleEnd : ∀ c, name.toList.getLast? = some c → Text.isBlank c = false

/-- A step and a text by which it is written. -/
inductive StepText : JsonStep → List Char → Prop
  | dotted {name : String} : IsBare name → StepText (.field name) ('.' :: name.toList)
  | quoted {name : String} {mark : Char} : mark = '\'' ∨ mark = '"' → ']' ∉ name.toList →
      StepText (.field name) ('[' :: mark :: (name.toList ++ [mark, ']']))
  | index {position : Int} : -(Nat.pow 2 63 : Nat) ≤ position → position < (Nat.pow 2 63 : Nat) →
      StepText (.index position) ('[' :: ((toString position).toList ++ [']']))
  | dottedWildcard : StepText .wildcard ['.', '*']
  | bracketedWildcard : StepText .wildcard ['[', '*', ']']
  | descendant {name : String} : IsBare name →
      StepText (.descendant name) ('.' :: '.' :: name.toList)
  | descendantWildcard : StepText .descendantWildcard ['.', '.', '*']

inductive StepsText : List JsonStep → List Char → Prop
  | nil : StepsText [] []
  | cons {step : JsonStep} {text : List Char} {steps : List JsonStep} {rest : List Char} :
      StepText step text → StepsText steps rest → StepsText (step :: steps) (text ++ rest)

/-- A path and a text by which it is written. The root mark and the dot behind it may be left
out before a first name that begins with neither a root mark nor a blank. -/
inductive PathText : List JsonStep → List Char → Prop
  | rooted {mark : Char} {steps : List JsonStep} {text : List Char} : mark = '$' ∨ mark = '@' →
      StepsText steps text → PathText steps (mark :: text)
  | unrooted {name : String} {steps : List JsonStep} {text : List Char} : IsBare name →
      (∀ c, name.toList.head? = some c → c ≠ '$' ∧ c ≠ '@' ∧ Text.isBlank c = false) →
      StepsText steps text → PathText (.field name :: steps) (name.toList ++ text)

namespace IsBare

theorem of_plain {name : String} (plain : JsonKey.IsPlain name) : IsBare name := by
  refine ⟨?_, JsonLocation.not_mem_plain plain (by decide),
    JsonLocation.not_mem_plain plain (by decide), ?_, ?_⟩
  · rintro rfl
    exact plain.1 rfl
  · rintro rfl
    exact absurd plain (by decide)
  · intro c last
    exact JsonKey.isBlank_of_plain (plain.2 c (List.mem_of_getLast? last))

variable {name : String} (bare : IsBare name)
include bare

theorem toList_ne_nil : name.toList ≠ [] := by
  intro empty
  exact bare.proper (String.toList_eq_nil_iff.mp empty)

theorem named : ∀ c ∈ name.toList, isNameChar c = true :=
  isNameChar_of_not_mem bare.noDot bare.noBracket

theorem toList_ne_star : name.toList ≠ ['*'] := by
  intro star
  exact bare.notWildcard (String.toList_inj.mp star)

theorem nameStep_toList : nameStep name.toList = .field name := by
  rw [nameStep, if_neg bare.toList_ne_star, String.ofList_toList]

theorem descendantStep_toList : descendantStep name.toList = .descendant name := by
  rw [descendantStep, if_neg bare.toList_ne_star, String.ofList_toList]

end IsBare

/-! ### Both ends of a spelling -/

theorem StepText.ne_nil {step : JsonStep} {text : List Char} (written : StepText step text) :
    text ≠ [] := by
  cases written <;> exact List.cons_ne_nil _ _

theorem StepText.head {step : JsonStep} {text : List Char} (written : StepText step text) {c : Char}
    (first : text.head? = some c) : c = '.' ∨ c = '[' := by
  cases written with
  | dotted | dottedWildcard | descendant | descendantWildcard =>
      exact Or.inl (Option.some.inj first).symm
  | quoted | index | bracketedWildcard => exact Or.inr (Option.some.inj first).symm

theorem StepText.visible_getLast {step : JsonStep} {text : List Char}
    (written : StepText step text) {c : Char} (last : text.getLast? = some c) :
    Text.isBlank c = false := by
  have fixed (before : List Char) (final : Char) (visible : Text.isBlank final = false)
      (ends : (before ++ [final]).getLast? = some c) : Text.isBlank c = false := by
    rw [List.getLast?_concat] at ends
    rw [← Option.some.inj ends, visible]
  cases written with
  | @dotted name bare =>
      obtain ⟨first, further, whole⟩ := List.exists_cons_of_ne_nil bare.toList_ne_nil
      rw [whole, List.getLast?_cons_cons, ← whole] at last
      exact bare.visibleEnd c last
  | @quoted name mark =>
      exact fixed ('[' :: mark :: (name.toList ++ [mark])) ']' (by decide) (by simpa using last)
  | @index position =>
      exact fixed ('[' :: (toString position).toList) ']' (by decide) last
  | dottedWildcard => exact fixed ['.'] '*' (by decide) last
  | bracketedWildcard => exact fixed ['[', '*'] ']' (by decide) last
  | @descendant name bare =>
      obtain ⟨first, further, whole⟩ := List.exists_cons_of_ne_nil bare.toList_ne_nil
      rw [whole, List.getLast?_cons_cons, List.getLast?_cons_cons, ← whole] at last
      exact bare.visibleEnd c last
  | descendantWildcard => exact fixed ['.', '.'] '*' (by decide) last

namespace StepsText

variable {steps : List JsonStep} {text : List Char}

theorem head (written : StepsText steps text) {c : Char} (first : text.head? = some c) :
    isNameChar c = false := by
  cases written with
  | nil => cases first
  | @cons step text _ rest here _ =>
      obtain ⟨start, further, whole⟩ := List.exists_cons_of_ne_nil here.ne_nil
      rw [whole, List.cons_append] at first
      rcases here.head (c := c) (whole ▸ first) with rfl | rfl
      · rfl
      · rfl

theorem visible_getLast (written : StepsText steps text) {c : Char}
    (last : text.getLast? = some c) : Text.isBlank c = false := by
  induction written with
  | nil => cases last
  | @cons step text _ rest here _ ih =>
      rw [List.getLast?_append] at last
      cases ends : rest.getLast? with
      | some final =>
          rw [ends] at last
          exact ih (ends.trans last)
      | none =>
          rw [ends] at last
          exact here.visible_getLast last

end StepsText

/-! ### Reading -/

theorem isNameChar_star : ∀ c ∈ ['*'], isNameChar c = true := by
  intro c member
  rw [List.mem_singleton.mp member]
  rfl

theorem StepText.read {step : JsonStep} {text rest : List Char} (written : StepText step text)
    (follows : ∀ c, rest.head? = some c → isNameChar c = false) :
    readSteps (text ++ rest) = (readSteps rest).map (step :: ·) := by
  cases written with
  | dotted bare =>
      rw [List.cons_append, readSteps_dot bare.toList_ne_nil bare.named follows,
        bare.nameStep_toList]
  | @quoted name mark quote closed =>
      have outside : ']' ∉ mark :: (name.toList ++ [mark]) := by
        rcases quote with rfl | rfl
        · simpa using closed
        · simpa using closed
      have read := readSteps_bracket outside rest
      rw [bracketStep?_quoted quote, String.ofList_toList] at read
      simpa using read
  | @index position least bound =>
      have digits : ∀ c ∈ (toString position).toList, c = '-' ∨ c.isDigit = true :=
        fun _ member => Text.minus_or_isDigit_of_mem_toString member
      have outside : ']' ∉ (toString position).toList := by
        intro member
        rcases digits _ member with minus | digit
        · exact absurd minus (by decide)
        · exact absurd digit (by decide)
      have read := readSteps_bracket outside rest
      rw [bracketStep?_of_digits digits, Text.integer?_toString least bound] at read
      simpa using read
  | dottedWildcard => exact readSteps_dot (List.cons_ne_nil '*' []) isNameChar_star follows
  | bracketedWildcard => exact readSteps_bracket (by decide : ']' ∉ ['*']) rest
  | descendant bare =>
      rw [List.cons_append, List.cons_append,
        readSteps_dots bare.toList_ne_nil bare.named follows, bare.descendantStep_toList]
  | descendantWildcard => exact readSteps_dots (List.cons_ne_nil '*' []) isNameChar_star follows

theorem readSteps_of_written {steps : List JsonStep} {text : List Char}
    (written : StepsText steps text) : readSteps text = .ok steps := by
  induction written with
  | nil => rw [readSteps]
  | cons here later ih =>
      rw [here.read fun c first => later.head first, ih]
      rfl

/-- The first and the last character of a written path are visible. -/
theorem PathText.trim_eq {steps : List JsonStep} {text : List Char}
    (written : PathText steps text) : Text.trim Text.isBlank text = text := by
  cases written with
  | @rooted mark _ text root later =>
      have visible : Text.isBlank mark = false := by
        rcases root with rfl | rfl
        · decide
        · decide
      apply Text.trim_of_visible
      · intro c first
        rw [← Option.some.inj first, visible]
      · intro c last
        rw [← List.singleton_append, List.getLast?_append] at last
        cases ends : text.getLast? with
        | some final =>
            rw [ends] at last
            exact later.visible_getLast (ends.trans last)
        | none =>
            rw [ends] at last
            cases last
            exact visible
  | @unrooted name _ text bare start later =>
      apply Text.trim_of_visible
      · intro c first
        obtain ⟨initial, further, whole⟩ := List.exists_cons_of_ne_nil bare.toList_ne_nil
        rw [whole, List.cons_append] at first
        exact (start c (whole ▸ first)).2.2
      · intro c last
        rw [List.getLast?_append] at last
        cases ends : text.getLast? with
        | some final =>
            rw [ends] at last
            exact later.visible_getLast (ends.trans last)
        | none =>
            rw [ends] at last
            exact bare.visibleEnd c last

theorem read_of_written {steps : List JsonStep} {text : List Char} (written : PathText steps text) :
    read text = .ok steps := by
  cases written with
  | rooted root later =>
      rw [read, if_pos root]
      exact readSteps_of_written later
  | @unrooted name steps rest bare start later =>
      obtain ⟨taken, left⟩ := Text.span_of_stop bare.named fun c first => later.head first
      obtain ⟨initial, further, whole⟩ := List.exists_cons_of_ne_nil bare.toList_ne_nil
      have noRoot := start initial (congrArg List.head? whole)
      have inside := bare.named initial (whole ▸ List.mem_cons_self)
      have noStep : ¬ (initial = '.' ∨ initial = '[') := by
        rintro (rfl | rfl)
        · cases inside
        · cases inside
      rw [whole, List.cons_append] at taken left ⊢
      rw [read, if_neg (not_or.mpr ⟨noRoot.1, noRoot.2.1⟩), if_neg noStep, taken, left, ← whole,
        bare.nameStep_toList, readSteps_of_written later]
      rfl

/-- A written path is accepted, and its steps are those that were written. -/
theorem parse_of_pathText {steps : List JsonStep} {text : String}
    (written : PathText steps text.toList) : parse text = .ok ⟨steps⟩ := by
  rw [parse, written.trim_eq, read_of_written written]

theorem parse_of_pathText_items :
    PathText [.field "items", .descendant "a b", .index (-9223372036854775808), .wildcard,
        .field "it's", .field "x.[", .wildcard, .descendantWildcard]
      "items..a b[-9223372036854775808].*['it's'][\"x.[\"][*]..*".toList ∧
    parse "items..a b[-9223372036854775808].*['it's'][\"x.[\"][*]..*" =
      .ok ⟨[.field "items", .descendant "a b", .index (-9223372036854775808), .wildcard,
        .field "it's", .field "x.[", .wildcard, .descendantWildcard]⟩ := by
  have items : IsBare "items" := .of_plain (by decide)
  have spaced : IsBare "a b" := by
    refine ⟨by decide, by decide, by decide, by decide, ?_⟩
    rintro _ ⟨⟩
    decide
  have start : ∀ c, "items".toList.head? = some c → c ≠ '$' ∧ c ≠ '@' ∧ Text.isBlank c = false := by
    rintro _ ⟨⟩
    decide
  have written := PathText.unrooted items start <|
    .cons (.descendant spaced) <|
    .cons (@StepText.index (-9223372036854775808) (by decide) (by decide)) <|
    .cons .dottedWildcard <|
    .cons (@StepText.quoted "it's" '\'' (Or.inl rfl) (by decide)) <|
    .cons (@StepText.quoted "x.[" '"' (Or.inr rfl) (by decide)) <|
    .cons .bracketedWildcard <| .cons .descendantWildcard .nil
  exact ⟨written, parse_of_pathText written⟩

end RdfMapping.JsonPath
