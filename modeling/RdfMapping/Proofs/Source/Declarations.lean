import RdfMapping.Proofs.Source.Key
import RdfMapping.Proofs.Text.Removal
/-!
The order in which declarations are dropped from a text. A declaration can be put together from
what is left where another one is dropped, so that for any two of them there is a text on which
the order matters.
-/

namespace RdfMapping.Xml.Document

variable {entry one two : String × String}

/-! ### Declarations without quotes of their own -/

structure IsUnquoted (entry : String × String) : Prop where
  name : '"' ∉ entry.1.toList
  value : '"' ∉ entry.2.toList

def opening (entry : String × String) : List Char := entry.1.toList ++ ['=']

theorem opening_ne_nil (entry : String × String) : opening entry ≠ [] :=
  List.append_ne_nil_of_right_ne_nil _ (List.cons_ne_nil _ _)

theorem declarationChars_eq (entry : String × String) :
    declarationChars entry = opening entry ++ '"' :: (entry.2.toList ++ ['"']) := by
  simp [declarationChars, opening]

theorem IsUnquoted.opening (unquoted : IsUnquoted entry) : '"' ∉ opening entry := by
  rw [Document.opening, List.mem_append, List.mem_singleton, not_or]
  exact ⟨unquoted.name, by decide⟩

theorem infix_cases (unquoted : IsUnquoted entry) {before after : List Char}
    (absent : '"' ∉ before) (inside : declarationChars entry <:+: before ++ '"' :: after) :
    opening entry <:+ before ∧ entry.2.toList ++ ['"'] <+: after ∨
      declarationChars entry <:+: after := by
  obtain ⟨start, rest, whole⟩ := inside
  rw [declarationChars_eq] at whole
  by_cases quoted : '"' ∈ start
  · obtain ⟨first, second, split, firstAbsent⟩ := List.eq_append_cons_of_mem quoted
    rw [split, List.append_assoc, List.append_assoc, List.cons_append] at whole
    obtain ⟨_, later⟩ := Text.mark_unique firstAbsent absent whole
    refine .inr ⟨second, rest, ?_⟩
    rw [declarationChars_eq, List.append_assoc, later]
  · have unopened : '"' ∉ start ++ opening entry := by
      rw [List.mem_append, not_or]
      exact ⟨quoted, unquoted.opening⟩
    rw [← List.append_assoc, List.append_assoc, List.cons_append] at whole
    obtain ⟨ends, later⟩ := Text.mark_unique unopened absent whole
    exact .inl ⟨⟨start, ends⟩, rest, later⟩

theorem not_infix_of_unquoted {text : List Char} (absent : '"' ∉ text) :
    ¬ declarationChars entry <:+: text := by
  intro inside
  apply absent
  apply inside.subset
  rw [declarationChars_eq]
  exact List.mem_append_right _ List.mem_cons_self

theorem not_infix_value (unquoted : IsUnquoted entry) {value : List Char} (absent : '"' ∉ value) :
    ¬ declarationChars entry <:+: value ++ ['"'] := by
  intro inside
  rcases infix_cases unquoted absent inside with ⟨_, starts⟩ | later
  · exact List.append_ne_nil_of_right_ne_nil _ (List.cons_ne_nil _ _) (List.prefix_nil.mp starts)
  · exact not_infix_of_unquoted List.not_mem_nil later

theorem value_eq_of_starts (unquoted : IsUnquoted entry) {value rest : List Char}
    (absent : '"' ∉ value) (starts : entry.2.toList ++ ['"'] <+: value ++ '"' :: rest) :
    entry.2.toList = value := by
  obtain ⟨more, whole⟩ := starts
  rw [List.append_assoc, List.singleton_append] at whole
  exact (Text.mark_unique unquoted.value absent whole).1

theorem declarationChars_inj (unquoted : IsUnquoted one) (alsoUnquoted : IsUnquoted two)
    (same : declarationChars one = declarationChars two) : one = two := by
  rw [declarationChars_eq, declarationChars_eq] at same
  obtain ⟨names, values⟩ := Text.mark_unique unquoted.opening alsoUnquoted.opening same
  exact Prod.ext (String.toList_inj.mp (List.append_cancel_right names))
    (String.toList_inj.mp (List.append_cancel_right values))

/-- A declaration does not begin within another text in front of it that has no quote. -/
theorem not_prefix_of_tail (unquoted : IsUnquoted entry) {tail rest : List Char}
    (filled : tail ≠ []) (absent : '"' ∉ tail) :
    ¬ declarationChars entry <+: tail ++ (declarationChars entry ++ rest) := by
  rintro ⟨more, whole⟩
  have unopened : '"' ∉ tail ++ opening entry := by
    rw [List.mem_append, not_or]
    exact ⟨absent, unquoted.opening⟩
  simp only [declarationChars_eq, List.append_assoc, List.cons_append] at whole
  rw [← List.append_assoc tail] at whole
  have names := (Text.mark_unique unquoted.opening unopened whole).1
  exact filled (List.append_left_eq_self.mp names.symm)

theorem drop_behind (unquoted : IsUnquoted entry) {before : List Char} (absent : '"' ∉ before)
    (rest : List Char) :
    Text.replaceAll (declarationChars entry) [] (before ++ (declarationChars entry ++ rest)) =
      before ++ Text.replaceAll (declarationChars entry) [] rest := by
  have proper := declarationChars_ne_nil entry
  rw [Text.replaceAll_append proper, Text.replaceAll_start proper, List.nil_append]
  intro tail ends filled
  exact not_prefix_of_tail unquoted filled fun member => absent (ends.subset member)

/-! ### What is left -/

theorem dropDeclarations_cons (entry : String × String) (others : List (String × String))
    (text : List Char) :
    dropDeclarations (entry :: others) text =
      dropDeclarations others (Text.replaceAll (declarationChars entry) [] text) := rfl

theorem dropDeclarations_of_unquoted (declarations : List (String × String)) {text : List Char}
    (absent : '"' ∉ text) : dropDeclarations declarations text = text := by
  induction declarations with
  | nil => rfl
  | cons entry others ih =>
      rw [dropDeclarations_cons, Text.replaceAll_of_absent (declarationChars_ne_nil entry) []
        (not_infix_of_unquoted absent), ih]

theorem drop_declaration (entry : String × String) :
    Text.replaceAll (declarationChars entry) [] (declarationChars entry) = [] :=
  dropDeclarations_self entry

/-- A declaration that ends in another one begins with a text without quotes. -/
theorem exists_front (unquoted : IsUnquoted one) (alsoUnquoted : IsUnquoted two)
    (apart : one ≠ two) (ends : declarationChars two <:+ declarationChars one) :
    ∃ front, front ≠ [] ∧ '"' ∉ front ∧ declarationChars one = front ++ declarationChars two := by
  obtain ⟨front, whole⟩ := ends
  refine ⟨front, ?_, ?_, whole.symm⟩
  · rintro rfl
    exact apart (declarationChars_inj unquoted alsoUnquoted whole.symm)
  · intro quoted
    obtain ⟨first, second, split, absent⟩ := List.eq_append_cons_of_mem quoted
    rw [declarationChars_eq one, split, List.append_assoc, List.cons_append] at whole
    have later := (Text.mark_unique absent unquoted.opening whole).2
    exact not_infix_value alsoUnquoted unquoted.value ⟨second, [], by simp [later]⟩

theorem suffix_of_opening (names : opening one <:+ opening two) (values : one.2.toList = two.2.toList) :
    declarationChars one <:+ declarationChars two := by
  obtain ⟨front, whole⟩ := names
  rw [declarationChars_eq, declarationChars_eq two, values]
  exact ⟨front, by rw [← List.append_assoc, whole]⟩

theorem drop_end (unquoted : IsUnquoted one) (alsoUnquoted : IsUnquoted two)
    (apart : one ≠ two) (ends : declarationChars two <:+ declarationChars one) :
    ∃ front, front ≠ [] ∧ '"' ∉ front ∧
      Text.replaceAll (declarationChars two) [] (declarationChars one) = front := by
  obtain ⟨front, filled, absent, whole⟩ := exists_front unquoted alsoUnquoted apart ends
  refine ⟨front, filled, absent, ?_⟩
  have dropped := drop_behind alsoUnquoted absent []
  rw [List.append_nil, ← whole] at dropped
  rw [dropped, Text.replaceAll_of_absent (declarationChars_ne_nil two) []
    (not_infix_of_unquoted List.not_mem_nil), List.append_nil]

/-- Other declarations leave something of a declaration. -/
theorem dropDeclarations_ne_nil (unquoted : IsUnquoted entry)
    {others : List (String × String)} (each : ∀ other ∈ others, IsUnquoted other)
    (absent : entry ∉ others) : dropDeclarations others (declarationChars entry) ≠ [] := by
  induction others with
  | nil => exact declarationChars_ne_nil entry
  | cons other others ih =>
      obtain ⟨otherUnquoted, later⟩ := List.forall_mem_cons.mp each
      obtain ⟨apart, notLater⟩ := not_or.mp (mt List.mem_cons.mpr absent)
      rw [dropDeclarations_cons]
      by_cases inside : declarationChars other <:+: declarationChars entry
      · have ends : declarationChars other <:+ declarationChars entry := by
          rw [declarationChars_eq entry] at inside
          rcases infix_cases otherUnquoted unquoted.opening inside with ⟨names, values⟩ | value
          · exact suffix_of_opening names (value_eq_of_starts otherUnquoted unquoted.value values)
          · exact absurd value (not_infix_value otherUnquoted unquoted.value)
        obtain ⟨front, filled, frontAbsent, dropped⟩ := drop_end unquoted otherUnquoted apart ends
        rw [dropped, dropDeclarations_of_unquoted others frontAbsent]
        exact filled
      · rw [Text.replaceAll_of_absent (declarationChars_ne_nil other) [] inside]
        exact ih later notLater

/-! ### Two declarations -/

/-- One declaration in another, in front of the value. -/
def entangled (one two : String × String) : List Char :=
  opening two ++ (declarationChars one ++ '"' :: (two.2.toList ++ ['"']))

theorem drop_entangled (unquoted : IsUnquoted one) (alsoUnquoted : IsUnquoted two) :
    Text.replaceAll (declarationChars one) [] (entangled one two) = declarationChars two := by
  have absent : ¬ declarationChars one <:+: '"' :: (two.2.toList ++ ['"']) := by
    intro inside
    rcases infix_cases unquoted List.not_mem_nil inside with ⟨names, _⟩ | value
    · exact opening_ne_nil one (List.suffix_nil.mp names)
    · exact not_infix_value unquoted alsoUnquoted.value value
  rw [entangled, drop_behind unquoted alsoUnquoted.opening,
    Text.replaceAll_of_absent (declarationChars_ne_nil one) [] absent, ← declarationChars_eq]

/-- The outer declaration stands there before the inner one is dropped only if one of them ends in
the other one, or if the value of the inner one ends as the outer one begins. -/
theorem entangled_cases (unquoted : IsUnquoted one) (alsoUnquoted : IsUnquoted two)
    (inside : declarationChars two <:+: entangled one two) :
    declarationChars two <:+ declarationChars one ∨ declarationChars one <:+ declarationChars two ∨
      opening two <:+ one.2.toList ∧ two.2.toList = [] := by
  have absent : '"' ∉ opening two ++ opening one := by
    rw [List.mem_append, not_or]
    exact ⟨alsoUnquoted.opening, unquoted.opening⟩
  have whole : entangled one two = (opening two ++ opening one) ++
      '"' :: (one.2.toList ++ '"' :: ([] ++ '"' :: (two.2.toList ++ ['"']))) := by
    simp [entangled, declarationChars_eq]
  rw [whole] at inside
  rcases infix_cases alsoUnquoted absent inside with ⟨names, values⟩ | later
  · have same := value_eq_of_starts alsoUnquoted unquoted.value values
    rcases List.suffix_or_suffix_of_suffix names (List.suffix_append _ _) with shorter | longer
    · exact .inl (suffix_of_opening shorter same)
    · exact .inr (.inl (suffix_of_opening longer same.symm))
  rcases infix_cases alsoUnquoted unquoted.value later with ⟨names, values⟩ | later
  · exact .inr (.inr ⟨names, value_eq_of_starts alsoUnquoted List.not_mem_nil values⟩)
  rcases infix_cases alsoUnquoted List.not_mem_nil later with ⟨names, _⟩ | later
  · exact absurd (List.suffix_nil.mp names) (opening_ne_nil two)
  · exact absurd later (not_infix_value alsoUnquoted alsoUnquoted.value)

theorem exists_text_of_suffix (unquoted : IsUnquoted one) (alsoUnquoted : IsUnquoted two)
    (apart : one ≠ two) (ends : declarationChars two <:+ declarationChars one)
    (others : List (String × String)) :
    ∃ text, dropDeclarations (one :: two :: others) text ≠
      dropDeclarations (two :: one :: others) text := by
  obtain ⟨front, filled, absent, dropped⟩ := drop_end unquoted alsoUnquoted apart ends
  refine ⟨declarationChars one, ?_⟩
  rw [dropDeclarations_cons, drop_declaration, dropDeclarations_of_unquoted _ List.not_mem_nil,
    dropDeclarations_cons, dropped, dropDeclarations_of_unquoted _ absent]
  exact filled.symm

section

variable {others : List (String × String)} (each : ∀ other ∈ others, IsUnquoted other)
include each

theorem exists_text_of_entangled (unquoted : IsUnquoted one) (alsoUnquoted : IsUnquoted two)
    (absent : two ∉ others) (unseen : ¬ declarationChars two <:+: entangled one two) :
    ∃ text, dropDeclarations (one :: two :: others) text ≠
      dropDeclarations (two :: one :: others) text := by
  refine ⟨entangled one two, ?_⟩
  rw [dropDeclarations_cons, drop_entangled unquoted alsoUnquoted, dropDeclarations_cons,
    drop_declaration, dropDeclarations_of_unquoted _ List.not_mem_nil, dropDeclarations_cons,
    Text.replaceAll_of_absent (declarationChars_ne_nil two) [] unseen, dropDeclarations_cons,
    drop_entangled unquoted alsoUnquoted]
  exact (dropDeclarations_ne_nil alsoUnquoted each absent).symm

/-- For any two declarations there is a text on which their order matters. -/
theorem exists_text_of_two (unquoted : IsUnquoted one) (alsoUnquoted : IsUnquoted two)
    (apart : one ≠ two) (absent : one ∉ others) (alsoAbsent : two ∉ others) :
    ∃ text, dropDeclarations (one :: two :: others) text ≠
      dropDeclarations (two :: one :: others) text := by
  by_cases ends : declarationChars two <:+ declarationChars one
  · exact exists_text_of_suffix unquoted alsoUnquoted apart ends others
  by_cases alsoEnds : declarationChars one <:+ declarationChars two
  · obtain ⟨text, differ⟩ :=
      exists_text_of_suffix alsoUnquoted unquoted apart.symm alsoEnds others
    exact ⟨text, differ.symm⟩
  by_cases seen : declarationChars two <:+: entangled one two
  · -- The value of `two` is empty, so that it cannot end as `one` begins.
    obtain shorter | longer | ⟨_, empty⟩ := entangled_cases unquoted alsoUnquoted seen
    · exact absurd shorter ends
    · exact absurd longer alsoEnds
    · have unseen : ¬ declarationChars one <:+: entangled two one := by
        intro alsoSeen
        obtain shorter | longer | ⟨names, _⟩ := entangled_cases alsoUnquoted unquoted alsoSeen
        · exact alsoEnds shorter
        · exact ends longer
        · rw [empty] at names
          exact opening_ne_nil one (List.suffix_nil.mp names)
      obtain ⟨text, differ⟩ := exists_text_of_entangled each alsoUnquoted unquoted absent unseen
      exact ⟨text, differ.symm⟩
  · exact exists_text_of_entangled each unquoted alsoUnquoted alsoAbsent seen

end

theorem length_le_one_of_unordered {declarations : List (String × String)}
    (distinct : declarations.Nodup) (each : ∀ entry ∈ declarations, IsUnquoted entry)
    (unordered : ∀ others, others.Perm declarations → ∀ text,
      dropDeclarations others text = dropDeclarations declarations text) :
    declarations.length ≤ 1 := by
  match declarations with
  | [] => exact Nat.zero_le 1
  | [_] => exact Nat.le_refl 1
  | one :: two :: others =>
      obtain ⟨absent, later⟩ := List.nodup_cons.mp distinct
      obtain ⟨apart, absentLater⟩ := not_or.mp (mt List.mem_cons.mpr absent)
      obtain ⟨unquoted, rest⟩ := List.forall_mem_cons.mp each
      obtain ⟨alsoUnquoted, eachLater⟩ := List.forall_mem_cons.mp rest
      obtain ⟨text, differ⟩ := exists_text_of_two eachLater unquoted alsoUnquoted apart
        absentLater (List.nodup_cons.mp later).1
      exact absurd (unordered _ (.swap one two others) text).symm differ

end RdfMapping.Xml.Document
