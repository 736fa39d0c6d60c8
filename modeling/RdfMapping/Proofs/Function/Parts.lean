import RdfMapping.Proofs.Function.Reading
import RdfMapping.Proofs.Text.Tokens
/-!
Splitting, joining and replacing. The parts of a text, joined by the separator between which they
stand, are the text again, also for the empty separator, which splits a text into its characters;
joined by another text they are the text with every occurrence of the separator replaced.
-/

namespace RdfMapping

/-! ### Parts of a text -/

theorem Text.replaceAll_self {separator : List Char} (proper : separator ≠ [])
    (text : List Char) : replaceAll separator separator text = text := by
  cases cut : cutAt? separator text with
  | none => exact replaceAll_of_none proper cut separator
  | some parts =>
      have shorter := length_lt_of_cutAt? proper cut
      rw [replaceAll_of_some proper cut, replaceAll_self proper parts.2, ← List.append_assoc]
      exact (eq_of_cutAt? cut).symm
termination_by text.length

theorem Text.join_singletons (text : List Char) : join [] (text.map fun c => [c]) = text := by
  induction text with
  | nil => rfl
  | cons c rest ih =>
      cases rest with
      | nil => rfl
      | cons d further =>
          have step : join [] ((c :: d :: further).map fun e => [e]) =
              c :: join [] ((d :: further).map fun e => [e]) := List.intercalate_cons_cons
          rw [step, ih]

namespace Library

theorem toList_ne_nil {value : String} (proper : value ≠ "") : value.toList ≠ [] :=
  fun empty => proper (String.toList_inj.mp empty)

theorem intercalate_parts (separator value : String) :
    separator.intercalate (parts separator value) = value := by
  apply String.toList_inj.mp
  rw [String.toList_intercalate, parts, ← Text.join]
  by_cases empty : separator = ""
  · subst empty
    rw [if_pos rfl, List.map_map]
    simpa [Function.comp_def] using Text.join_singletons value.toList
  · rw [if_neg empty, List.map_map]
    have whole : Text.join separator.toList (Text.splitOn separator.toList value.toList) =
        value.toList := by
      rw [Text.join_splitOn, Text.replaceAll_self (toList_ne_nil empty)]
    simpa [Function.comp_def] using whole

theorem intercalate_parts_eq_replaceAll {separator : String} (proper : separator ≠ "")
    (replacement value : String) : replacement.intercalate (parts separator value) =
      String.ofList (Text.replaceAll separator.toList replacement.toList value.toList) := by
  apply String.toList_inj.mp
  rw [String.toList_intercalate, parts, if_neg proper, String.toList_ofList, List.map_map,
    ← Text.join_splitOn]
  simp [Function.comp_def, Text.join]

/-! ### Calls -/

/-- A function is given values for its parameters: each is found under the key of its parameter or
at its position. -/
def Gives (arguments : Arguments) (values : List (String × Json)) : Prop :=
  ∀ position key value, values[position]? = some (key, value) →
    argument? arguments key position = some value

theorem texts_strings (parts : List String) :
    texts (some (.array (parts.map Json.string))) = parts := by
  rw [texts, List.filter_eq_self.mpr, List.map_map]
  · exact List.map_id' _
  · simp [Json.isNull]

section Calls

variable {arguments : Arguments} {value separator replacement : String} {parts : List String}

theorem split_of_gives (gives : Gives arguments
      [("valueParameter", .string value), ("p_string_sep", .string separator)]) :
    split arguments = .ok (.array ((Library.parts separator value).map Json.string)) := by
  have first := gives 0 _ _ rfl
  have second := gives 1 _ _ rfl
  rw [split, require, first, require, second]
  rfl

theorem joinTexts_of_gives (gives : Gives arguments
      [("p_array_a", .array (parts.map Json.string)), ("p_string_sep", .string separator)]) :
    joinTexts arguments = .ok (.string (separator.intercalate parts)) := by
  have first := gives 0 _ _ rfl
  have second := gives 1 _ _ rfl
  rw [joinTexts, first, texts_strings, textOrEmpty, second]
  rfl

theorem replace_of_gives (gives : Gives arguments
      [("valueParameter", .string value), ("p_string_find", .string separator),
        ("p_string_replace", .string replacement)]) :
    replace arguments = .ok (.string (String.ofList
      (Text.replaceAll separator.toList replacement.toList value.toList))) := by
  have first := gives 0 _ _ rfl
  have second := gives 1 _ _ rfl
  have third := gives 2 _ _ rfl
  rw [replace, require, first, require, second, require, third]
  rfl

end Calls

/-- Joined by its separator, a text that was split is the same text again. Joined by another text,
it is the text in which the separator is replaced. -/
theorem join_split_and_replace {splitting : Arguments} {value separator : String}
    (splits : Gives splitting
      [("valueParameter", .string value), ("p_string_sep", .string separator)]) :
    ∃ pieces, split splitting = .ok (.array pieces) ∧
      (∀ joining, Gives joining
          [("p_array_a", .array pieces), ("p_string_sep", .string separator)] →
        joinTexts joining = .ok (.string value)) ∧
      (separator ≠ "" → ∀ replacement joining replacing, Gives joining
          [("p_array_a", .array pieces), ("p_string_sep", .string replacement)] →
        Gives replacing
          [("valueParameter", .string value), ("p_string_find", .string separator),
            ("p_string_replace", .string replacement)] →
        replace replacing = joinTexts joining) := by
  refine ⟨_, split_of_gives splits, ?_, ?_⟩
  · intro joining joins
    rw [joinTexts_of_gives joins, intercalate_parts]
  · intro proper replacement joining replacing joins replaces
    rw [joinTexts_of_gives joins, replace_of_gives replaces,
      intercalate_parts_eq_replaceAll proper]

theorem gives_given {entries values : List (String × Json)}
    (distinct : (entries.map Prod.fst).Nodup) (inside : values ⊆ entries)
    (proper : ∀ entry ∈ values, entry.2.isNull = false) : Gives (given entries) values := by
  intro position key value here
  have member := List.mem_of_getElem? here
  have found := (lookup_eq_some_iff_mem distinct).mpr (inside member)
  rw [argument?_given distinct, found, Option.some_or, Option.filter_some, proper _ member]
  rfl

/-- The separator overlaps itself, stands at both ends, and leaves empty parts. -/
theorem join_split_and_replace_overlapping :
    ∃ pieces,
      split (given [("p_string_sep", .string "aba"), ("valueParameter", .string "abababa")]) =
        .ok (.array pieces) ∧
      joinTexts (given [("p_array_a", .array pieces), ("p_string_sep", .string "aba")]) =
        .ok (.string "abababa") ∧
      replace (given [("valueParameter", .string "abababa"), ("p_string_find", .string "aba"),
          ("p_string_replace", .string "-")]) =
        joinTexts (given [("p_array_a", .array pieces), ("p_string_sep", .string "-")]) := by
  have both : Gives
      (given [("p_string_sep", .string "aba"), ("valueParameter", .string "abababa")])
      [("valueParameter", .string "abababa"), ("p_string_sep", .string "aba")] :=
    gives_given (by simp) (by simp) (by simp [Json.isNull])
  obtain ⟨pieces, splits, joins, replaces⟩ := join_split_and_replace both
  refine ⟨pieces, splits, joins _ (gives_given (by simp) (by simp) (by simp [Json.isNull])), ?_⟩
  exact replaces (by decide) "-" _ _
    (gives_given (by simp) (by simp) (by simp [Json.isNull]))
    (gives_given (by simp) (by simp) (by simp [Json.isNull]))

end Library

end RdfMapping
