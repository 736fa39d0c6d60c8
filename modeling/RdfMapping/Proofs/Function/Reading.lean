import Mathlib.Data.List.Nodup
import RdfMapping.Function.Library
import RdfMapping.Proofs.Function.Views
/-!
What the functions of the library read of their arguments. A function reads its own parameters
only, each under its key or else at its position. Where values are given to parameters by their
names, none twice, a parameter finds its own value first, and else the one at its position.
-/

namespace RdfMapping

/-- The arguments without their positions: what has no key is not found. -/
def Arguments.byName (arguments : Arguments) : Arguments := { arguments with positional := [] }

namespace Library

open Vocabulary (grel)

def parametersOf (name : String) : List String :=
  match name with
  | "string_replace" => ["valueParameter", "p_string_find", "p_string_replace"]
  | "string_split" => ["valueParameter", "p_string_sep"]
  | "string_concat" => ["valueParameter", "valueParameter2"]
  | "array_join" => ["p_array_a", "p_string_sep"]
  | "controls_if" => ["bool_b", "any_true", "any_false"]
  | "boolean_not" => ["bool_b"]
  | _ => ["valueParameter"]

def given (entries : List (String × Json)) : Arguments :=
  .ofList (entries.map fun entry => (grel entry.1, entry.2))

/-! ### Values by their names -/

theorem grel_injective : Function.Injective grel := fun _ _ same =>
  (String.append_right_inj _).mp same

section Entries

variable {entries others : List (String × Json)}

theorem lookup_eq_some_iff_mem (distinct : (entries.map Prod.fst).Nodup) {key : String}
    {value : Json} : entries.lookup key = some value ↔ (key, value) ∈ entries := by
  induction entries with
  | nil => simp
  | cons entry rest ih =>
      obtain ⟨absent, later⟩ := List.nodup_cons.mp distinct
      by_cases same : key = entry.1
      · subst same
        have elsewhere : (entry.1, value) ∉ rest := fun member =>
          absent (List.mem_map.mpr ⟨_, member, rfl⟩)
        rw [List.lookup_cons, beq_self_eq_true, List.mem_cons, or_iff_left elsewhere]
        simp [Prod.ext_iff, eq_comm]
      · have apart : (key, value) ≠ entry := fun equal => same (congrArg Prod.fst equal)
        rw [List.lookup_cons, beq_false_of_ne same, List.mem_cons, or_iff_right apart]
        exact ih later

theorem lookup_of_perm (distinct : (entries.map Prod.fst).Nodup) (same : others.Perm entries)
    (key : String) : others.lookup key = entries.lookup key := by
  have alsoDistinct : (others.map Prod.fst).Nodup :=
    (same.map Prod.fst).nodup_iff.mpr distinct
  apply Option.ext
  intro value
  rw [lookup_eq_some_iff_mem alsoDistinct, lookup_eq_some_iff_mem distinct]
  exact same.mem_iff

theorem exists_lookup_of_mem {key : String} (distinct : (entries.map Prod.fst).Nodup)
    (member : key ∈ entries.map Prod.fst) : ∃ value, entries.lookup key = some value := by
  obtain ⟨entry, inside, rfl⟩ := List.mem_map.mp member
  exact ⟨entry.2, (lookup_eq_some_iff_mem distinct).mpr inside⟩

theorem shown_under (distinct : (entries.map Prod.fst).Nodup) (key : String) :
    Arguments.shown (Arguments.under key entries) = entries.lookup key := by
  unfold Arguments.under
  induction entries with
  | nil => rfl
  | cons entry rest ih =>
      obtain ⟨absent, later⟩ := List.nodup_cons.mp distinct
      by_cases same : key = entry.1
      · subst same
        have alone : rest.filter (fun other => decide (other.1 = entry.1)) = [] := by
          rw [List.filter_eq_nil_iff]
          intro other member
          rw [decide_eq_true_iff]
          intro equal
          exact absent (equal ▸ List.mem_map_of_mem member)
        rw [List.lookup_cons, beq_self_eq_true, List.filter_cons_of_pos (by simp), alone]
        rfl
      · rw [List.lookup_cons, beq_false_of_ne same,
          List.filter_cons_of_neg (by simpa using Ne.symm same)]
        exact ih later

theorem under_grel (key : String) (entries : List (String × Json)) :
    Arguments.under (grel key) (entries.map fun entry => (grel entry.1, entry.2)) =
      Arguments.under key entries := by
  unfold Arguments.under
  rw [List.filter_map, List.map_map]
  simp only [Function.comp_def, grel_injective.eq_iff]

theorem get?_given (distinct : (entries.map Prod.fst).Nodup) (key : String) :
    (given entries).get? (grel key) = entries.lookup key := by
  rw [given, (Arguments.inStep_ofList _).get?_eq, under_grel, shown_under distinct]

theorem argument?_given (distinct : (entries.map Prod.fst).Nodup) (key : String)
    (position : Nat) : argument? (given entries) key position =
      ((entries.lookup key).or (entries[position]?.map Prod.snd)).filter
        fun value => !value.isNull := by
  have placed : (given entries).valueAt? position = entries[position]?.map Prod.snd := by
    rw [given, Arguments.valueAt?, (Arguments.inStep_ofList _).positional, List.map_map,
      List.getElem?_map]
    rfl
  rw [argument?, get?_given distinct, placed]

theorem argument?_byName (distinct : (entries.map Prod.fst).Nodup) (key : String)
    (position : Nat) : argument? (given entries).byName key position =
      (entries.lookup key).filter fun value => !value.isNull := by
  have found : (given entries).byName.get? (grel key) = entries.lookup key :=
    get?_given distinct key
  have nowhere : (given entries).byName.valueAt? position = none := rfl
  rw [argument?, found, nowhere, Option.or_none]

end Entries

/-! ### What a function reads -/

section Reading

variable {left right arguments : Arguments} {function key : String} {position : Nat}

theorem require_congr (same : argument? left key position = argument? right key position) :
    require left function key position = require right function key position := by
  rw [require, require, same]

theorem textOrEmpty_congr (same : argument? left key position = argument? right key position) :
    textOrEmpty left key position = textOrEmpty right key position := by
  rw [textOrEmpty, textOrEmpty, same]

theorem holds_congr (same : argument? left key position = argument? right key position) :
    holds left key position = holds right key position := by
  rw [holds, holds, same]

/-- A function reads its parameters, each by its key and at its position, and nothing else. -/
theorem eq_of_arguments {name : String} {function : Arguments → Outcome Json}
    (known : (name, function) ∈ functions)
    (same : ∀ position key, (parametersOf name)[position]? = some key →
      argument? left key position = argument? right key position) :
    function left = function right := by
  simp only [functions, List.mem_cons, Prod.mk.injEq, List.not_mem_nil, or_false] at known
  have first := same 0
  have second := same 1
  have third := same 2
  rcases known with ⟨rfl, rfl⟩ | ⟨rfl, rfl⟩ | ⟨rfl, rfl⟩ | ⟨rfl, rfl⟩ | ⟨rfl, rfl⟩ | ⟨rfl, rfl⟩ |
    ⟨rfl, rfl⟩ | ⟨rfl, rfl⟩ | ⟨rfl, rfl⟩ | ⟨rfl, rfl⟩ | ⟨rfl, rfl⟩
  · rw [toUpperCase, toUpperCase, require_congr (first _ rfl)]
  · rw [toLowerCase, toLowerCase, require_congr (first _ rfl)]
  · rw [trim, trim, require_congr (first _ rfl)]
  · rw [length, length, require_congr (first _ rfl)]
  · rw [replace, replace, require_congr (first _ rfl), require_congr (second _ rfl),
      require_congr (third _ rfl)]
  · rw [split, split, require_congr (first _ rfl), require_congr (second _ rfl)]
  · rw [concat, concat, require_congr (first _ rfl), textOrEmpty_congr (second _ rfl)]
  · rw [joinTexts, joinTexts, first _ rfl, textOrEmpty_congr (second _ rfl)]
  · rw [choose, choose, holds_congr (first _ rfl), second _ rfl, third _ rfl]
  · rw [negate, negate, holds_congr (first _ rfl)]
  · rw [round, round, require_congr (first _ rfl)]

end Reading

end Library

end RdfMapping
