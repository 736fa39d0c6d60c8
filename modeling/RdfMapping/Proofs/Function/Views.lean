import Mathlib.Data.List.Induction
import RdfMapping.Function.Arguments
/-!
The two views of the arguments of a call. Whatever is given, and in whatever order the keys take
turns: the values stand by position in the order in which they were given, and a key shows all
values that it was given with, and no others. An array that is given is one value, and so is null.
-/

namespace RdfMapping

namespace Arguments

def under (key : String) (entries : List (String × Json)) : List Json :=
  (entries.filter (·.1 = key)).map Prod.snd

def shown : List Json → Option Json
  | [] => none
  | [value] => some value
  | values => some (.array values)

theorem shown_concat (values : List Json) (value : Json) :
    shown (values ++ [value]) =
      some (accumulate (values.length + 1) value (shown values)) := by
  match values with
  | [] => rfl
  | [_] => rfl
  | _ :: _ :: _ => rfl

/-- The arguments hold, in both views, what has been given so far. A key shows a single value or
the array of several ones according to its count. -/
structure InStep (entries : List (String × Json)) (arguments : Arguments) : Prop where
  sorted : Table.Sorted arguments.named
  sortedCounts : Table.Sorted arguments.counts
  positional : arguments.positional = entries.map Prod.snd
  counts : ∀ key, (Table.get? key arguments.counts).getD 0 = (under key entries).length
  named : ∀ key, Table.get? key arguments.named = shown (under key entries)

theorem inStep_empty : InStep [] empty where
  sorted := List.Pairwise.nil
  sortedCounts := List.Pairwise.nil
  positional := rfl
  counts := fun _ => rfl
  named := fun _ => rfl

variable {entries : List (String × Json)} {arguments : Arguments}

theorem under_concat (key other : String) (value : Json) :
    under other (entries ++ [(key, value)]) =
      if key = other then under other entries ++ [value] else under other entries := by
  unfold under
  rw [List.filter_append, List.map_append]
  by_cases same : key = other
  · simp [same]
  · simp [same]

theorem InStep.push (inStep : InStep entries arguments) (key : String) (value : Json) :
    InStep (entries ++ [(key, value)]) (arguments.push key value) where
  sorted := Table.sorted_alter inStep.sorted
  sortedCounts := Table.sorted_insert inStep.sortedCounts
  positional := by
    rw [positional_push, inStep.positional, List.map_append]
    rfl
  counts := by
    intro other
    rw [Arguments.push, Table.get?_insert inStep.sortedCounts, inStep.counts, under_concat]
    by_cases same : key = other
    · rw [if_pos same, if_pos same, same, List.length_append]
      rfl
    · rw [if_neg same, if_neg same, inStep.counts]
  named := by
    intro other
    rw [Arguments.push, Table.get?_alter inStep.sorted, inStep.counts, under_concat]
    by_cases same : key = other
    · rw [if_pos same, if_pos same, same, inStep.named, shown_concat]
    · rw [if_neg same, if_neg same, inStep.named]

theorem inStep_ofList (entries : List (String × Json)) : InStep entries (ofList entries) := by
  induction entries using List.reverseRecOn with
  | nil => exact inStep_empty
  | append_singleton entries entry inStep =>
      have last : ofList (entries ++ [entry]) = (ofList entries).push entry.1 entry.2 := by
        unfold ofList
        rw [List.foldl_append]
        rfl
      rw [last]
      exact inStep.push entry.1 entry.2

theorem InStep.get?_eq (inStep : InStep entries arguments) (key : String) :
    arguments.get? key = shown (under key entries) := by
  rw [get?, inStep.named]

/-- The positions show all values in order; a key shows nothing if it was never given, its value
if it was given once, and else the array of exactly its values in order. -/
theorem views_ofList (entries : List (String × Json)) :
    (ofList entries).positional = entries.map Prod.snd ∧
      (∀ position, (ofList entries).valueAt? position = (entries.map Prod.snd)[position]?) ∧
      ∀ key, (ofList entries).get? key = shown (under key entries) := by
  have inStep := inStep_ofList entries
  refine ⟨inStep.positional, ?_, inStep.get?_eq⟩
  intro position
  rw [valueAt?, inStep.positional]

example : (ofList [("k", .array []), ("m", .null), ("k", .null)]).get? "k" =
    some (.array [.array [], .null]) := rfl

end Arguments

end RdfMapping
