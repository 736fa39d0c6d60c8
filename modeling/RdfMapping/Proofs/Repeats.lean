import Mathlib.Data.List.Nodup
/-!
Lists without repetitions. What remains of a list when every element is kept where it comes
first: no element twice, all of a list without repetitions, and the same whether elements are
sorted out before or afterwards.
-/

namespace RdfMapping

variable {α : Type} [BEq α] [LawfulBEq α]

theorem nodup_eraseDups (items : List α) : items.eraseDups.Nodup := by
  cases items with
  | nil => exact List.nodup_nil
  | cons item rest =>
      rw [List.eraseDups_cons, List.nodup_cons]
      constructor
      · simp
      · exact nodup_eraseDups _
termination_by items.length
decreasing_by exact Nat.lt_succ_of_le (List.length_filter_le _ _)

theorem eraseDups_of_nodup {items : List α} (distinct : items.Nodup) : items.eraseDups = items := by
  induction items with
  | nil => rfl
  | cons item rest ih =>
      rw [List.nodup_cons] at distinct
      have kept : rest.filter (fun other => !other == item) = rest := by
        rw [List.filter_eq_self]
        intro other member
        simpa using fun same : other = item => distinct.1 (same ▸ member)
      rw [List.eraseDups_cons, kept, ih distinct.2]

theorem eraseDups_filter (keep : α → Bool) (items : List α) :
    (items.filter keep).eraseDups = items.eraseDups.filter keep := by
  cases items with
  | nil => rfl
  | cons item rest =>
      have others := eraseDups_filter keep (rest.filter fun other => !other == item)
      rw [List.eraseDups_cons]
      by_cases kept : keep item = true
      · rw [List.filter_cons_of_pos kept, List.filter_cons_of_pos kept, List.eraseDups_cons,
          ← others, List.filter_filter, List.filter_filter]
        simp only [Bool.and_comm]
      · have absent : rest.filter keep = (rest.filter fun other => !other == item).filter keep := by
          rw [List.filter_filter]
          apply List.filter_congr
          intro other _
          by_cases same : other = item
          · rw [same]
            simpa using kept
          · simp [same]
        rw [List.filter_cons_of_neg kept, List.filter_cons_of_neg kept, absent, others]
termination_by items.length
decreasing_by exact Nat.lt_succ_of_le (List.length_filter_le _ _)

theorem eraseDups_concat (items : List α) (item : α) [Decidable (item ∈ items)] :
    (items ++ [item]).eraseDups =
      if item ∈ items then items.eraseDups else items.eraseDups ++ [item] := by
  rw [List.eraseDups_append]
  split
  · next known => simp [List.removeAll, known]
  · next fresh => simp [List.removeAll, fresh, List.eraseDups_cons]

end RdfMapping
