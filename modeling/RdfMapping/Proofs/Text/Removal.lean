import RdfMapping.Proofs.Text.Tokens
/-!
Texts in which nothing is replaced: one in which the replaced text does not occur, and, before
further text, one in which no occurrence of it begins.
-/

namespace RdfMapping.Text

variable {needle : List Char}

theorem cutAt?_of_absent {text : List Char} (absent : ¬ needle <:+: text) :
    cutAt? needle text = none := by
  cases cut : cutAt? needle text with
  | none => rfl
  | some parts => exact absurd ⟨parts.1, parts.2, (eq_of_cutAt? cut).symm⟩ absent

variable (proper : needle ≠ []) (replacement : List Char)
include proper

theorem replaceAll_of_absent {text : List Char} (absent : ¬ needle <:+: text) :
    replaceAll needle replacement text = text :=
  replaceAll_of_none proper (cutAt?_of_absent absent) replacement

/-- Where no occurrence begins, nothing is replaced. -/
theorem replaceAll_append {before : List Char} (rest : List Char)
    (apart : ∀ tail, tail <:+ before → tail ≠ [] → ¬ needle <+: tail ++ rest) :
    replaceAll needle replacement (before ++ rest) =
      before ++ replaceAll needle replacement rest := by
  induction before with
  | nil => rfl
  | cons c before ih =>
      have here : ¬ needle <+: c :: (before ++ rest) :=
        apart (c :: before) List.suffix_rfl (List.cons_ne_nil c before)
      rw [List.cons_append, List.cons_append, replaceAll_cons proper replacement here,
        ih fun tail ends => apart tail (ends.trans (List.suffix_cons c before))]

end RdfMapping.Text
