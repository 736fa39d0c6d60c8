import RdfMapping.Evaluation.Rule
import RdfMapping.Proofs.Mapping.References
import RdfMapping.Proofs.Text.Percent
import RdfMapping.Proofs.Text.Tokens
/-!
The identifiers of rows that have no other. They are made of the name of the rule and the number
of the row, so that no two rows of a mapping share one, whatever the names of the rules are.
-/

namespace RdfMapping

/-- A name and a number that are joined by an underscore come apart in one way only: the number
has no underscore. -/
theorem numbered_unique {name other : String} {number further : Nat}
    (same : name ++ "_" ++ toString number = other ++ "_" ++ toString further) :
    name = other ∧ number = further := by
  have absent (number : Nat) : '_' ∉ (toString number).toList.reverse := by
    intro member
    have digit := Text.isDigit_of_mem_numeral (List.mem_reverse.mp member)
    exact absurd digit (by decide)
  have reversed := congrArg (List.reverse ∘ String.toList) same
  have mark : "_".toList = ['_'] := by decide
  simp only [Function.comp, String.toList_append, mark, List.reverse_append,
    List.reverse_singleton, List.singleton_append] at reversed
  obtain ⟨numerals, names⟩ := Text.mark_unique (absent number) (absent further) reversed
  refine ⟨String.toList_inj.mp (List.reverse_inj.mp names), ?_⟩
  exact Text.numeral_injective (String.toList_inj.mp (List.reverse_inj.mp numerals))

theorem Term.blankId_injective : Function.Injective Term.blankId := by
  intro name other same
  have chars := congrArg String.toList same
  rw [blankId, blankId, String.toList_append, String.toList_append] at chars
  exact Text.percentEncode_injective (String.toList_inj.mp (List.append_cancel_left chars))

theorem fallbackId_unique {rule other : String} {row further : Nat}
    (same : fallbackId rule row = fallbackId other further) : rule = other ∧ row = further := by
  obtain ⟨rules, rows⟩ := numbered_unique (Term.blankId_injective same)
  exact ⟨rules, Nat.succ.inj rows⟩

/-- Two rows of a mapping that are without an identifier never get the same one, and what they
get is a blank node with a percent-encoded label. -/
theorem fallbackId_injective_and_encoded (mapping : Mapping) :
    (Function.Injective fun place : Fin mapping.rules.length × Nat =>
      fallbackId (mapping.rules.get place.1).iri place.2) ∧
    ∀ rule row, ∃ label,
      (fallbackId rule row).toList = '_' :: ':' :: label ∧ Text.IsEncoded label := by
  constructor
  · rintro ⟨index, row⟩ ⟨other, further⟩ same
    obtain ⟨names, rows⟩ := fallbackId_unique same
    have ofIndex := mapping.indexOf?_iri (List.getElem?_eq_getElem index.isLt)
    have ofOther := mapping.indexOf?_iri (List.getElem?_eq_getElem other.isLt)
    change mapping.rules[index.val].iri = mapping.rules[other.val].iri at names
    rw [names, ofOther] at ofIndex
    exact Prod.ext (Fin.ext (Option.some.inj ofIndex).symm) rows
  · intro rule row
    refine ⟨_, ?_, Text.isEncoded_percentEncode (rule ++ "_" ++ toString (row + 1))⟩
    rw [fallbackId, Term.blankId, String.toList_append]
    rfl

end RdfMapping
