import Mathlib.Algebra.Ring.Parity
import Mathlib.Data.List.DropRight
import Mathlib.Data.List.Induction
import RdfMapping.Proofs.Triple.ReadBack
/-!
The notation of literals, whatever characters their parts have. The quote that closes a
literal is the first one that no backslash escapes, so the value ends where it seems to end, and
two literals are written alike exactly if they have the same value and the same annotation.
-/

namespace RdfMapping.Term

open NTriples

/-! ### The closing quote -/

def backslashes (text : List Char) : Nat := (text.rtakeWhile (· == '\\')).length

/-- A text ends in a backslash that is not escaped itself, so that it escapes what follows. -/
def EndsEscaping (text : List Char) : Prop := Odd (backslashes text)

/-- A quote right behind a body closes it: it is the first quote that is not escaped. -/
structure Closes (body : List Char) : Prop where
  unescaped : ¬ EndsEscaping body
  first : ∀ before after, body = before ++ '"' :: after → EndsEscaping before

theorem backslashes_concat (text : List Char) (c : Char) :
    backslashes (text ++ [c]) = if c = '\\' then backslashes text + 1 else 0 := by
  unfold backslashes
  rw [List.rtakeWhile_concat]
  by_cases same : c = '\\'
  · rw [if_pos (beq_iff_eq.mpr same), if_pos same, List.length_append, List.length_singleton]
  · rw [if_neg (fun equal => same (beq_iff_eq.mp equal)), if_neg same, List.length_nil]

theorem not_endsEscaping_concat {text : List Char} {c : Char} (other : c ≠ '\\') :
    ¬ EndsEscaping (text ++ [c]) := by
  unfold EndsEscaping
  rw [backslashes_concat, if_neg other]
  decide

theorem endsEscaping_concat_backslash {text : List Char} :
    EndsEscaping (text ++ ['\\']) ↔ ¬ EndsEscaping text := by
  unfold EndsEscaping
  rw [backslashes_concat, if_pos rfl, Nat.odd_add_one]

theorem last_or_before_of_concat {text before after : List Char} {c mark : Char}
    (same : text ++ [c] = before ++ mark :: after) :
    (c = mark ∧ before = text) ∨ ∃ earlier, text = before ++ mark :: earlier := by
  cases after using List.reverseRecOn with
  | nil =>
      obtain ⟨sameText, sameLast⟩ := List.append_inj' same rfl
      exact Or.inl ⟨(List.cons.inj sameLast).1, sameText.symm⟩
  | append_singleton earlier last =>
      rw [← List.cons_append, ← List.append_assoc] at same
      exact Or.inr ⟨earlier, (List.append_inj' same rfl).1⟩

/-- A character is written as itself, or by its name behind a backslash. -/
theorem escapeChar_plain_or_named (c : Char) :
    (escapeChar c = [c] ∧ c ≠ '"' ∧ c ≠ '\\') ∨ ∃ name, escapeChar c = ['\\', name] := by
  unfold escapeChar
  split
  · exact Or.inr ⟨_, rfl⟩
  · exact Or.inr ⟨_, rfl⟩
  · exact Or.inr ⟨_, rfl⟩
  · exact Or.inr ⟨_, rfl⟩
  · exact Or.inr ⟨_, rfl⟩
  · next quote backslash _ _ _ => exact Or.inl ⟨rfl, quote, backslash⟩

section

variable {body : List Char}

theorem Closes.plain (closes : Closes body) {c : Char} (quote : c ≠ '"') (backslash : c ≠ '\\') :
    Closes (body ++ [c]) where
  unescaped := not_endsEscaping_concat backslash
  first := by
    intro before after same
    rcases last_or_before_of_concat same with ⟨isQuote, _⟩ | ⟨earlier, inside⟩
    · exact absurd isQuote quote
    · exact closes.first before earlier inside

theorem Closes.named (closes : Closes body) (name : Char) : Closes (body ++ ['\\', name]) := by
  have escapes : EndsEscaping (body ++ ['\\']) :=
    endsEscaping_concat_backslash.mpr closes.unescaped
  rw [show body ++ ['\\', name] = body ++ ['\\'] ++ [name] by simp]
  refine ⟨?_, ?_⟩
  · by_cases backslash : name = '\\'
    · rw [backslash, endsEscaping_concat_backslash, not_not]
      exact escapes
    · exact not_endsEscaping_concat backslash
  · intro before after same
    rcases last_or_before_of_concat same with ⟨_, rfl⟩ | ⟨earlier, inside⟩
    · exact escapes
    · rcases last_or_before_of_concat inside with ⟨isQuote, _⟩ | ⟨earliest, inBody⟩
      · exact absurd isQuote (by decide)
      · exact closes.first before earliest inBody

end

theorem closes_escaped (value : List Char) : Closes (value.flatMap escapeChar) := by
  induction value using List.reverseRecOn with
  | nil =>
      refine ⟨Nat.not_odd_zero, ?_⟩
      intro before after same
      cases before with
      | nil => cases same
      | cons c rest => cases same
  | append_singleton earlier c closes =>
      rw [List.flatMap_append, List.flatMap_singleton]
      rcases escapeChar_plain_or_named c with ⟨written, quote, backslash⟩ | ⟨name, written⟩
      · rw [written]
        exact closes.plain quote backslash
      · rw [written]
        exact closes.named name

theorem not_endOfLine_of_escaped (value : List Char) :
    ∀ c ∈ value.flatMap escapeChar, isEndOfLine c = false := by
  intro c member
  obtain ⟨written, _, inWritten⟩ := List.mem_flatMap.mp member
  exact not_endOfLine_of_escape written c inWritten

/-! ### Annotations -/

theorem literalSuffix_of_unspoken (datatype : Option String) :
    literalSuffix datatype none =
      if datatype.getD Vocabulary.xsdString = Vocabulary.xsdString then ""
      else "^^<" ++ datatype.getD Vocabulary.xsdString ++ ">" := by
  cases datatype with
  | none => rfl
  | some datatype => rfl

theorem literalSuffix_of_language (datatype : Option String) (tag : String) :
    literalSuffix datatype (some tag) = "@" ++ tag := by
  cases datatype with
  | none => rfl
  | some datatype => rfl

/-- Two annotations are the same: both name one language, or neither names one and the datatypes
are equal, that of strings being meant where there is none. -/
def SameAnnotation (datatype language otherDatatype otherLanguage : Option String) : Prop :=
  (∃ tag, language = some tag ∧ otherLanguage = some tag) ∨
    language = none ∧ otherLanguage = none ∧
      datatype.getD Vocabulary.xsdString = otherDatatype.getD Vocabulary.xsdString

theorem literalSuffix_apart (datatype otherDatatype : Option String) (tag : String) :
    literalSuffix datatype (some tag) ≠ literalSuffix otherDatatype none := by
  intro same
  have chars := congrArg String.toList same
  rw [literalSuffix_of_language, literalSuffix_of_unspoken] at chars
  split at chars
  · simp at chars
  · simp at chars

theorem literalSuffix_eq_iff {datatype language otherDatatype otherLanguage : Option String} :
    literalSuffix datatype language = literalSuffix otherDatatype otherLanguage ↔
      SameAnnotation datatype language otherDatatype otherLanguage := by
  unfold SameAnnotation
  cases language with
  | some tag =>
      cases otherLanguage with
      | some other =>
          rw [literalSuffix_of_language, literalSuffix_of_language, ← String.toList_inj]
          simp [String.toList_inj, eq_comm]
      | none =>
          have apart := literalSuffix_apart datatype otherDatatype tag
          simp [apart]
  | none =>
      cases otherLanguage with
      | some other =>
          have apart := (literalSuffix_apart otherDatatype datatype other).symm
          simp [apart]
      | none =>
          rw [literalSuffix_of_unspoken, literalSuffix_of_unspoken]
          generalize datatype.getD Vocabulary.xsdString = first
          generalize otherDatatype.getD Vocabulary.xsdString = second
          constructor
          · intro same
            refine Or.inr ⟨rfl, rfl, ?_⟩
            have chars := congrArg String.toList same
            split at chars
            · split at chars
              · next one two => rw [one, two]
              · simp at chars
            · split at chars
              · simp at chars
              · simpa [String.toList_inj] using chars
          · rintro (⟨tag, named, _⟩ | ⟨_, _, same⟩)
            · cases named
            · rw [same]

/-! ### Literals -/

theorem render_literal_inj {value other : String}
    {datatype language otherDatatype otherLanguage : Option String}
    (same : render (.literal value datatype language) =
      render (.literal other otherDatatype otherLanguage)) :
    value = other ∧ literalSuffix datatype language =
      literalSuffix otherDatatype otherLanguage := by
  have chars := congrArg String.toList same
  rw [toList_render_literal, toList_render_literal] at chars
  obtain ⟨sameValue, sameSuffix⟩ := Quoting.Body.unique (body_escaped value.toList)
    (body_escaped other.toList) (List.cons.inj chars).2
  exact ⟨String.toList_inj.mp sameValue, String.toList_inj.mp sameSuffix⟩

/-- Literals are written alike exactly if they have the same value and the same annotation. The
value is written without an end of a line, and ends at the first quote that is not escaped. -/
theorem render_literal_eq_iff_and_closes :
    (∀ value datatype language other otherDatatype otherLanguage,
      render (.literal value datatype language) =
          render (.literal other otherDatatype otherLanguage) ↔
        value = other ∧ SameAnnotation datatype language otherDatatype otherLanguage) ∧
      ∀ value datatype language, ∃ body,
        (render (.literal value datatype language)).toList =
          '"' :: (body ++ '"' :: (literalSuffix datatype language).toList) ∧
        body = (escapeLiteral value).toList ∧ '\n' ∉ body ∧ '\r' ∉ body ∧ Closes body := by
  constructor
  · intro value datatype language other otherDatatype otherLanguage
    constructor
    · intro same
      obtain ⟨sameValue, sameSuffix⟩ := render_literal_inj same
      exact ⟨sameValue, literalSuffix_eq_iff.mp sameSuffix⟩
    · rintro ⟨rfl, sameAnnotation⟩
      rw [render, render, literalSuffix_eq_iff.mpr sameAnnotation]
  · intro value datatype language
    have single := not_endOfLine_of_escaped value.toList
    refine ⟨value.toList.flatMap escapeChar, toList_render_literal value datatype language,
      (String.toList_ofList).symm, ?_, ?_, closes_escaped value.toList⟩
    · intro member
      exact absurd (single _ member) (by decide)
    · intro member
      exact absurd (single _ member) (by decide)

end RdfMapping.Term
