import RdfMapping.Proofs.LanguageTag.Subtags
import RdfMapping.Proofs.Triple.Plain
/-!
From subtags to characters. The grammar of language tags derives the texts that join, with hyphens,
the subtags of the grammar over subtags. It derives with a text every other spelling of the text
in lower and upper case.
-/

namespace RdfMapping.LanguageTag

open scoped Computability

/-! ### Rules as classes of subtags -/

theorem toNat_toLower (c : Char) :
    c.toLower.toNat = if 65 ≤ c.toNat ∧ c.toNat ≤ 90 then c.toNat + 32 else c.toNat := by
  unfold Char.toLower
  split
  · next upper =>
      have between : 65 ≤ c.toNat ∧ c.toNat ≤ 90 := upper
      have sum : (c.val + 32).toNat = (c.toNat + 32) % 2 ^ 32 := UInt32.toNat_add _ _
      rw [if_pos between]
      exact sum.trans (Nat.mod_eq_of_lt (by omega))
  · next other => exact (if_neg other).symm

def ofClass (is : List Char → Bool) : Language Char := {subtag | is subtag = true}

theorem mem_ofClass_iff {is : List Char → Bool} {subtag : List Char} :
    subtag ∈ ofClass is ↔ is subtag = true := Iff.rfl

theorem letter_eq : letter = among Char.isAlpha := by
  unfold letter range
  rw [among_add]
  congr 1
  funext c
  delta Char.isAlpha Char.isUpper Char.isLower
  simp [UInt32.le_iff_toNat_le]

theorem digit_eq : digit = among Char.isDigit := by
  unfold digit range
  congr 1

theorem letterOrDigit_eq : letterOrDigit = among Char.isAlphanum := by
  rw [letterOrDigit, letter_eq, digit_eq, among_add]
  rfl

theorem repeated_letter {least greatest : Nat} :
    repeated least greatest letter = ofClass (isAlphabetic least greatest) := by
  ext subtag
  rw [letter_eq, mem_repeated_among_iff, mem_ofClass_iff]
  simp [isAlphabetic]

theorem repeated_letterOrDigit {least greatest : Nat} :
    repeated least greatest letterOrDigit = ofClass (isAlphanumeric least greatest) := by
  ext subtag
  rw [letterOrDigit_eq, mem_repeated_among_iff, mem_ofClass_iff]
  simp [isAlphanumeric]

theorem region_eq : region = ofClass isRegion := by
  ext subtag
  have three : (3 ≤ subtag.length ∧ subtag.length ≤ 3) ↔ subtag.length = 3 := by omega
  rw [region, repeated_letter, digit_eq, Language.mem_add, mem_repeated_among_iff, three,
    mem_ofClass_iff, mem_ofClass_iff, isRegion, Bool.or_eq_true, Bool.and_eq_true, beq_iff_eq]

theorem variant_eq : variant = ofClass isVariant := by
  ext subtag
  rw [variant, repeated_letterOrDigit, repeated_letterOrDigit, digit_eq, Language.mem_add,
    mem_ofClass_iff, mem_ofClass_iff, isVariant, Bool.or_eq_true]
  refine or_congr_right ?_
  cases subtag with
  | nil => exact iff_of_false nil_notMem_among_mul (by simp)
  | cons c rest =>
      rw [cons_mem_among_mul_iff, mem_ofClass_iff]
      simp only [isAlphanumeric, Char.isAlphanum, List.length_cons, List.all_cons, List.head?_cons,
        Option.map_some, Option.getD_some, Bool.and_eq_true, Bool.or_eq_true, decide_eq_true_eq]
      grind

theorem singleton_eq_among :
    singleton = among fun c => c.isAlphanum && !(c == 'x' || c == 'X') := by
  have lower (c : Char) : (c = 'x') ↔ (c.toNat = 120) := Char.toNat_inj.symm
  have upper (c : Char) : (c = 'X') ↔ (c.toNat = 88) := Char.toNat_inj.symm
  unfold singleton digit range
  simp only [among_add]
  congr 1
  funext c
  rw [Bool.eq_iff_iff]
  delta Char.isAlphanum Char.isAlpha Char.isUpper Char.isLower Char.isDigit
  simp [UInt32.le_iff_toNat_le, lower, upper]
  omega

theorem singleton_eq : singleton = ofClass isSingleton := by
  ext subtag
  rw [singleton_eq_among, mem_among_iff, mem_ofClass_iff]
  constructor
  · rintro ⟨c, belongs, rfl⟩
    simpa [isSingleton, isAlphanumeric, isPrivateMark] using belongs
  · intro single
    obtain ⟨c, rfl⟩ := List.length_eq_one_iff.mp (length_of_singleton single)
    refine ⟨c, ?_, rfl⟩
    simpa [isSingleton, isAlphanumeric, isPrivateMark] using single

theorem mark_eq : quoted "x" = ofClass isPrivateMark := by
  have lower (c : Char) : c.toLower = 'x' ↔ c = 'x' ∨ c = 'X' := by
    rw [← Char.toNat_inj, ← Char.toNat_inj, ← Char.toNat_inj, toNat_toLower]
    simp only [Char.reduceToNat]
    split <;> omega
  ext subtag
  rw [mem_ofClass_iff]
  change subtag.map Char.toLower = ['x'] ↔ _
  rw [List.map_eq_singleton_iff]
  simp only [lower, isPrivateMark, Bool.or_eq_true, beq_iff_eq]
  grind

theorem mem_hyphen_iff {word : List Char} : word ∈ hyphen ↔ word = ['-'] := by
  have lower (c : Char) : c.toLower = '-' ↔ c = '-' := by
    rw [← Char.toNat_inj, ← Char.toNat_inj, toNat_toLower]
    simp only [Char.reduceToNat]
    split <;> omega
  change word.map Char.toLower = ['-'] ↔ _
  rw [List.map_eq_singleton_iff]
  simp only [lower, exists_eq_right]

/-! ### Subtags joined by hyphens -/

theorem intercalate_cons_eq {first : List Char} {rest : List (List Char)} :
    ['-'].intercalate (first :: rest) = first ++ rest.flatMap ('-' :: ·) := by
  induction rest generalizing first with
  | nil => simp
  | cons second rest ih => simp [List.intercalate_cons_cons, ih]

/-- Subtags in a row, each of them behind a hyphen. -/
def spelled : Language (List Char) →+* Language Char where
  toFun words := (List.flatMap ('-' :: ·)) '' words
  map_zero' := Set.image_empty _
  map_one' := Set.image_singleton
  map_add' := Set.image_union _
  map_mul' _ _ := Set.image_image2_distrib fun _ _ => List.flatMap_append

/-- Subtags in a row, with hyphens between them. -/
def joined (words : Language (List Char)) : Language Char := ['-'].intercalate '' words

theorem joined_add {one two : Language (List Char)} :
    joined (one + two) = joined one + joined two := Set.image_union _ _ _

theorem joined_among_mul {is : List Char → Bool} {words : Language (List Char)} :
    joined (among is * words) = ofClass is * spelled words := by
  ext text
  constructor
  · rintro ⟨_, ⟨_, ⟨first, belongs, rfl⟩, rest, member, rfl⟩, rfl⟩
    exact ⟨first, belongs, _, ⟨rest, member, rfl⟩, intercalate_cons_eq.symm⟩
  · rintro ⟨first, belongs, _, ⟨rest, member, rfl⟩, rfl⟩
    exact ⟨first :: rest, ⟨[first], ⟨first, belongs, rfl⟩, rest, member, rfl⟩,
      intercalate_cons_eq⟩

theorem spelled_among {is : List Char → Bool} :
    spelled (among is) = hyphen * ofClass is := by
  ext text
  constructor
  · rintro ⟨_, ⟨subtag, belongs, rfl⟩, rfl⟩
    exact ⟨['-'], mem_hyphen_iff.mpr rfl, subtag, belongs, by simp⟩
  · rintro ⟨mark, isHyphen, subtag, belongs, rfl⟩
    obtain rfl := mem_hyphen_iff.mp isHyphen
    exact ⟨[subtag], ⟨subtag, belongs, rfl⟩, by simp⟩

theorem spelled_kstar {words : Language (List Char)} : spelled words∗ = (spelled words)∗ := by
  rw [Language.kstar_eq_iSup_pow, Language.kstar_eq_iSup_pow]
  simp only [← map_pow]
  exact Set.image_iUnion

theorem spelled_optional {words : Language (List Char)} :
    spelled (optional words) = optional (spelled words) := by
  rw [optional, map_add, map_one, optional]

theorem spelled_several {words : Language (List Char)} :
    spelled (several words) = several (spelled words) := by
  rw [several, map_mul, spelled_kstar, several]

theorem spelled_repeated {greatest : Nat} {words : Language (List Char)} :
    spelled (repeated 0 greatest words) = repeated 0 greatest (spelled words) := by
  induction greatest with
  | zero => rw [repeated_zero, repeated_zero, map_one]
  | succ greatest ih => rw [repeated_succ, spelled_optional, map_mul, ih, repeated_succ]

theorem privateUse_eq : privateUse = joined privateTag := by
  rw [privateTag, joined_among_mul, privatePart, spelled_several, spelled_among,
    ← repeated_letterOrDigit, ← mark_eq, privateUse]

theorem spelled_privateTag : spelled privateTag = hyphen * privateUse := by
  rw [privateUse_eq, privateTag, joined_among_mul, map_mul, spelled_among, mul_assoc]

theorem spelled_extensionPart : spelled extensionPart = hyphen * extension := by
  rw [extensionPart, map_mul, spelled_several, spelled_among, spelled_among, ← singleton_eq,
    ← repeated_letterOrDigit, extension, mul_assoc]

theorem spelled_tail :
    spelled tail = optional (hyphen * script) * optional (hyphen * region) *
      (hyphen * variant)∗ * (hyphen * extension)∗ * optional (hyphen * privateUse) := by
  simp only [tail, placed, variants, ending, map_mul, spelled_optional, spelled_kstar,
    spelled_among, spelled_extensionPart, spelled_privateTag, script, repeated_letter, region_eq,
    variant_eq, mul_assoc]

theorem spelled_extended :
    spelled (repeated 0 3 (among (isAlphabetic 3 3))) = optional (hyphen * extendedLanguage) := by
  rw [repeated_succ, spelled_optional, map_mul, spelled_repeated, spelled_among,
    ← repeated_letter, extendedLanguage, mul_assoc]

theorem long_language_eq :
    repeated 4 4 letter + repeated 5 8 letter = ofClass (isAlphabetic 4 8) := by
  ext subtag
  rw [repeated_letter, repeated_letter, Language.mem_add, mem_ofClass_iff, mem_ofClass_iff,
    mem_ofClass_iff]
  simp only [isAlphabetic, Bool.and_eq_true, decide_eq_true_eq, ← or_and_right]
  exact and_congr_left fun _ => by omega

theorem regularTag_eq : regularTag = joined tagged := by
  rw [tagged, joined_add, joined_among_mul, joined_among_mul, map_mul, spelled_extended,
    ← long_language_eq, ← repeated_letter, ← mul_assoc, ← add_mul, ← add_assoc, spelled_tail,
    regularTag, language]
  simp only [mul_assoc]

end RdfMapping.LanguageTag
