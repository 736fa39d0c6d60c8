import RdfMapping.Proofs.LanguageTag.Spelling
/-!
The language tags that are accepted. They are the tags of the grammar, in every case of their
letters, but for the irregular tags, which are accepted as they are registered only.
-/

namespace RdfMapping.LanguageTag

open scoped Computability

/-! ### The case of letters -/

/-- No word is told apart from its spelling in lower case. -/
def Caseless (words : Language Char) : Prop := ∀ word, word.map Char.toLower ∈ words ↔ word ∈ words

section

variable {left right : Language Char}

theorem caseless_one : Caseless 1 := fun _ => List.map_eq_nil_iff

theorem Caseless.add (one : Caseless left) (two : Caseless right) : Caseless (left + right) :=
  fun word => or_congr (one word) (two word)

theorem Caseless.mul (one : Caseless left) (two : Caseless right) : Caseless (left * right) := by
  intro word
  constructor
  · rintro ⟨first, member, second, follows, whole⟩
    obtain ⟨before, after, rfl, rfl, rfl⟩ := List.map_eq_append_iff.mp whole.symm
    exact ⟨before, (one before).mp member, after, (two after).mp follows, rfl⟩
  · rintro ⟨first, member, second, follows, rfl⟩
    rw [List.map_append]
    exact ⟨_, (one first).mpr member, _, (two second).mpr follows, rfl⟩

theorem Caseless.pow (each : Caseless left) (count : Nat) : Caseless (left ^ count) := by
  induction count with
  | zero => exact caseless_one
  | succ count ih =>
      rw [pow_succ]
      exact ih.mul each

theorem Caseless.repeated (each : Caseless left) (least greatest : Nat) :
    Caseless (repeated least greatest left) := fun word =>
  exists_congr fun count => and_congr_right fun _ => and_congr_right fun _ => each.pow count word

theorem Caseless.kstar (each : Caseless left) : Caseless left∗ := by
  intro word
  rw [Language.kstar_eq_iSup_pow, Language.mem_iSup, Language.mem_iSup]
  exact exists_congr fun count => each.pow count word

theorem Caseless.optional (one : Caseless left) : Caseless (optional left) := caseless_one.add one

theorem Caseless.several (each : Caseless left) : Caseless (several left) := each.mul each.kstar

theorem caseless_among {is : Char → Bool} (same : ∀ c, is c.toLower = is c) :
    Caseless (among is) := by
  intro word
  constructor
  · rintro ⟨c, belongs, whole⟩
    obtain ⟨d, rfl, rfl⟩ := List.map_eq_singleton_iff.mp whole
    exact ⟨d, same d ▸ belongs, rfl⟩
  · rintro ⟨c, belongs, rfl⟩
    exact ⟨c.toLower, (same c).trans belongs, rfl⟩

theorem caseless_quoted {text : String} : Caseless (quoted text) := by
  have lowered : Char.toLower ∘ Char.toLower = Char.toLower := by
    funext c
    rw [Function.comp_apply, ← Char.toNat_inj]
    simp only [toNat_toLower]
    grind
  intro word
  change (word.map Char.toLower).map Char.toLower = _ ↔ word.map Char.toLower = _
  rw [List.map_map, lowered]

/-- A language that does not tell cases apart has all spellings of a text, or none. -/
theorem Caseless.mem_iff_of_quoted (same : Caseless left) {text : String} {word : List Char}
    (spells : word ∈ quoted text) : word ∈ left ↔ text.toList ∈ left := by
  rw [← same word, ← same text.toList, spells]

end

/-! ### The rules -/

theorem caseless_digit : Caseless digit := by
  refine caseless_among fun c => ?_
  rw [toNat_toLower, Bool.eq_iff_iff]
  simp only [Bool.and_eq_true, decide_eq_true_eq]
  split <;> omega

theorem caseless_letter : Caseless letter := by
  unfold letter range
  rw [among_add]
  refine caseless_among fun c => ?_
  rw [toNat_toLower, Bool.eq_iff_iff]
  simp only [Bool.and_eq_true, Bool.or_eq_true, decide_eq_true_eq]
  split <;> omega

theorem caseless_singleton : Caseless singleton := by
  unfold singleton digit range
  simp only [among_add]
  refine caseless_among fun c => ?_
  rw [toNat_toLower, Bool.eq_iff_iff]
  simp only [Bool.and_eq_true, Bool.or_eq_true, decide_eq_true_eq]
  split <;> omega

theorem caseless_letterOrDigit : Caseless letterOrDigit := caseless_letter.add caseless_digit

theorem caseless_hyphen : Caseless hyphen := caseless_quoted

theorem caseless_language : Caseless language := by
  have extended : Caseless extendedLanguage :=
    (caseless_letter.repeated 3 3).mul
      ((caseless_hyphen.mul (caseless_letter.repeated 3 3)).repeated 0 2)
  exact (((caseless_letter.repeated 2 3).mul (caseless_hyphen.mul extended).optional).add
    (caseless_letter.repeated 4 4)).add (caseless_letter.repeated 5 8)

theorem caseless_region : Caseless region :=
  (caseless_letter.repeated 2 2).add (caseless_digit.repeated 3 3)

theorem caseless_variant : Caseless variant :=
  (caseless_letterOrDigit.repeated 5 8).add
    (caseless_digit.mul (caseless_letterOrDigit.repeated 3 3))

theorem caseless_extension : Caseless extension :=
  caseless_singleton.mul (caseless_hyphen.mul (caseless_letterOrDigit.repeated 2 8)).several

theorem caseless_privateUse : Caseless privateUse :=
  caseless_quoted.mul (caseless_hyphen.mul (caseless_letterOrDigit.repeated 1 8)).several

theorem caseless_regularTag : Caseless regularTag :=
  ((((caseless_language.mul (caseless_hyphen.mul (caseless_letter.repeated 4 4)).optional).mul
    (caseless_hyphen.mul caseless_region).optional).mul
      (caseless_hyphen.mul caseless_variant).kstar).mul
        (caseless_hyphen.mul caseless_extension).kstar).mul
          (caseless_hyphen.mul caseless_privateUse).optional

/-! ### Reading texts -/

theorem mem_joined_iff {words : Language (List Char)} {text : List Char}
    (proper : ∀ subtags ∈ words, subtags ≠ [] ∧ subtags.all NTriples.isSubtag = true) :
    text ∈ joined words ↔ text.splitOn '-' ∈ words := by
  constructor
  · rintro ⟨subtags, member, rfl⟩
    obtain ⟨nonempty, each⟩ := proper subtags member
    have unbroken : ∀ subtag ∈ subtags, '-' ∉ subtag := by
      intro subtag belongs within
      have isSubtag := List.all_eq_true.mp each subtag belongs
      simp only [NTriples.isSubtag, Bool.and_eq_true, List.all_eq_true] at isSubtag
      exact absurd (isSubtag.2 '-' within) (by decide)
    rwa [List.splitOn_intercalate '-' unbroken nonempty]
  · intro member
    exact ⟨_, member, List.intercalate_splitOn '-'⟩

theorem all_of_languageTag {subtags : List (List Char)} (given : isLanguageTag subtags = true) :
    subtags ≠ [] ∧ subtags.all NTriples.isSubtag = true := by
  cases subtags with
  | nil => cases given
  | cons language rest =>
      refine ⟨List.cons_ne_nil language rest, ?_⟩
      rw [isLanguageTag] at given
      rw [List.all_cons, Bool.and_eq_true]
      split at given
      · next short =>
          exact ⟨isSubtag_of_alphabetic (by decide) short,
            all_of_dropUpTo (fun _ => isSubtag_of_alphabetic (by decide)) (all_of_tail given)⟩
      · rw [Bool.and_eq_true] at given
        exact ⟨isSubtag_of_alphabetic (by decide) given.1, all_of_tail given.2⟩

theorem all_of_privateTag {subtags : List (List Char)} (member : subtags ∈ privateTag) :
    subtags ≠ [] ∧ subtags.all NTriples.isSubtag = true := by
  cases subtags with
  | nil => exact absurd member nil_notMem_among_mul
  | cons mark rest =>
      rw [privateTag, cons_mem_among_mul_iff, mem_privatePart_iff] at member
      refine ⟨List.cons_ne_nil mark rest, ?_⟩
      rw [List.all_cons, Bool.and_eq_true]
      exact ⟨isSubtag_of_alpha (alpha_of_privateMark member.1), all_of_privatePart member.2⟩

theorem mem_regularTag_iff {tag : String} :
    tag.toList ∈ regularTag ↔ isLanguageTag (subtags tag) = true := by
  rw [regularTag_eq, mem_joined_iff fun _ member => all_of_languageTag (mem_tagged_iff.mp member),
    mem_tagged_iff, subtags]

theorem mem_privateUse_iff {tag : String} :
    tag.toList ∈ privateUse ↔
      (match subtags tag with
        | mark :: rest => isPrivateMark mark && isPrivatePart rest
        | [] => false) = true := by
  rw [privateUse_eq, mem_joined_iff fun _ => all_of_privateTag, subtags]
  cases tag.toList.splitOn '-' with
  | nil => exact iff_of_false nil_notMem_among_mul Bool.false_ne_true
  | cons mark rest =>
      rw [privateTag, cons_mem_among_mul_iff, mem_privatePart_iff, Bool.and_eq_true]

/-! ### What is accepted -/

/-- The registered tags that fit the rules are accepted by them, in any case. -/
theorem mem_regularTag_of_regular {text : String} (known : text ∈ regular) {word : List Char}
    (spells : word ∈ quoted text) : word ∈ regularTag := by
  rw [caseless_regularTag.mem_iff_of_quoted spells, mem_regularTag_iff]
  clear spells
  revert text
  decide +kernel

theorem notMem_of_irregular {text : String} (known : text ∈ irregular) {word : List Char}
    (spells : word ∈ quoted text) : word ∉ regularTag + privateUse := by
  rw [(caseless_regularTag.add caseless_privateUse).mem_iff_of_quoted spells, Language.mem_add,
    mem_regularTag_iff, mem_privateUse_iff]
  clear spells
  revert text
  decide +kernel

theorem isValid_iff {tag : String} :
    isValid tag = true ↔ tag ∈ irregular ∨ tag.toList ∈ regularTag + privateUse := by
  have known : tag ∈ regular → tag.toList ∈ regularTag :=
    fun known => mem_regularTag_of_regular known rfl
  rw [isValid, Bool.or_eq_true, Bool.or_eq_true, List.contains_iff_mem, registered_eq,
    List.mem_append, ← mem_regularTag_iff, Language.mem_add]
  refine (or_congr_right mem_privateUse_iff.symm).trans ?_
  tauto

/-- Only irregular tags are told apart by the case of their letters. -/
theorem check_iff_of_spelling {tag other : String}
    (same : tag.toList.map Char.toLower = other.toList.map Char.toLower)
    (regular : ∀ text ∈ irregular, tag.toList ∉ quoted text) :
    check tag = .ok () ↔ check other = .ok () := by
  have unlisted : tag ∉ irregular ∧ other ∉ irregular :=
    ⟨fun known => regular tag known rfl, fun known => regular other known same⟩
  have caseless := caseless_regularTag.add caseless_privateUse
  rw [check_eq_ok_iff, check_eq_ok_iff, isValid_iff, isValid_iff, or_iff_right unlisted.1,
    or_iff_right unlisted.2, caseless.mem_iff_of_quoted same]

/-- A text is accepted when the grammar derives it, other than as an irregular tag in another
spelling than the registered one. -/
theorem check_eq_ok_iff_mem_languageTag {tag : String} :
    check tag = .ok () ↔
      tag.toList ∈ languageTag ∧ ∀ text ∈ irregular, tag.toList ∈ quoted text → tag = text := by
  have apart : ∀ one ∈ irregular, ∀ two ∈ irregular, one.toList ∈ quoted two → one = two := by
    change ∀ one ∈ irregular, ∀ two ∈ irregular,
      one.toList.map Char.toLower = two.toList.map Char.toLower → one = two
    decide +kernel
  rw [check_eq_ok_iff, isValid_iff]
  constructor
  · rintro (known | derived)
    · exact ⟨Or.inr (Or.inl ⟨tag, known, rfl⟩), apart tag known⟩
    · refine ⟨Or.inl derived, fun text known spells => ?_⟩
      exact absurd derived (notMem_of_irregular known spells)
  · rintro ⟨derived | ⟨text, known, spells⟩ | ⟨text, known, spells⟩, registered⟩
    · exact Or.inr derived
    · obtain rfl := registered text known spells
      exact Or.inl known
    · exact Or.inr (Or.inl (mem_regularTag_of_regular known spells))

theorem check_irregular_capitals :
    "I-KLINGON".toList ∈ languageTag ∧ check "I-KLINGON" ≠ .ok () ∧
      check "i-klingon" = .ok () := by
  refine ⟨Or.inr (Or.inl ⟨"i-klingon", by decide, ?_⟩), ?_, ?_⟩
  · change "I-KLINGON".toList.map Char.toLower = "i-klingon".toList.map Char.toLower
    decide
  · rw [Ne, check_eq_ok_iff]
    decide +kernel
  · rw [check_eq_ok_iff]
    decide +kernel

end RdfMapping.LanguageTag
