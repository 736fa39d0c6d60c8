import Mathlib.Data.List.TakeWhile
import RdfMapping.Proofs.LanguageTag.Grammar
/-!
The grammar of language tags over whole subtags. A tag is read from left to right, and each part
takes all the subtags it can have. No part that may follow begins with one of these, so nothing
that the grammar derives is lost, and the tags that are read are those that it derives.
-/

namespace RdfMapping.LanguageTag

open scoped Computability

/-! ### The first letter of a word -/

section

variable {α : Type} {is : α → Bool} {kind : α → Prop} {left right : Language α}

theorem nil_notMem_among_mul : [] ∉ among is * right := by
  rintro ⟨_, ⟨a, _, rfl⟩, rest, _, whole⟩
  cases whole

theorem cons_mem_among_mul_iff {a : α} {rest : List α} :
    a :: rest ∈ among is * right ↔ is a = true ∧ rest ∈ right := by
  constructor
  · rintro ⟨_, ⟨a, belongs, rfl⟩, rest, member, whole⟩
    cases whole
    exact ⟨belongs, member⟩
  · rintro ⟨belongs, member⟩
    exact ⟨[a], ⟨a, belongs, rfl⟩, rest, member, rfl⟩

/-- The words of a language begin with letters of one kind only. -/
def StartsIn (kind : α → Prop) (words : Language α) : Prop := ∀ a rest, a :: rest ∈ words → kind a

theorem StartsIn.mono {other : α → Prop} (starts : StartsIn kind left)
    (wider : ∀ a, kind a → other a) : StartsIn other left :=
  fun a rest member => wider a (starts a rest member)

theorem startsIn_one : StartsIn kind (1 : Language α) := by
  intro a rest member
  cases member

theorem startsIn_among_mul : StartsIn (fun a => is a = true) (among is * right) :=
  fun _ _ member => (cons_mem_among_mul_iff.mp member).1

theorem StartsIn.add (one : StartsIn kind left) (two : StartsIn kind right) :
    StartsIn kind (left + right) := by
  rintro a rest (member | member)
  · exact one a rest member
  · exact two a rest member

theorem StartsIn.mul (one : StartsIn kind left) (two : StartsIn kind right) :
    StartsIn kind (left * right) := by
  rintro a rest ⟨word, member, others, follow, whole⟩
  cases word with
  | nil =>
      obtain rfl : others = a :: rest := whole
      exact two a rest follow
  | cons b more =>
      obtain ⟨rfl, -⟩ := List.cons.inj whole
      exact one b more member

theorem StartsIn.kstar (starts : StartsIn kind left) : StartsIn kind left∗ := by
  intro a rest member
  obtain ⟨words, whole, each⟩ := Language.mem_kstar_iff_exists_nonempty.mp member
  cases words with
  | nil => cases whole
  | cons word others =>
      obtain ⟨belongs, nonempty⟩ := each word List.mem_cons_self
      obtain ⟨b, more, rfl⟩ := List.exists_cons_of_ne_nil nonempty
      obtain ⟨rfl, -⟩ := List.cons.inj whole
      exact starts a more belongs

theorem optional_mul : optional left * right = right + left * right := by
  rw [optional, add_mul, one_mul]

theorem kstar_mul_eq : left∗ * right = right + left * (left∗ * right) := by
  conv_lhs => rw [← Language.one_add_self_mul_kstar_eq_kstar]
  rw [add_mul, one_mul, mul_assoc]

theorem repeated_zero : repeated 0 0 left = 1 := by
  ext word
  constructor
  · rintro ⟨count, _, upper, member⟩
    obtain rfl : count = 0 := by omega
    exact member
  · intro member
    exact ⟨0, le_refl 0, le_refl 0, member⟩

theorem repeated_succ {greatest : Nat} :
    repeated 0 (greatest + 1) left = optional (left * repeated 0 greatest left) := by
  ext word
  constructor
  · rintro ⟨count, _, upper, member⟩
    cases count with
    | zero => exact Or.inl member
    | succ count =>
        rw [pow_succ'] at member
        obtain ⟨one, belongs, rest, others, rfl⟩ := member
        exact Or.inr ⟨one, belongs, rest, ⟨count, by omega, by omega, others⟩, rfl⟩
  · rintro (empty | ⟨one, belongs, rest, ⟨count, _, upper, others⟩, rfl⟩)
    · exact ⟨0, by omega, by omega, empty⟩
    · refine ⟨count + 1, by omega, by omega, ?_⟩
      rw [pow_succ']
      exact ⟨one, belongs, rest, others, rfl⟩

theorem optional_eq_repeated : optional left = repeated 0 1 left := by
  rw [repeated_succ, repeated_zero, mul_one]

theorem startsIn_among : StartsIn (fun a => is a = true) (among is) := by
  rintro a rest ⟨b, belongs, whole⟩
  cases whole
  exact belongs

theorem StartsIn.notMem (apart : StartsIn (fun a => is a = false) right) {a : α} {rest : List α}
    (belongs : is a = true) : a :: rest ∉ right := by
  intro member
  rw [apart a rest member] at belongs
  cases belongs

/-- Reading all letters of a class loses nothing where no such letter may follow. -/
theorem mem_kstar_among_mul_iff (apart : StartsIn (fun a => is a = false) right) {word : List α} :
    word ∈ (among is)∗ * right ↔ word.dropWhile is ∈ right := by
  induction word with
  | nil =>
      rw [kstar_mul_eq, Language.mem_add]
      exact or_iff_left nil_notMem_among_mul
  | cons a rest ih =>
      rw [kstar_mul_eq, Language.mem_add, cons_mem_among_mul_iff, ih]
      cases belongs : is a with
      | true =>
          rw [List.dropWhile_cons_of_pos belongs]
          simp [apart.notMem belongs]
      | false =>
          rw [List.dropWhile_cons_of_neg (by simp [belongs])]
          simp

theorem mem_kstar_among_iff {word : List α} : word ∈ (among is)∗ ↔ word.all is = true := by
  rw [← mul_one (among is)∗, mem_kstar_among_mul_iff startsIn_one, Language.mem_one,
    List.dropWhile_eq_nil_iff, List.all_eq_true]

end

/-! ### Reading subtags -/

section

variable {is : List Char → Bool} {follows : Language (List Char)} {subtags : List (List Char)}

theorem mem_repeated_among_mul_iff (apart : StartsIn (fun subtag => is subtag = false) follows)
    {greatest : Nat} :
    subtags ∈ repeated 0 greatest (among is) * follows ↔
      dropUpTo is greatest subtags ∈ follows := by
  induction greatest generalizing subtags with
  | zero => rw [repeated_zero, one_mul, dropUpTo]
  | succ greatest ih =>
      rw [repeated_succ, optional_mul, mul_assoc, Language.mem_add]
      cases subtags with
      | nil => exact or_iff_left nil_notMem_among_mul
      | cons subtag rest =>
          rw [cons_mem_among_mul_iff, ih, dropUpTo]
          cases belongs : is subtag with
          | true => simp [apart.notMem belongs]
          | false => simp

theorem dropOne_eq_dropUpTo : dropOne is subtags = dropUpTo is 1 subtags := by
  cases subtags with
  | nil => rfl
  | cons subtag rest => rw [dropOne, dropUpTo, dropUpTo]

theorem mem_optional_among_mul_iff (apart : StartsIn (fun subtag => is subtag = false) follows) :
    subtags ∈ optional (among is) * follows ↔ dropOne is subtags ∈ follows := by
  rw [optional_eq_repeated, mem_repeated_among_mul_iff apart, dropOne_eq_dropUpTo]

end

/-! ### The parts of a tag -/

def privatePart : Language (List Char) := several (among (isAlphanumeric 1 8))

def privateTag : Language (List Char) := among isPrivateMark * privatePart

def extensionPart : Language (List Char) :=
  among isSingleton * several (among (isAlphanumeric 2 8))

def ending : Language (List Char) := extensionPart∗ * optional privateTag

def variants : Language (List Char) := (among isVariant)∗ * ending

def placed : Language (List Char) := optional (among isRegion) * variants

def tail : Language (List Char) := optional (among (isAlphabetic 4 4)) * placed

def tagged : Language (List Char) :=
  among (isAlphabetic 2 3) * (repeated 0 3 (among (isAlphabetic 3 3)) * tail) +
    among (isAlphabetic 4 8) * tail

/-! ### Parts that may follow -/

theorem isDigit_eq_false_of_isAlpha {c : Char} (isLetter : c.isAlpha = true) :
    c.isDigit = false := by
  delta Char.isAlpha Char.isUpper Char.isLower at isLetter
  delta Char.isDigit
  grind

theorem length_of_singleton {subtag : List Char} (single : isSingleton subtag = true) :
    subtag.length = 1 := by
  simp only [isSingleton, isAlphanumeric, Bool.and_eq_true, decide_eq_true_eq] at single
  omega

theorem length_of_privateMark {mark : List Char} (isMark : isPrivateMark mark = true) :
    mark.length = 1 := by
  simp only [isPrivateMark, Bool.or_eq_true, beq_iff_eq] at isMark
  rcases isMark with rfl | rfl <;> rfl

theorem length_of_alphabetic {least greatest : Nat} {subtag : List Char}
    (letters : isAlphabetic least greatest subtag = true) :
    least ≤ subtag.length ∧ subtag.length ≤ greatest := by
  simp only [isAlphabetic, Bool.and_eq_true, decide_eq_true_eq] at letters
  exact letters.1

theorem length_of_alphanumeric {least greatest : Nat} {subtag : List Char}
    (given : isAlphanumeric least greatest subtag = true) :
    least ≤ subtag.length ∧ subtag.length ≤ greatest := by
  simp only [isAlphanumeric, Bool.and_eq_true, decide_eq_true_eq] at given
  exact given.1

theorem length_of_variant {subtag : List Char} (given : isVariant subtag = true) :
    4 ≤ subtag.length := by
  simp only [isVariant, Bool.or_eq_true, Bool.and_eq_true] at given
  rcases given with long | ⟨four, _⟩
  · have := length_of_alphanumeric long
    omega
  · exact (length_of_alphanumeric four).1

theorem length_of_region {subtag : List Char} (given : isRegion subtag = true) :
    subtag.length = 2 ∨ subtag.length = 3 := by
  simp only [isRegion, Bool.or_eq_true, Bool.and_eq_true, beq_iff_eq] at given
  rcases given with letters | ⟨three, _⟩
  · have := length_of_alphabetic letters
    omega
  · exact Or.inr three

theorem not_script_of_variant {subtag : List Char} (given : isVariant subtag = true) :
    isAlphabetic 4 4 subtag = false := by
  refine Bool.eq_false_iff.mpr fun script => ?_
  have length := length_of_alphabetic script
  simp only [isVariant, isAlphanumeric, Bool.or_eq_true, Bool.and_eq_true,
    decide_eq_true_eq] at given
  rcases given with long | ⟨_, digit⟩
  · omega
  · obtain ⟨c, rest, rfl⟩ := List.exists_cons_of_length_pos (by omega : 0 < subtag.length)
    simp only [isAlphabetic, List.all_cons, Bool.and_eq_true] at script
    rw [List.head?_cons, Option.map_some, Option.getD_some,
      isDigit_eq_false_of_isAlpha script.2.1] at digit
    cases digit

theorem not_extended_of_region {subtag : List Char} (given : isRegion subtag = true) :
    isAlphabetic 3 3 subtag = false := by
  refine Bool.eq_false_iff.mpr fun extended => ?_
  have length := length_of_alphabetic extended
  simp only [isRegion, Bool.or_eq_true, Bool.and_eq_true] at given
  rcases given with letters | ⟨_, digits⟩
  · have := length_of_alphabetic letters
    omega
  · obtain ⟨c, rest, rfl⟩ := List.exists_cons_of_length_pos (by omega : 0 < subtag.length)
    simp only [isAlphabetic, List.all_cons, Bool.and_eq_true] at extended digits
    rw [isDigit_eq_false_of_isAlpha extended.2.1] at digits
    cases digits.1

theorem startsIn_ending : StartsIn (fun subtag => subtag.length = 1) ending := by
  refine (StartsIn.kstar ?_).mul (startsIn_one.add ?_)
  · exact startsIn_among_mul.mono fun _ => length_of_singleton
  · exact startsIn_among_mul.mono fun _ => length_of_privateMark

theorem startsIn_variants :
    StartsIn (fun subtag => subtag.length = 1 ∨ isVariant subtag = true) variants :=
  (startsIn_among.kstar.mono fun _ => Or.inr).mul (startsIn_ending.mono fun _ => Or.inl)

theorem startsIn_placed :
    StartsIn (fun subtag => subtag.length = 1 ∨ isVariant subtag = true ∨ isRegion subtag = true)
      placed :=
  (startsIn_one.add (startsIn_among.mono fun _ => Or.inr ∘ Or.inr)).mul
    (startsIn_variants.mono fun _ => Or.imp_right Or.inl)

theorem startsIn_tail :
    StartsIn (fun subtag => subtag.length = 1 ∨ 4 ≤ subtag.length ∨ isRegion subtag = true)
      tail := by
  refine (startsIn_one.add (startsIn_among.mono ?_)).mul (startsIn_placed.mono ?_)
  · intro subtag script
    exact Or.inr (Or.inl (length_of_alphabetic script).1)
  · rintro subtag (one | variant | region)
    · exact Or.inl one
    · exact Or.inr (Or.inl (length_of_variant variant))
    · exact Or.inr (Or.inr region)

/-! ### What is read -/

theorem mem_privatePart_iff {subtags : List (List Char)} :
    subtags ∈ privatePart ↔ isPrivatePart subtags = true := by
  unfold privatePart several isPrivatePart
  cases subtags with
  | nil => exact iff_of_false nil_notMem_among_mul (by simp)
  | cons subtag rest =>
      rw [cons_mem_among_mul_iff, mem_kstar_among_iff]
      simp

/-- An extension takes all the subtags that are long enough, up to the next single character. -/
theorem cons_mem_extensions_iff {mark : List Char} {rest : List (List Char)} :
    mark :: rest ∈ extensionPart * ending ↔
      isSingleton mark = true ∧ ∃ subtag more, rest = subtag :: more ∧
        isAlphanumeric 2 8 subtag = true ∧ more.dropWhile (isAlphanumeric 2 8) ∈ ending := by
  have apart : StartsIn (fun subtag => isAlphanumeric 2 8 subtag = false) ending := by
    refine startsIn_ending.mono fun subtag one => ?_
    exact Bool.eq_false_iff.mpr (mt length_of_alphanumeric (by omega))
  unfold extensionPart several
  rw [mul_assoc, mul_assoc, cons_mem_among_mul_iff]
  refine and_congr_right fun _ => ?_
  cases rest with
  | nil =>
      refine iff_of_false nil_notMem_among_mul ?_
      rintro ⟨subtag, more, whole, _⟩
      cases whole
  | cons subtag more =>
      rw [cons_mem_among_mul_iff, mem_kstar_among_mul_iff apart]
      simp

theorem cons_mem_ending_iff {mark : List Char} {rest : List (List Char)} :
    mark :: rest ∈ ending ↔
      (isPrivateMark mark = true ∧ isPrivatePart rest = true) ∨
        mark :: rest ∈ extensionPart * ending := by
  have unfolded : ending = optional privateTag + extensionPart * ending := kstar_mul_eq
  have notEmpty : mark :: rest ∉ (1 : Language (List Char)) := List.cons_ne_nil mark rest
  conv_lhs => rw [unfolded]
  rw [Language.mem_add, optional, Language.mem_add, or_iff_right notEmpty, privateTag,
    cons_mem_among_mul_iff, mem_privatePart_iff]

theorem mem_ending_iff {subtags : List (List Char)} :
    subtags ∈ ending ↔ isEnding subtags = true := by
  induction subtags using isEnding.induct with
  | case1 =>
      have empty : [] ∈ ending := ⟨[], Language.nil_mem_kstar _, [], Or.inl rfl, rfl⟩
      exact iff_of_true empty (by rw [isEnding])
  | case2 mark rest isMark =>
      have notSingle : isSingleton mark = false := by simp [isSingleton, isMark]
      rw [cons_mem_ending_iff, cons_mem_extensions_iff, isEnding.eq_def]
      simp [isMark, notSingle]
  | case3 mark rest notMark ih =>
      rw [cons_mem_ending_iff, cons_mem_extensions_iff, isEnding.eq_def]
      cases rest with
      | nil => simp [notMark]
      | cons subtag more =>
          have later : more.dropWhile (isAlphanumeric 2 8) ∈ ending ↔
              isEnding (more.dropWhile (isAlphanumeric 2 8)) = true := ih
          simp [notMark, later]

theorem mem_tail_iff {subtags : List (List Char)} : subtags ∈ tail ↔ isTail subtags = true := by
  have noVariant : StartsIn (fun subtag => isVariant subtag = false) ending := by
    refine startsIn_ending.mono fun subtag one => ?_
    exact Bool.eq_false_iff.mpr (mt length_of_variant (by omega))
  have noRegion : StartsIn (fun subtag => isRegion subtag = false) variants := by
    refine startsIn_variants.mono fun subtag starts => ?_
    have length : subtag.length = 1 ∨ 4 ≤ subtag.length := starts.imp_right length_of_variant
    exact Bool.eq_false_iff.mpr (mt length_of_region (by omega))
  have noScript : StartsIn (fun subtag => isAlphabetic 4 4 subtag = false) placed := by
    refine startsIn_placed.mono fun subtag starts => ?_
    rcases starts with one | variant | region
    · exact Bool.eq_false_iff.mpr (mt length_of_alphabetic (by omega))
    · -- Both may have four characters, but such a variant begins with a digit.
      exact not_script_of_variant variant
    · have length := length_of_region region
      exact Bool.eq_false_iff.mpr (mt length_of_alphabetic (by omega))
  rw [tail, mem_optional_among_mul_iff noScript, placed, mem_optional_among_mul_iff noRegion,
    variants, mem_kstar_among_mul_iff noVariant, mem_ending_iff, isTail]

/-- The subtags that are read as a tag are those that the grammar derives. -/
theorem mem_tagged_iff {subtags : List (List Char)} :
    subtags ∈ tagged ↔ isLanguageTag subtags = true := by
  have noExtended : StartsIn (fun subtag => isAlphabetic 3 3 subtag = false) tail := by
    refine startsIn_tail.mono fun subtag starts => ?_
    rcases starts with one | long | region
    · exact Bool.eq_false_iff.mpr (mt length_of_alphabetic (by omega))
    · exact Bool.eq_false_iff.mpr (mt length_of_alphabetic (by omega))
    · -- A region of three characters has digits only.
      exact not_extended_of_region region
  cases subtags with
  | nil =>
      refine iff_of_false ?_ Bool.false_ne_true
      rintro (member | member)
      · exact nil_notMem_among_mul member
      · exact nil_notMem_among_mul member
  | cons language rest =>
      rw [tagged, Language.mem_add, cons_mem_among_mul_iff, cons_mem_among_mul_iff,
        mem_repeated_among_mul_iff noExtended, mem_tail_iff, mem_tail_iff, isLanguageTag]
      cases short : isAlphabetic 2 3 language with
      | true =>
          have length := length_of_alphabetic short
          have notLong : isAlphabetic 4 8 language = false :=
            Bool.eq_false_iff.mpr (mt length_of_alphabetic (by omega))
          simp [notLong]
      | false => simp

end RdfMapping.LanguageTag
