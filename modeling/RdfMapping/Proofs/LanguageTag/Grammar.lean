import Mathlib.Computability.Language
import RdfMapping.LanguageTag
/-!
The grammar of language tags of BCP 47, rule by rule. Letters are given in lower and in upper case,
and quoted texts match in any case, so that no rule tells the cases of letters apart.
-/

namespace RdfMapping.LanguageTag

open scoped Computability

/-! ### Notation -/

def among {α : Type} (is : α → Bool) : Language α := {word | ∃ a, is a = true ∧ word = [a]}

def range (least greatest : Nat) : Language Char :=
  among fun c => least ≤ c.toNat && c.toNat ≤ greatest

/-- A text in quotes, which stands for its spellings in any case. -/
def quoted (text : String) : Language Char :=
  {word | word.map Char.toLower = text.toList.map Char.toLower}

def repeated {α : Type} (least greatest : Nat) (item : Language α) : Language α :=
  {word | ∃ count, least ≤ count ∧ count ≤ greatest ∧ word ∈ item ^ count}

def optional {α : Type} (item : Language α) : Language α := 1 + item

def oneOf (texts : List String) : Language Char := {word | ∃ text ∈ texts, word ∈ quoted text}

/-! ### Rules -/

def letter : Language Char := range 0x41 0x5A + range 0x61 0x7A

def digit : Language Char := range 0x30 0x39

def letterOrDigit : Language Char := letter + digit

def hyphen : Language Char := quoted "-"

def extendedLanguage : Language Char :=
  repeated 3 3 letter * repeated 0 2 (hyphen * repeated 3 3 letter)

def language : Language Char :=
  repeated 2 3 letter * optional (hyphen * extendedLanguage) + repeated 4 4 letter +
    repeated 5 8 letter

def script : Language Char := repeated 4 4 letter

def region : Language Char := repeated 2 2 letter + repeated 3 3 digit

def variant : Language Char := repeated 5 8 letterOrDigit + digit * repeated 3 3 letterOrDigit

/-- Digits, and letters other than the private mark. -/
def singleton : Language Char :=
  digit + range 0x41 0x57 + range 0x59 0x5A + range 0x61 0x77 + range 0x79 0x7A

def several {α : Type} (item : Language α) : Language α := item * item∗

def extension : Language Char := singleton * several (hyphen * repeated 2 8 letterOrDigit)

def privateUse : Language Char := quoted "x" * several (hyphen * repeated 1 8 letterOrDigit)

def regularTag : Language Char :=
  language * optional (hyphen * script) * optional (hyphen * region) * (hyphen * variant)∗ *
    (hyphen * extension)∗ * optional (hyphen * privateUse)

/-- Registered tags that do not fit the other rules. -/
def irregular : List String :=
  ["en-GB-oed", "i-ami", "i-bnn", "i-default", "i-enochian", "i-hak", "i-klingon", "i-lux",
   "i-mingo", "i-navajo", "i-pwn", "i-tao", "i-tay", "i-tsu", "sgn-BE-FR", "sgn-BE-NL",
   "sgn-CH-DE"]

/-- Registered tags that fit the other rules, but have another meaning. -/
def regular : List String :=
  ["art-lojban", "cel-gaulish", "no-bok", "no-nyn", "zh-guoyu", "zh-hakka", "zh-min",
   "zh-min-nan", "zh-xiang"]

def grandfathered : Language Char := oneOf irregular + oneOf regular

def languageTag : Language Char := regularTag + privateUse + grandfathered

theorem registered_eq : registered = irregular ++ regular := rfl

/-! ### Words of a rule -/

section

variable {α : Type}

theorem mem_among_iff {is : α → Bool} {word : List α} :
    word ∈ among is ↔ ∃ a, is a = true ∧ word = [a] := Iff.rfl

theorem among_add (one two : α → Bool) :
    among one + among two = among fun a => one a || two a := by
  ext word
  simp only [Language.mem_add, mem_among_iff, Bool.or_eq_true, or_and_right, exists_or]

theorem mem_among_pow_iff {is : α → Bool} {count : Nat} {word : List α} :
    word ∈ among is ^ count ↔ word.length = count ∧ word.all is = true := by
  induction count generalizing word with
  | zero =>
      rw [pow_zero, Language.mem_one, List.length_eq_zero_iff]
      constructor
      · rintro rfl
        exact ⟨rfl, rfl⟩
      · exact And.left
  | succ count ih =>
      rw [pow_succ', Language.mem_mul]
      constructor
      · rintro ⟨_, ⟨a, belongs, rfl⟩, rest, others, rfl⟩
        obtain ⟨length, each⟩ := ih.mp others
        exact ⟨by simp [length], by simp [belongs, each]⟩
      · rintro ⟨length, each⟩
        obtain ⟨a, rest, rfl⟩ := List.exists_cons_of_length_eq_add_one length
        rw [List.all_cons, Bool.and_eq_true] at each
        exact ⟨[a], ⟨a, each.1, rfl⟩, rest, ih.mpr ⟨Nat.succ.inj length, each.2⟩, rfl⟩

theorem mem_repeated_among_iff {is : α → Bool} {least greatest : Nat} {word : List α} :
    word ∈ repeated least greatest (among is) ↔
      (least ≤ word.length ∧ word.length ≤ greatest) ∧ word.all is = true := by
  constructor
  · rintro ⟨count, lower, upper, member⟩
    obtain ⟨rfl, each⟩ := mem_among_pow_iff.mp member
    exact ⟨⟨lower, upper⟩, each⟩
  · rintro ⟨⟨lower, upper⟩, each⟩
    exact ⟨word.length, lower, upper, mem_among_pow_iff.mpr ⟨rfl, each⟩⟩

end

end RdfMapping.LanguageTag
