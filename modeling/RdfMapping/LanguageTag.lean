import RdfMapping.Error
/-!
Language tags. A tag is a list of subtags joined by hyphens: a language with up
to three extensions of its own, then, each where it is wanted, a script, a region,
variants, extensions, each of them a singleton with further subtags, and a private
part. A tag may also be private as a whole, or one of the registered irregular
tags, which are known in their registered spelling only.
-/

namespace RdfMapping.LanguageTag

/-! ### Classes of subtags -/

def isAlphabetic (least greatest : Nat) (subtag : List Char) : Bool :=
  least ≤ subtag.length && subtag.length ≤ greatest && subtag.all Char.isAlpha

def isAlphanumeric (least greatest : Nat) (subtag : List Char) : Bool :=
  least ≤ subtag.length && subtag.length ≤ greatest && subtag.all Char.isAlphanum

def isRegion (subtag : List Char) : Bool :=
  isAlphabetic 2 2 subtag || (subtag.length == 3 && subtag.all Char.isDigit)

/-- A variant: five to eight letters or digits, or four of them that begin with a
digit. -/
def isVariant (subtag : List Char) : Bool :=
  isAlphanumeric 5 8 subtag ||
    (isAlphanumeric 4 4 subtag && (subtag.head?.map Char.isDigit).getD false)

def isPrivateMark (subtag : List Char) : Bool := subtag == ['x'] || subtag == ['X']

def isSingleton (subtag : List Char) : Bool :=
  isAlphanumeric 1 1 subtag && !isPrivateMark subtag

/-! ### The grammar -/

/-- The registered tags that the grammar does not derive, or gives another
meaning. -/
def registered : List String :=
  ["en-GB-oed", "i-ami", "i-bnn", "i-default", "i-enochian", "i-hak", "i-klingon",
   "i-lux", "i-mingo", "i-navajo", "i-pwn", "i-tao", "i-tay", "i-tsu", "sgn-BE-FR",
   "sgn-BE-NL", "sgn-CH-DE", "art-lojban", "cel-gaulish", "no-bok", "no-nyn",
   "zh-guoyu", "zh-hakka", "zh-min", "zh-min-nan", "zh-xiang"]

def dropOne (is : List Char → Bool) : List (List Char) → List (List Char)
  | [] => []
  | subtag :: rest => if is subtag then rest else subtag :: rest

/-- The subtags without at most `count` leading ones that belong to a class. -/
def dropUpTo (is : List Char → Bool) : Nat → List (List Char) → List (List Char)
  | 0, subtags => subtags
  | _ + 1, [] => []
  | count + 1, subtag :: rest =>
      if is subtag then dropUpTo is count rest else subtag :: rest

/-- What follows a private mark: at least one subtag, and all of them short
enough. -/
def isPrivatePart (subtags : List (List Char)) : Bool :=
  !subtags.isEmpty && subtags.all (isAlphanumeric 1 8)

def isEnding : List (List Char) → Bool
  | [] => true
  | mark :: rest =>
      if isPrivateMark mark then isPrivatePart rest
      else
        isSingleton mark &&
          match rest with
          | [] => false
          | subtag :: more =>
              isAlphanumeric 2 8 subtag && isEnding (more.dropWhile (isAlphanumeric 2 8))
termination_by subtags => subtags.length
decreasing_by
  have shorter := (List.dropWhile_suffix (isAlphanumeric 2 8) (l := more)).length_le
  simp
  omega

def isTail (subtags : List (List Char)) : Bool :=
  isEnding ((dropOne isRegion (dropOne (isAlphabetic 4 4) subtags)).dropWhile isVariant)

def isLanguageTag : List (List Char) → Bool
  | [] => false
  | language :: rest =>
      if isAlphabetic 2 3 language then isTail (dropUpTo (isAlphabetic 3 3) 3 rest)
      else isAlphabetic 4 8 language && isTail rest

def subtags (tag : String) : List (List Char) := tag.toList.splitOn '-'

def isValid (tag : String) : Bool :=
  registered.contains tag || isLanguageTag (subtags tag) ||
    match subtags tag with
    | mark :: rest => isPrivateMark mark && isPrivatePart rest
    | [] => false

def check (tag : String) : Outcome Unit :=
  if isValid tag then .ok () else .error (.invalidLanguageTag tag)

theorem check_eq_ok_iff {tag : String} : check tag = .ok () ↔ isValid tag = true := by
  unfold check
  split <;> simp_all

theorem check_eq_error {tag : String} (refused : check tag ≠ .ok ()) :
    check tag = .error (.invalidLanguageTag tag) := by
  unfold check at refused ⊢
  split
  · next valid => exact absurd (if_pos valid) refused
  · rfl

end RdfMapping.LanguageTag
