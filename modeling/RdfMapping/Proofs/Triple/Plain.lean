import RdfMapping.Proofs.Outcome
import RdfMapping.Proofs.Triple.ReadBack
import RdfMapping.Template
/-!
Texts that can be written as they are, whatever a row says. A language tag that is
accepted is a tag of the grammar, and a percent-encoded text has no character that must
not stand in an IRI; the expansions of a template are as good as its fixed parts.
-/

namespace RdfMapping

theorem IsPlain.append {first second : String} (one : IsPlain first) (two : IsPlain second) :
    IsPlain (first ++ second) := by
  unfold IsPlain
  rw [String.toList_append, List.forall_mem_append]
  exact ⟨one, two⟩

/-! ### Language tags -/

namespace LanguageTag

open NTriples

theorem isSubtag_of_alphanumeric {least greatest : Nat} {subtag : List Char} (some : 0 < least)
    (given : isAlphanumeric least greatest subtag = true) : isSubtag subtag = true := by
  unfold isAlphanumeric at given
  simp only [Bool.and_eq_true, decide_eq_true_eq] at given
  have nonempty : subtag ≠ [] := List.ne_nil_of_length_pos (by omega)
  simp [isSubtag, nonempty, given.2]

theorem alpha_of_alphabetic {least greatest : Nat} {subtag : List Char} (some : 0 < least)
    (given : isAlphabetic least greatest subtag = true) :
    subtag ≠ [] ∧ subtag.all Char.isAlpha = true := by
  unfold isAlphabetic at given
  simp only [Bool.and_eq_true, decide_eq_true_eq] at given
  exact ⟨List.ne_nil_of_length_pos (by omega), given.2⟩

theorem isSubtag_of_alpha {subtag : List Char}
    (given : subtag ≠ [] ∧ subtag.all Char.isAlpha = true) : isSubtag subtag = true := by
  obtain ⟨nonempty, letters⟩ := given
  rw [List.all_eq_true] at letters
  unfold isSubtag
  rw [Bool.and_eq_true, List.all_eq_true]
  refine ⟨by simp [nonempty], ?_⟩
  intro c member
  simp [Char.isAlphanum, letters c member]

theorem isSubtag_of_alphabetic {least greatest : Nat} {subtag : List Char} (some : 0 < least)
    (given : isAlphabetic least greatest subtag = true) : isSubtag subtag = true :=
  isSubtag_of_alpha (alpha_of_alphabetic some given)

theorem isSubtag_of_region {subtag : List Char} (given : isRegion subtag = true) :
    isSubtag subtag = true := by
  unfold isRegion at given
  rw [Bool.or_eq_true, Bool.and_eq_true, beq_iff_eq, List.all_eq_true] at given
  rcases given with letters | ⟨length, digits⟩
  · exact isSubtag_of_alphabetic (by decide) letters
  · have nonempty : subtag ≠ [] := List.ne_nil_of_length_pos (by omega)
    unfold isSubtag
    rw [Bool.and_eq_true, List.all_eq_true]
    refine ⟨by simp [nonempty], ?_⟩
    intro c member
    simp [Char.isAlphanum, digits c member]

theorem isSubtag_of_variant {subtag : List Char} (given : isVariant subtag = true) :
    isSubtag subtag = true := by
  unfold isVariant at given
  rw [Bool.or_eq_true, Bool.and_eq_true] at given
  rcases given with long | ⟨four, _⟩
  · exact isSubtag_of_alphanumeric (by decide) long
  · exact isSubtag_of_alphanumeric (by decide) four

theorem alpha_of_privateMark {mark : List Char} (given : isPrivateMark mark = true) :
    mark ≠ [] ∧ mark.all Char.isAlpha = true := by
  unfold isPrivateMark at given
  rw [Bool.or_eq_true, beq_iff_eq, beq_iff_eq] at given
  rcases given with lower | upper
  · rw [lower]
    decide
  · rw [upper]
    decide

section

variable {is : List Char → Bool} {subtags : List (List Char)}
  (each : ∀ subtag, is subtag = true → isSubtag subtag = true)
include each

theorem all_of_dropOne (later : (dropOne is subtags).all isSubtag = true) :
    subtags.all isSubtag = true := by
  cases subtags with
  | nil => rfl
  | cons subtag rest =>
      change (if is subtag then rest else subtag :: rest).all isSubtag = true at later
      split at later
      · next belongs =>
          rw [List.all_cons, each subtag belongs]
          exact later
      · exact later

theorem all_of_dropUpTo {count : Nat} (later : (dropUpTo is count subtags).all isSubtag = true) :
    subtags.all isSubtag = true := by
  induction subtags generalizing count with
  | nil => rfl
  | cons subtag rest ih =>
      cases count with
      | zero => exact later
      | succ count =>
          unfold dropUpTo at later
          split at later
          · next belongs =>
              rw [List.all_cons, each subtag belongs]
              exact ih later
          · exact later

theorem all_of_dropWhile (later : (subtags.dropWhile is).all isSubtag = true) :
    subtags.all isSubtag = true := by
  induction subtags with
  | nil => rfl
  | cons subtag rest ih =>
      rw [List.dropWhile_cons] at later
      split at later
      · next belongs =>
          rw [List.all_cons, each subtag belongs]
          exact ih later
      · exact later

end

theorem all_of_privatePart {subtags : List (List Char)} (given : isPrivatePart subtags = true) :
    subtags.all isSubtag = true := by
  unfold isPrivatePart at given
  rw [Bool.and_eq_true, List.all_eq_true] at given
  rw [List.all_eq_true]
  intro subtag member
  exact isSubtag_of_alphanumeric (by decide) (given.2 subtag member)

theorem all_of_ending {subtags : List (List Char)} (given : isEnding subtags = true) :
    subtags.all isSubtag = true := by
  induction subtags using isEnding.induct with
  | case1 => rfl
  | case2 mark rest isMark =>
      rw [isEnding.eq_def] at given
      simp only [isMark, if_true] at given
      rw [List.all_cons, isSubtag_of_alpha (alpha_of_privateMark isMark)]
      exact all_of_privatePart given
  | case3 mark rest notMark ih =>
      rw [isEnding.eq_def] at given
      simp only [notMark, if_false, Bool.and_eq_true, Bool.false_eq_true] at given
      obtain ⟨single, others⟩ := given
      rw [isSingleton, Bool.and_eq_true] at single
      cases rest with
      | nil => cases others
      | cons subtag more =>
          rw [Bool.and_eq_true] at others
          have later : (more.dropWhile (isAlphanumeric 2 8)).all isSubtag = true := ih others.2
          rw [List.all_cons, List.all_cons, isSubtag_of_alphanumeric (by decide) single.1,
            isSubtag_of_alphanumeric (by decide) others.1]
          exact all_of_dropWhile (fun _ => isSubtag_of_alphanumeric (by decide)) later

theorem all_of_tail {subtags : List (List Char)} (given : isTail subtags = true) :
    subtags.all isSubtag = true :=
  all_of_dropOne (fun _ => isSubtag_of_alphabetic (by decide))
    (all_of_dropOne (fun _ => isSubtag_of_region)
      (all_of_dropWhile (fun _ => isSubtag_of_variant) (all_of_ending given)))

theorem isTag_of_subtags {tag : String} {first : List Char} {rest : List (List Char)}
    (split : subtags tag = first :: rest)
    (letters : first ≠ [] ∧ first.all Char.isAlpha = true)
    (others : rest.all isSubtag = true) : isTag tag.toList = true := by
  unfold subtags at split
  unfold isTag
  rw [split]
  simp [letters.1, letters.2, others]

theorem isTag_of_check {tag : String} (accepted : check tag = .ok ()) :
    isTag tag.toList = true := by
  have valid := check_eq_ok_iff.mp accepted
  unfold isValid at valid
  rw [Bool.or_eq_true, Bool.or_eq_true] at valid
  rcases valid with (known | regular) | ofPrivate
  · have all : ∀ tag ∈ registered, isTag tag.toList = true := by decide +kernel
    exact all tag (List.contains_iff_mem.mp known)
  · cases split : subtags tag with
    | nil =>
        rw [split] at regular
        cases regular
    | cons language rest =>
        rw [split, isLanguageTag] at regular
        split at regular
        · next short =>
            exact isTag_of_subtags split (alpha_of_alphabetic (by decide) short)
              (all_of_dropUpTo (fun _ => isSubtag_of_alphabetic (by decide)) (all_of_tail regular))
        · rw [Bool.and_eq_true] at regular
          exact isTag_of_subtags split (alpha_of_alphabetic (by decide) regular.1)
            (all_of_tail regular.2)
  · cases split : subtags tag with
    | nil =>
        rw [split] at ofPrivate
        cases ofPrivate
    | cons mark rest =>
        rw [split, Bool.and_eq_true] at ofPrivate
        exact isTag_of_subtags split (alpha_of_privateMark ofPrivate.1)
          (all_of_privatePart ofPrivate.2)

end LanguageTag

/-! ### Percent-encoded texts -/

namespace Text

theorem isIriChar_of_unreserved {c : Char} (unreserved : isUnreserved c = true) :
    NTriples.isIriChar c = true := by
  have control : ∀ n < 0x21, isUnreserved (Char.ofNat n) = false := by decide
  have mark : "<>\"\x7b\x7d|^`\\".toList.all (fun d => !isUnreserved d) = true := by decide
  unfold NTriples.isIriChar
  rw [Bool.and_eq_true, decide_eq_true_eq, Bool.not_eq_true', ← Bool.not_eq_true,
    List.contains_iff_mem]
  constructor
  · by_contra small
    have refused := control c.toNat (by omega)
    rw [Char.ofNat_toNat, unreserved] at refused
    cases refused
  · intro member
    have refused := List.all_eq_true.mp mark c member
    rw [unreserved] at refused
    cases refused

theorem upperHexDigit_unreserved : ∀ n < 16, isUnreserved (upperHexDigit n) = true := by decide

theorem isPlain_percentEncode (text : String) : IsPlain (percentEncode text) := by
  unfold IsPlain
  rw [toList_percentEncode]
  intro d member
  obtain ⟨c, _, ofChar⟩ := List.mem_flatMap.mp member
  unfold encodeChar at ofChar
  split at ofChar
  · next unreserved =>
      rw [List.mem_singleton.mp ofChar]
      exact isIriChar_of_unreserved unreserved
  · obtain ⟨byte, _, ofByte⟩ := List.mem_flatMap.mp ofChar
    have bound := byte.toNat_lt
    unfold encodeByte at ofByte
    simp only [List.mem_cons, List.not_mem_nil, or_false] at ofByte
    rcases ofByte with percent | high | low
    · rw [percent]
      decide
    · rw [high]
      exact isIriChar_of_unreserved (upperHexDigit_unreserved _ (by omega))
    · rw [low]
      exact isIriChar_of_unreserved (upperHexDigit_unreserved _ (by omega))

end Text

/-! ### Templates -/

namespace Template

def FixedPlain (template : Template) : Prop :=
  ∀ segment ∈ template.segments, ∀ text, segment = .literal text → IsPlain text

/-- Every expansion begins with a fixed character, and not with that of blank nodes. -/
def NamesIris (template : Template) : Prop :=
  ∃ text rest c, template.segments = .literal text :: rest ∧ text.toList.head? = some c ∧ c ≠ '_'

/-- What is kept when the texts of segments are appended holds of all expansions. -/
theorem of_mem_expandFrom {encode : String → String} {values : String → Outcome (List String)}
    {holds : String → Prop} (segments : List Segment)
    (fixed : ∀ segment ∈ segments, ∀ text, segment = .literal text →
      ∀ start, holds start → holds (start ++ text))
    (encoded : ∀ start value, holds start → holds (start ++ encode value))
    {starts texts : List String} (all : ∀ start ∈ starts, holds start)
    (success : expandFrom encode values starts segments = .ok texts) :
    ∀ text ∈ texts, holds text := by
  induction segments generalizing starts with
  | nil =>
      rw [← Except.ok.inj success]
      exact all
  | cons segment rest ih =>
      obtain ⟨first, later⟩ := List.forall_mem_cons.mp fixed
      cases segment with
      | literal text =>
          refine ih later ?_ success
          intro longer member
          obtain ⟨start, startMember, same⟩ := List.mem_map.mp member
          rw [← same]
          exact first text rfl start (all start startMember)
      | reference selector =>
          obtain ⟨found, _, next⟩ := Outcome.bind_eq_ok.mp success
          dsimp only at next
          split at next
          · rw [← Except.ok.inj next]
            nofun
          · refine ih later ?_ next
            intro longer member
            obtain ⟨start, startMember, ofStart⟩ := List.mem_flatMap.mp member
            obtain ⟨substitution, substitutionMember, same⟩ := List.mem_map.mp ofStart
            obtain ⟨value, _, written⟩ := List.mem_map.mp substitutionMember
            rw [← same, ← written]
            exact encoded start value (all start startMember)

section

variable {template : Template} {values : String → Outcome (List String)} {texts : List String}
  (success : template.expand false values = .ok texts)
include success

theorem isPlain_of_mem_expand (plain : template.FixedPlain) : ∀ text ∈ texts, IsPlain text := by
  refine of_mem_expandFrom template.segments ?_ ?_ ?_ success
  · intro segment member text isLiteral start startPlain
    exact startPlain.append (plain segment member text isLiteral)
  · intro start value startPlain
    exact startPlain.append (Text.isPlain_percentEncode value)
  · exact List.forall_mem_singleton.mpr (by decide)

theorem head?_of_mem_expand (names : template.NamesIris) :
    ∀ text ∈ texts, ∃ c, text.toList.head? = some c ∧ c ≠ '_' := by
  obtain ⟨fixed, rest, c, segments, first, other⟩ := names
  have extended (start more : String) (head : start.toList.head? = some c) :
      (start ++ more).toList.head? = some c := by
    rw [String.toList_append, List.head?_append, head]
    rfl
  unfold expand at success
  rw [segments] at success
  intro text member
  refine ⟨c, ?_, other⟩
  revert text member
  refine of_mem_expandFrom rest ?_ ?_ ?_ success
  · intro _ _ text _ start
    exact extended start text
  · intro start value
    exact extended start _
  · intro start member
    rw [List.mem_singleton.mp member]
    change ("" ++ fixed).toList.head? = some c
    rw [String.empty_append]
    exact first

end

end Template

/-! ### Identifiers -/

namespace Term

def Names (id : String) : Prop := (ofId id).Writable

instance (id : String) : Decidable (Names id) := inferInstanceAs (Decidable (ofId id).Writable)

theorem isResource_ofId (id : String) : (ofId id).isResource = true := by
  unfold ofId
  split
  · rfl
  · rfl

theorem names_of_plain {id : String} (plain : IsPlain id) {c : Char}
    (first : id.toList.head? = some c) (other : c ≠ '_') : Names id := by
  unfold Names ofId
  split
  · next same =>
      rw [same] at first
      exact absurd (Option.some.inj first).symm other
  · exact plain

theorem names_of_mem_expand {template : Template} {values : String → Outcome (List String)}
    {texts : List String} (plain : template.FixedPlain) (names : template.NamesIris)
    (success : template.expand false values = .ok texts) : ∀ text ∈ texts, Names text := by
  intro text member
  obtain ⟨c, first, other⟩ := Template.head?_of_mem_expand success names text member
  exact names_of_plain (Template.isPlain_of_mem_expand success plain text member) first other

/-- A name with a character that is percent-encoded does not make a label. -/
theorem not_names_blankId {name : String} {c : Char} (member : c ∈ name.toList)
    (reserved : Text.isUnreserved c = false) : ¬ Names (blankId name) := by
  have percent : '%' ∈ (Text.percentEncode name).toList := by
    rw [Text.toList_percentEncode]
    refine List.mem_flatMap.mpr ⟨c, member, ?_⟩
    rw [Text.encodeChar_of_not_unreserved reserved]
    obtain ⟨byte, byteMember⟩ := List.exists_mem_of_ne_nil _ String.utf8EncodeChar_ne_nil
    exact List.mem_flatMap.mpr ⟨byte, byteMember, List.mem_cons_self⟩
  have isBlank : ofId (blankId name) = .blank (Text.percentEncode name) := by
    unfold ofId blankId blankMark
    simp
  unfold Names
  rw [isBlank]
  intro isLabel
  rcases NTriples.labelChar_of_mem isLabel '%' percent with start | inside
  · exact absurd start (by decide)
  · exact absurd inside (by decide)

end Term

end RdfMapping
