import Mathlib.Data.List.TakeWhile
import RdfMapping.Text.Blank
import RdfMapping.Text.Numeral
import RdfMapping.Text.Search
/-!
Tokens of a text and how they are found again: the part before a mark, the parts between the
occurrences of another text, a text without blanks at its ends, and numbers in decimal
notation.
-/

namespace RdfMapping.Text

/-! ### Cutting -/

section Marks

variable {mark : Char}

theorem cutAt?_mark_cons (rest : List Char) : cutAt? [mark] (mark :: rest) = some ([], rest) := by
  rw [cutAt?, dropStart?, if_pos rfl, dropStart?]

theorem cutAt?_mark_cons_of_ne {c : Char} (apart : mark ≠ c) (rest : List Char) :
    cutAt? [mark] (c :: rest) =
      (cutAt? [mark] rest).map fun parts => (c :: parts.1, parts.2) := by
  rw [cutAt?, dropStart?, if_neg apart]

theorem cutAt?_mark {before : List Char} (absent : mark ∉ before) (after : List Char) :
    cutAt? [mark] (before ++ mark :: after) = some (before, after) := by
  induction before with
  | nil => exact cutAt?_mark_cons after
  | cons c before ih =>
      obtain ⟨apart, absentLater⟩ := not_or.mp (mt List.mem_cons.mpr absent)
      rw [List.cons_append, cutAt?_mark_cons_of_ne apart, ih absentLater]
      rfl

/-- A text is divided by a mark in one way only, if the part before it is without the mark. -/
theorem mark_unique {before after other rest : List Char} (absent : mark ∉ before)
    (alsoAbsent : mark ∉ other) (same : before ++ mark :: after = other ++ mark :: rest) :
    before = other ∧ after = rest := by
  have cut := cutAt?_mark absent after
  rw [same, cutAt?_mark alsoAbsent rest] at cut
  exact ⟨congrArg Prod.fst (Option.some.inj cut).symm, congrArg Prod.snd (Option.some.inj cut).symm⟩

end Marks

/-! ### Replacing -/

variable {needle : List Char}

theorem splitOn_of_none (proper : needle ≠ []) {text : List Char}
    (absent : cutAt? needle text = none) : splitOn needle text = [text] := by
  rw [splitOn, dif_neg proper, splitBetween]
  split
  · rfl
  · next found => rw [absent] at found; cases found

theorem splitOn_of_some (proper : needle ≠ []) {text before after : List Char}
    (cut : cutAt? needle text = some (before, after)) :
    splitOn needle text = before :: splitOn needle after := by
  rw [splitOn, dif_neg proper, splitBetween, splitOn, dif_neg proper]
  split
  · next absent => rw [cut] at absent; cases absent
  · next found =>
      rw [cut] at found
      cases found
      rfl

theorem splitOn_ne_nil (proper : needle ≠ []) (text : List Char) : splitOn needle text ≠ [] := by
  cases cut : cutAt? needle text with
  | none =>
      rw [splitOn_of_none proper cut]
      exact List.cons_ne_nil _ _
  | some parts =>
      rw [splitOn_of_some proper cut]
      exact List.cons_ne_nil _ _

theorem replaceAll_of_none (proper : needle ≠ []) {text : List Char}
    (absent : cutAt? needle text = none) (replacement : List Char) :
    replaceAll needle replacement text = text := by
  induction text with
  | nil => exact replaceAll_nil proper replacement
  | cons c rest ih =>
      by_cases starts : needle <+: c :: rest
      · obtain ⟨after, whole⟩ := starts
        rw [← whole, cutAt?_start proper] at absent
        cases absent
      · rw [cutAt?_cons starts, Option.map_eq_none_iff] at absent
        rw [replaceAll_cons proper replacement starts, ih absent]

theorem replaceAll_of_some (proper : needle ≠ []) {text before after : List Char}
    (cut : cutAt? needle text = some (before, after)) (replacement : List Char) :
    replaceAll needle replacement text =
      before ++ (replacement ++ replaceAll needle replacement after) := by
  induction text generalizing before with
  | nil =>
      rw [cutAt?, if_neg (by simpa using proper)] at cut
      cases cut
  | cons c rest ih =>
      by_cases starts : needle <+: c :: rest
      · obtain ⟨later, whole⟩ := starts
        rw [← whole, cutAt?_start proper] at cut
        cases cut
        rw [← whole, replaceAll_start proper, List.nil_append]
      · rw [cutAt?_cons starts] at cut
        obtain ⟨parts, inner, same⟩ := Option.map_eq_some_iff.mp cut
        cases same
        rw [replaceAll_cons proper replacement starts, ih inner, List.cons_append]

theorem join_cons (separator part : List Char) {parts : List (List Char)} (more : parts ≠ []) :
    join separator (part :: parts) = part ++ (separator ++ join separator parts) := by
  obtain ⟨next, later, rfl⟩ := List.exists_cons_of_ne_nil more
  rw [join, List.intercalate_cons_cons, List.append_assoc, join]

theorem join_singletons_concat (separator text : List Char) :
    join separator ((text.map fun c => [c]) ++ [[]]) = text.flatMap fun c => c :: separator := by
  induction text with
  | nil => rfl
  | cons c rest ih =>
      rw [List.map_cons, List.cons_append, join_cons separator [c] (List.concat_ne_nil _ _), ih,
        List.flatMap_cons]
      rfl

/-- To replace a text is to split at it and to join by the other one. -/
theorem join_splitOn (needle replacement text : List Char) :
    join replacement (splitOn needle text) = replaceAll needle replacement text := by
  by_cases proper : needle = []
  · rw [splitOn, dif_pos proper, replaceAll, dif_pos proper, List.cons_append,
      join_cons replacement [] (List.concat_ne_nil _ _), join_singletons_concat, List.nil_append]
  · cases cut : cutAt? needle text with
    | none =>
        rw [splitOn_of_none proper cut, replaceAll_of_none proper cut]
        exact List.append_nil text
    | some parts =>
        have shorter := length_lt_of_cutAt? proper cut
        rw [splitOn_of_some proper cut, replaceAll_of_some proper cut,
          join_cons replacement parts.1 (splitOn_ne_nil proper _),
          join_splitOn needle replacement parts.2]
termination_by text.length

theorem replaceAll_mark (mark : Char) (replacement text : List Char) :
    replaceAll [mark] replacement text =
      text.flatMap fun c => if c = mark then replacement else [c] := by
  have proper : [mark] ≠ [] := List.cons_ne_nil mark []
  induction text with
  | nil => exact replaceAll_nil proper replacement
  | cons c rest ih =>
      rw [List.flatMap_cons, ← ih]
      by_cases same : c = mark
      · rw [if_pos same, same]
        exact replaceAll_start proper replacement rest
      · have apart : ¬ [mark] <+: c :: rest := fun starts =>
          same (List.cons_prefix_cons.mp starts).1.symm
        rw [if_neg same, replaceAll_cons proper replacement apart]
        rfl

/-! ### Runs of a class of characters -/

theorem span_of_stop {among : Char → Bool} {run rest : List Char}
    (inside : ∀ c ∈ run, among c = true) (stops : ∀ c, rest.head? = some c → among c = false) :
    (run ++ rest).takeWhile among = run ∧ (run ++ rest).dropWhile among = rest := by
  rw [List.takeWhile_append_of_pos inside, List.dropWhile_append_of_pos inside]
  cases rest with
  | nil => exact ⟨List.append_nil _, rfl⟩
  | cons c further =>
      have other : ¬ among c = true := by
        rw [stops c rfl]
        exact Bool.false_ne_true
      rw [List.takeWhile_cons_of_neg other, List.dropWhile_cons_of_neg other]
      exact ⟨List.append_nil _, rfl⟩

/-! ### Trimming -/

theorem isBlank_of_visible {c : Char} (first : 0x20 < c.toNat) (last : c.toNat < 0x7F) :
    isBlank c = false := by
  simp only [isBlank, blankRanges, List.any_cons, List.any_nil, Bool.or_false,
    Bool.or_eq_false_iff, Bool.and_eq_false_iff, decide_eq_false_iff_not]
  omega

theorem isBlank_of_isDigit {c : Char} (digit : c.isDigit = true) : isBlank c = false := by
  simp only [Char.isDigit, Bool.and_eq_true, decide_eq_true_eq, ge_iff_le,
    UInt32.le_iff_toNat_le] at digit
  exact isBlank_of_visible (Nat.lt_of_lt_of_le (by decide) digit.1)
    (Nat.lt_of_le_of_lt digit.2 (by decide))

theorem trimEnd_append_of_visible {blank : Char → Bool} {c : Char} (visible : blank c = false)
    (before after : List Char) :
    trimEnd blank (before ++ c :: after) = before ++ c :: trimEnd blank after := by
  have stops : ¬ blank c = true := by
    rw [visible]
    exact Bool.false_ne_true
  rw [trimEnd, trimEnd, List.reverse_append, List.reverse_cons, List.append_assoc,
    List.dropWhile_append]
  split
  · next none =>
      rw [List.isEmpty_iff.mp none, List.singleton_append, List.dropWhile_cons_of_neg stops]
      simp
  · simp

theorem trimEnd_cons_of_visible {blank : Char → Bool} {c : Char} (visible : blank c = false)
    (text : List Char) : trimEnd blank (c :: text) = c :: trimEnd blank text :=
  trimEnd_append_of_visible visible [] text

theorem trim_cons_of_visible {blank : Char → Bool} {c : Char} (visible : blank c = false)
    (text : List Char) : trim blank (c :: text) = c :: trimEnd blank text := by
  have stops : ¬ blank c = true := by
    rw [visible]
    exact Bool.false_ne_true
  rw [trim, List.dropWhile_cons_of_neg stops, trimEnd_cons_of_visible visible]

theorem mem_of_mem_trimEnd {blank : Char → Bool} {text : List Char} {c : Char}
    (member : c ∈ trimEnd blank text) : c ∈ text := by
  have kept := (List.dropWhile_suffix blank).subset (List.mem_reverse.mp member)
  exact List.mem_reverse.mp kept

/-- Nothing is trimmed from the end of a text exactly if no blank stands there. -/
theorem trimEnd_eq_self_iff {blank : Char → Bool} {text : List Char} :
    trimEnd blank text = text ↔ ∀ c, text.getLast? = some c → blank c = false := by
  constructor
  · intro kept c last
    have stops := List.head?_dropWhile_not blank text.reverse
    rw [← List.reverse_reverse (text.reverse.dropWhile blank), ← trimEnd, kept,
      List.head?_reverse, last] at stops
    exact stops
  · intro last
    rcases List.eq_nil_or_concat text with rfl | ⟨before, final, rfl⟩
    · rfl
    · rw [List.concat_eq_append] at last ⊢
      exact trimEnd_concat_of_not blank before final (last final List.getLast?_concat)

theorem trim_of_visible {blank : Char → Bool} {text : List Char}
    (first : ∀ c, text.head? = some c → blank c = false)
    (last : ∀ c, text.getLast? = some c → blank c = false) : trim blank text = text := by
  have kept : text.dropWhile blank = text := by
    cases text with
    | nil => rfl
    | cons c rest =>
        apply List.dropWhile_cons_of_neg
        rw [first c rfl]
        exact Bool.false_ne_true
  rw [trim, kept, trimEnd_eq_self_iff.mpr last]

/-! ### Quotes -/

section Quotes

variable {mark : Char} (quote : mark = '\'' ∨ mark = '"')
include quote

theorem visible_of_quote : isBlank mark = false := by
  rcases quote with rfl | rfl
  · decide
  · decide

theorem trim_quoted (text : List Char) :
    trim isBlank (mark :: (text ++ [mark])) = mark :: (text ++ [mark]) := by
  have visible := visible_of_quote quote
  rw [trim_cons_of_visible visible, trimEnd_concat_of_not _ _ _ visible]

/-- A text in quotes of either kind is found again, whatever stands in it. -/
theorem unquote?_quoted (text : List Char) :
    (unquote? '\'' (mark :: (text ++ [mark]))).or (unquote? '"' (mark :: (text ++ [mark]))) =
      some text := by
  have unquoted : unquote? mark (mark :: (text ++ [mark])) = some text := by
    rw [unquote?, if_pos ⟨rfl, List.getLast?_concat⟩, List.dropLast_concat]
  rcases quote with rfl | rfl
  · rw [unquoted, Option.some_or]
  · have other : unquote? '\'' ('"' :: (text ++ ['"'])) = none := rfl
    rw [other, unquoted, Option.none_or]

/-- Quotes that are not closed by their own mark are no quotes. -/
theorem unquote?_unclosed {text : List Char} (unclosed : mark ∉ text) :
    (unquote? '\'' (mark :: text)).or (unquote? '"' (mark :: text)) = none := by
  have missed : unquote? mark (mark :: text) = none := by
    rw [unquote?, if_neg fun both => unclosed (List.mem_of_getLast? both.2)]
  rcases quote with rfl | rfl
  · have other : unquote? '"' ('\'' :: text) = none := rfl
    rw [missed, other, Option.none_or]
  · have other : unquote? '\'' ('"' :: text) = none := rfl
    rw [other, missed, Option.none_or]

end Quotes

/-! ### Numerals -/

theorem toList_numeral (number : Nat) : (toString number).toList = Nat.toDigits 10 number := by
  rw [Nat.toString_eq_ofList_toDigits, String.toList_ofList]

theorem isDigit_of_mem_numeral {number : Nat} {c : Char}
    (member : c ∈ (toString number).toList) : c.isDigit = true := by
  rw [toList_numeral] at member
  exact Nat.isDigit_of_mem_toDigits (by decide) (by decide) member

theorem numeral_eq_cons (number : Nat) : ∃ first rest,
    (toString number).toList = first :: rest ∧ first ≠ '-' ∧ first ≠ '+' := by
  obtain ⟨first, rest, whole⟩ := List.exists_cons_of_ne_nil (Nat.toDigits_ne_nil (n := number))
  rw [← toList_numeral] at whole
  have digit : first.isDigit = true :=
    isDigit_of_mem_numeral (whole.symm ▸ List.mem_cons_self)
  refine ⟨first, rest, whole, ?_, ?_⟩
  · intro same
    rw [same] at digit
    exact absurd digit (by decide)
  · intro same
    rw [same] at digit
    exact absurd digit (by decide)

theorem natural?_numeral (number : Nat) : natural? (toString number).toList = some number := by
  have digits : ∀ c ∈ (toString number).toList, c.isDigit = true :=
    fun c member => isDigit_of_mem_numeral member
  have value : Double.digitsValue ((toString number).toList.map digitValue) = number := by
    have denoted := Nat.ofDigitChars_ten_toDigits (n := number)
    rw [Nat.ofDigitChars_eq_foldl] at denoted
    rwa [toList_numeral, Double.digitsValue, List.foldl_map]
  have taken : takeDigits (toString number).toList =
      ((toString number).toList.map digitValue, []) := by
    rw [takeDigits, List.takeWhile_eq_self_iff.mpr digits, List.dropWhile_eq_nil_iff.mpr digits]
  obtain ⟨first, rest, whole, _⟩ := numeral_eq_cons number
  rw [whole] at taken value
  rw [natural?, whole, taken]
  exact congrArg some value

theorem numeral_injective {number other : Nat} (same : toString number = toString other) :
    number = other := by
  have denoted := natural?_numeral number
  rw [same, natural?_numeral] at denoted
  exact (Option.some.inj denoted).symm

theorem takeSign_numeral (number : Nat) :
    takeSign (toString number).toList = (false, (toString number).toList) := by
  obtain ⟨first, rest, whole, noMinus, noPlus⟩ := numeral_eq_cons number
  rw [whole, takeSign]
  · exact fun _ same => noMinus (List.cons.inj same).1
  · exact fun _ same => noPlus (List.cons.inj same).1

theorem index?_numeral {number : Nat} (small : number < Nat.pow 2 64) :
    index? (toString number).toList = some number := by
  obtain ⟨first, rest, whole, noMinus, _⟩ := numeral_eq_cons number
  have unsigned := takeSign_numeral number
  have denoted := natural?_numeral number
  rw [whole] at unsigned denoted ⊢
  rw [index?, unsigned, denoted]
  · exact Option.filter_some_pos (decide_eq_true small)
  · exact fun _ same => noMinus (List.cons.inj same).1

theorem integer?_numeral {number : Nat} (small : number < Nat.pow 2 63) :
    integer? (toString number).toList = some (number : Int) := by
  have kept : Option.filter (fun n => decide (n < Nat.pow 2 63)) (some number) = some number :=
    Option.filter_some_pos (decide_eq_true small)
  unfold integer?
  simp only [takeSign_numeral, natural?_numeral]
  rw [kept]
  rfl

theorem integer?_numeral_of_large {number : Nat} (large : ¬ number < Nat.pow 2 63) :
    integer? (toString number).toList = none := by
  have dropped : Option.filter (fun n => decide (n < Nat.pow 2 63)) (some number) = none :=
    Option.filter_some_neg (by simpa using large)
  unfold integer?
  simp only [takeSign_numeral, natural?_numeral]
  rw [dropped]
  rfl

theorem toList_toString_negSucc (before : Nat) :
    (toString (Int.negSucc before)).toList = '-' :: (toString (before + 1)).toList :=
  String.toList_append

theorem minus_or_isDigit_of_mem_toString {number : Int} {c : Char}
    (member : c ∈ (toString number).toList) : c = '-' ∨ c.isDigit = true := by
  cases number with
  | ofNat number => exact Or.inr (isDigit_of_mem_numeral member)
  | negSucc before =>
      rw [toList_toString_negSucc] at member
      rcases List.mem_cons.mp member with sign | digit
      · exact Or.inl sign
      · exact Or.inr (isDigit_of_mem_numeral digit)

theorem integer?_toString {number : Int} (least : -(Nat.pow 2 63 : Nat) ≤ number)
    (bound : number < (Nat.pow 2 63 : Nat)) : integer? (toString number).toList = some number := by
  cases number with
  | ofNat number => exact integer?_numeral (Int.ofNat_lt.mp bound)
  | negSucc before =>
      have small : before + 1 ≤ Nat.pow 2 63 := by
        generalize Nat.pow 2 63 = limit at least
        omega
      have kept : Option.filter (fun n => decide (n ≤ Nat.pow 2 63)) (some (before + 1)) =
          some (before + 1) := Option.filter_some_pos (decide_eq_true small)
      rw [toList_toString_negSucc]
      unfold integer?
      simp only [takeSign, natural?_numeral]
      rw [kept]
      rfl

theorem trim_numeral (number : Nat) :
    trim isBlank (toString number).toList = (toString number).toList :=
  trim_of_visible
    (fun _ first => isBlank_of_isDigit (isDigit_of_mem_numeral (List.mem_of_head? first)))
    (fun _ last => isBlank_of_isDigit (isDigit_of_mem_numeral (List.mem_of_getLast? last)))

end RdfMapping.Text
