import RdfMapping.JsonPath
import RdfMapping.Proofs.Text.Tokens
/-!
Written locations. Names that are not plain stand in quotes, a backslash before each of their own
quotes; no two locations are written alike.
-/

namespace RdfMapping

namespace JsonKey

/-! ### Written links -/

def IsPlain (name : String) : Prop :=
  name.toList ≠ [] ∧ ∀ c ∈ name.toList, isPlainChar c = true

theorem isBlank_of_plain {c : Char} (plain : isPlainChar c = true) : Text.isBlank c = false := by
  delta isPlainChar Char.isAlphanum Char.isAlpha Char.isUpper Char.isLower Char.isDigit at plain
  simp only [Bool.or_eq_true, Bool.and_eq_true, decide_eq_true_eq, beq_iff_eq, ge_iff_le,
    UInt32.le_iff_toNat_le] at plain
  rcases plain with (((⟨first, last⟩ | ⟨first, last⟩) | ⟨first, last⟩) | rfl) | rfl
  case inr | inl.inr => decide
  all_goals
    exact Text.isBlank_of_visible (Nat.lt_of_lt_of_le (by decide) first)
      (Nat.lt_of_le_of_lt last (by decide))

instance (name : String) : Decidable (IsPlain name) :=
  decidable_of_iff (name.toList ≠ [] ∧ name.toList.all isPlainChar = true)
    (and_congr_right' List.all_eq_true)

/-- A name as it is written in quotes, a backslash before each of its own quotes. -/
def escapeQuotes (name : List Char) : List Char :=
  name.flatMap fun c => if c = '\'' then ['\\', '\''] else [c]

theorem escapeQuotes_quote (name : List Char) :
    escapeQuotes ('\'' :: name) = '\\' :: '\'' :: escapeQuotes name := rfl

theorem escapeQuotes_cons {c : Char} (noQuote : c ≠ '\'') (name : List Char) :
    escapeQuotes (c :: name) = c :: escapeQuotes name := by
  unfold escapeQuotes
  rw [List.flatMap_cons, if_neg noQuote]
  rfl

theorem escapeQuotes_append (first second : List Char) :
    escapeQuotes (first ++ second) = escapeQuotes first ++ escapeQuotes second :=
  List.flatMap_append

theorem escapeQuotes_of_no_quote {name : List Char} (noQuote : '\'' ∉ name) :
    escapeQuotes name = name := by
  induction name with
  | nil => rfl
  | cons c rest ih =>
      obtain ⟨apart, later⟩ := not_or.mp (mt List.mem_cons.mpr noQuote)
      rw [escapeQuotes_cons (Ne.symm apart), ih later]

theorem length_escapeQuotes (name : List Char) :
    (escapeQuotes name).length = name.length + name.count '\'' := by
  induction name with
  | nil => rfl
  | cons c rest ih =>
      by_cases same : c = '\''
      · rw [same, escapeQuotes_quote, List.count_cons_self]
        simp only [List.length_cons, ih]
        omega
      · rw [escapeQuotes_cons same, List.count_cons_of_ne same]
        simp only [List.length_cons, ih]
        omega

theorem escapeQuotes_ne_self {name : List Char} (quote : '\'' ∈ name) :
    escapeQuotes name ≠ name := by
  intro same
  have longer := length_escapeQuotes name
  have some := List.count_pos_iff.mpr quote
  rw [same] at longer
  omega

theorem not_mem_escapeQuotes {mark : Char} {name : List Char} (absent : mark ∉ name)
    (notWritten : mark ≠ '\\') : mark ∉ escapeQuotes name := by
  intro member
  obtain ⟨c, inName, written⟩ := List.mem_flatMap.mp member
  split at written
  · next same =>
      rcases List.mem_cons.mp written with backslash | quote
      · exact notWritten backslash
      · exact absent (List.mem_singleton.mp quote ▸ same ▸ inName)
  · exact absent (List.mem_singleton.mp written ▸ inName)

theorem render_member (name : String) :
    (member name).render.toList =
      if IsPlain name then '.' :: name.toList
      else '[' :: '\'' :: (escapeQuotes name.toList ++ ['\'', ']']) := by
  have test : (!name.isEmpty && name.toList.all isPlainChar) = decide (IsPlain name) := by
    rw [Bool.eq_iff_iff]
    simp [IsPlain]
  rw [render, test]
  by_cases plain : IsPlain name
  · rw [if_pos plain, if_pos (decide_eq_true plain), String.toList_append]
    rfl
  · rw [if_neg plain, if_neg (by simpa using plain), Text.replaceAll_mark]
    simp [escapeQuotes]

theorem render_index (position : Nat) :
    (index position).render.toList = '[' :: ((toString position).toList ++ [']']) := by
  rw [render, String.toList_append, String.toList_append]
  rfl

theorem render_cases (key : JsonKey) :
    (∃ name, key = .member name ∧ IsPlain name ∧ key.render.toList = '.' :: name.toList) ∨
    (∃ name, key = .member name ∧ ¬ IsPlain name ∧
      key.render.toList = '[' :: '\'' :: (escapeQuotes name.toList ++ ['\'', ']'])) ∨
    ∃ position, key = .index position ∧
      key.render.toList = '[' :: ((toString position).toList ++ [']']) := by
  cases key with
  | member name =>
      have written := render_member name
      by_cases plain : IsPlain name
      · rw [if_pos plain] at written
        exact Or.inl ⟨name, rfl, plain, written⟩
      · rw [if_neg plain] at written
        exact Or.inr (Or.inl ⟨name, rfl, plain, written⟩)
  | index position => exact Or.inr (Or.inr ⟨position, rfl, render_index position⟩)

theorem render_ne_nil (key : JsonKey) : key.render.toList ≠ [] := by
  rcases key.render_cases with ⟨_, _, _, written⟩ | ⟨_, _, _, written⟩ | ⟨_, _, written⟩
  all_goals
    rw [written]
    exact List.cons_ne_nil _ _

end JsonKey

namespace JsonLocation

open JsonKey (escapeQuotes IsPlain)

/-- The links of a location as they are written, without the root. -/
def chars (location : JsonLocation) : List Char := location.flatMap (·.render.toList)

theorem chars_cons (key : JsonKey) (rest : JsonLocation) :
    chars (key :: rest) = key.render.toList ++ chars rest := List.flatMap_cons

theorem toList_render (root : String) (location : JsonLocation) :
    (location.render root).toList = root.toList ++ location.chars := by
  rw [render]
  induction location generalizing root with
  | nil => exact (List.append_nil _).symm
  | cons key rest ih =>
      rw [List.foldl_cons, ih, chars_cons, String.toList_append, List.append_assoc]

theorem head?_chars {location : JsonLocation} {c : Char}
    (first : location.chars.head? = some c) : c = '.' ∨ c = '[' := by
  cases location with
  | nil => cases first
  | cons key rest =>
      rw [chars_cons] at first
      rcases key.render_cases with ⟨_, _, _, written⟩ | ⟨_, _, _, written⟩ | ⟨_, _, written⟩
      · rw [written] at first
        exact Or.inl (Option.some.inj first).symm
      · rw [written] at first
        exact Or.inr (Option.some.inj first).symm
      · rw [written] at first
        exact Or.inr (Option.some.inj first).symm

/-! ### No two locations are written alike -/

/-- Only a quote and a backslash tell where a name in quotes ends. -/
theorem escapeQuotes_of_cons {name rest tail : List Char} {c : Char} (notQuote : c ≠ '\'')
    (notBackslash : c ≠ '\\') (same : escapeQuotes name ++ '\'' :: tail = c :: rest) :
    ∃ later, name = c :: later ∧ escapeQuotes later ++ '\'' :: tail = rest := by
  cases name with
  | nil => exact absurd (List.cons.inj same).1.symm notQuote
  | cons d name =>
      by_cases quote : d = '\''
      · rw [quote, JsonKey.escapeQuotes_quote] at same
        exact absurd (List.cons.inj same).1.symm notBackslash
      · rw [JsonKey.escapeQuotes_cons quote] at same
        obtain ⟨equal, later⟩ := List.cons.inj same
        exact ⟨name, by rw [equal], later⟩

theorem escapeQuotes_of_append {name start rest tail : List Char} (noQuote : '\'' ∉ start)
    (noBackslash : '\\' ∉ start) (same : escapeQuotes name ++ '\'' :: tail = start ++ rest) :
    ∃ later, name = start ++ later ∧ escapeQuotes later ++ '\'' :: tail = rest := by
  induction start generalizing name with
  | nil => exact ⟨name, rfl, same⟩
  | cons c start ih =>
      obtain ⟨notQuote, noQuoteLater⟩ := not_or.mp (mt List.mem_cons.mpr noQuote)
      obtain ⟨notBackslash, noBackslashLater⟩ := not_or.mp (mt List.mem_cons.mpr noBackslash)
      obtain ⟨middle, whole, reads⟩ :=
        escapeQuotes_of_cons (Ne.symm notQuote) (Ne.symm notBackslash) same
      obtain ⟨later, wholeLater, readsLater⟩ := ih noQuoteLater noBackslashLater reads
      exact ⟨later, by rw [whole, wholeLater, List.cons_append], readsLater⟩

/-- A name in quotes does not begin with a closing quote. -/
theorem escapeQuotes_of_quote {name rest tail : List Char}
    (same : escapeQuotes name ++ '\'' :: tail = '\'' :: rest) : name = [] ∧ tail = rest := by
  cases name with
  | nil => exact ⟨rfl, (List.cons.inj same).2⟩
  | cons c name =>
      by_cases quote : c = '\''
      · rw [quote, JsonKey.escapeQuotes_quote] at same
        exact absurd (List.cons.inj same).1 (by decide)
      · rw [JsonKey.escapeQuotes_cons quote] at same
        exact absurd (List.cons.inj same).1 quote

theorem not_mem_plain {name : String} (plain : IsPlain name) {c : Char}
    (notPlain : JsonKey.isPlainChar c = false) : c ∉ name.toList := by
  intro member
  rw [plain.2 c member] at notPlain
  cases notPlain

theorem not_mem_numeral (position : Nat) {c : Char} (noDigit : c.isDigit = false) :
    c ∉ (toString position).toList := by
  intro member
  rw [Text.isDigit_of_mem_numeral member] at noDigit
  cases noDigit

/-- A quote that closes a name is not met again as one that opens a name: where a name would
reach into the next links, it would have to end at the quote that opens one of them, and the
name behind that quote would reach further in turn. -/
theorem quoted_ne_chars (name : List Char) (one two : JsonLocation) :
    escapeQuotes name ++ '\'' :: ']' :: one.chars ≠ two.chars := by
  induction links : one.length + two.length using Nat.strongRecOn generalizing name one two with
  | ind links ih =>
      intro same
      cases two with
      | nil => simp [chars] at same
      | cons key rest =>
          rw [List.length_cons] at links
          rw [chars_cons] at same
          rcases key.render_cases with
            ⟨plainName, _, plain, written⟩ | ⟨other, _, _, written⟩ | ⟨position, _, written⟩
          · have noQuote := not_mem_plain plain (c := '\'') (by decide)
            have noBackslash := not_mem_plain plain (c := '\\') (by decide)
            rw [written] at same
            obtain ⟨later, _, reads⟩ := escapeQuotes_of_append (by simpa using noQuote)
              (by simpa using noBackslash) same
            exact ih _ (by omega) later one rest rfl reads
          · rw [written] at same
            obtain ⟨later, _, reads⟩ := escapeQuotes_of_cons (by decide) (by decide) same
            have closing := (escapeQuotes_of_quote reads).2
            rw [List.append_eq, List.append_assoc] at closing
            obtain ⟨inside, _, further⟩ :=
              escapeQuotes_of_cons (by decide) (by decide) closing.symm
            exact ih (rest.length + one.length) (by omega) inside rest one rfl further
          · have noQuote := not_mem_numeral position (c := '\'') (by decide)
            have noBackslash := not_mem_numeral position (c := '\\') (by decide)
            rw [written] at same
            obtain ⟨later, _, reads⟩ := escapeQuotes_of_append (by simpa using noQuote)
              (by simpa using noBackslash) same
            exact ih _ (by omega) later one rest rfl reads

theorem quoted_unique {first second : List Char} {one two : JsonLocation}
    (same : escapeQuotes first ++ '\'' :: ']' :: one.chars =
      escapeQuotes second ++ '\'' :: ']' :: two.chars) :
    first = second ∧ one.chars = two.chars := by
  -- a backslash before a quote that closes one of the names, and belongs to the other one
  have apart : ∀ {inside closed : List Char} {one two : JsonLocation},
      '\'' :: (escapeQuotes inside ++ '\'' :: ']' :: one.chars) ≠
        escapeQuotes closed ++ '\'' :: ']' :: two.chars := by
    intro inside closed one two reads
    have closing := (escapeQuotes_of_quote reads.symm).2
    obtain ⟨later, _, further⟩ := escapeQuotes_of_cons (by decide) (by decide) closing.symm
    exact quoted_ne_chars later one two further
  induction first generalizing second with
  | nil =>
      obtain ⟨rfl, tails⟩ := escapeQuotes_of_quote same.symm
      exact ⟨rfl, (List.cons.inj tails).2.symm⟩
  | cons c first ih =>
      cases second with
      | nil =>
          obtain ⟨none, _⟩ := escapeQuotes_of_quote same
          cases none
      | cons d second =>
          by_cases quote : c = '\''
          · rw [quote, JsonKey.escapeQuotes_quote] at same
            by_cases alsoQuote : d = '\''
            · rw [alsoQuote, JsonKey.escapeQuotes_quote] at same
              obtain ⟨names, tails⟩ := ih (List.cons.inj (List.cons.inj same).2).2
              exact ⟨by rw [quote, alsoQuote, names], tails⟩
            · rw [JsonKey.escapeQuotes_cons alsoQuote] at same
              exact absurd (List.cons.inj same).2 apart
          · rw [JsonKey.escapeQuotes_cons quote] at same
            by_cases alsoQuote : d = '\''
            · rw [alsoQuote, JsonKey.escapeQuotes_quote] at same
              exact absurd (List.cons.inj same).2.symm apart
            · rw [JsonKey.escapeQuotes_cons alsoQuote] at same
              obtain ⟨equal, later⟩ := List.cons.inj same
              obtain ⟨names, tails⟩ := ih later
              exact ⟨by rw [equal, names], tails⟩

theorem span_chars {among : Char → Bool} {name : List Char} (inside : ∀ c ∈ name, among c = true)
    (noDot : among '.' = false) (noBracket : among '[' = false) (rest : JsonLocation) :
    (name ++ rest.chars).takeWhile among = name ∧
      (name ++ rest.chars).dropWhile among = rest.chars := by
  apply Text.span_of_stop inside
  intro c first
  rcases head?_chars first with rfl | rfl
  · exact noDot
  · exact noBracket

theorem plain_unique {name other : String} {one two : JsonLocation} (plain : IsPlain name)
    (alsoPlain : IsPlain other) (same : name.toList ++ one.chars = other.toList ++ two.chars) :
    name = other ∧ one.chars = two.chars := by
  obtain ⟨taken, left⟩ := span_chars plain.2 (by decide) (by decide) one
  obtain ⟨alsoTaken, alsoLeft⟩ := span_chars alsoPlain.2 (by decide) (by decide) two
  rw [same] at taken left
  exact ⟨String.toList_inj.mp (taken.symm.trans alsoTaken), left.symm.trans alsoLeft⟩

theorem index_unique {position other : Nat} {one two : JsonLocation}
    (same : (toString position).toList ++ ']' :: one.chars =
      (toString other).toList ++ ']' :: two.chars) :
    position = other ∧ one.chars = two.chars := by
  obtain ⟨numerals, tails⟩ := Text.mark_unique (not_mem_numeral position (by decide))
    (not_mem_numeral other (by decide)) same
  have denoted := Text.natural?_numeral position
  rw [numerals, Text.natural?_numeral other] at denoted
  exact ⟨(Option.some.inj denoted).symm, tails⟩

theorem quote_ne_numeral (position : Nat) (rest tail : List Char) :
    '\'' :: tail ≠ (toString position).toList ++ rest := by
  intro same
  obtain ⟨first, digits, whole, _⟩ := Text.numeral_eq_cons position
  rw [whole] at same
  have digit := @Text.isDigit_of_mem_numeral position first (whole ▸ List.mem_cons_self)
  rw [← (List.cons.inj same).1] at digit
  exact absurd digit (by decide)

theorem render_unique {key other : JsonKey} {one two : JsonLocation}
    (same : key.render.toList ++ one.chars = other.render.toList ++ two.chars) :
    key = other ∧ one.chars = two.chars := by
  rcases key.render_cases with
    ⟨name, rfl, plain, written⟩ | ⟨name, rfl, _, written⟩ | ⟨position, rfl, written⟩
  all_goals rcases other.render_cases with
    ⟨another, rfl, also, alsoWritten⟩ | ⟨another, rfl, _, alsoWritten⟩ | ⟨place, rfl, alsoWritten⟩
  all_goals rw [written, alsoWritten] at same
  all_goals
    simp only [List.cons_append, List.append_assoc, List.cons.injEq, List.nil_append] at same
  case inl.inl =>
    obtain ⟨names, tails⟩ := plain_unique plain also same.2
    exact ⟨by rw [names], tails⟩
  case inr.inl.inr.inl =>
    obtain ⟨names, tails⟩ := quoted_unique same.2.2
    exact ⟨by rw [String.toList_inj.mp names], tails⟩
  case inr.inl.inr.inr => exact absurd same.2 (quote_ne_numeral _ _ _)
  case inr.inr.inr.inl => exact absurd same.2.symm (quote_ne_numeral _ _ _)
  case inr.inr.inr.inr =>
    obtain ⟨positions, tails⟩ := index_unique same.2
    exact ⟨by rw [positions], tails⟩
  all_goals exact absurd same.1 (by decide)

theorem chars_injective {one two : JsonLocation} (same : one.chars = two.chars) : one = two := by
  induction one generalizing two with
  | nil =>
      cases two with
      | nil => rfl
      | cons key rest =>
          rw [chars_cons] at same
          exact absurd (List.append_eq_nil_iff.mp same.symm).1 key.render_ne_nil
  | cons key rest ih =>
      cases two with
      | nil =>
          rw [chars_cons] at same
          exact absurd (List.append_eq_nil_iff.mp same).1 key.render_ne_nil
      | cons other further =>
          rw [chars_cons, chars_cons] at same
          obtain ⟨keys, tails⟩ := render_unique same
          rw [keys, ih tails]

theorem render_injective (root : String) : Function.Injective (render root) := by
  intro one two same
  have written := congrArg String.toList same
  rw [toList_render, toList_render] at written
  exact chars_injective (List.append_cancel_left written)

end JsonLocation

end RdfMapping
