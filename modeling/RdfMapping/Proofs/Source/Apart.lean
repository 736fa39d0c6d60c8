import RdfMapping.Proofs.Source.Declarations
/-!
Declarations that stand apart in a text, with a blank in front of each. In whatever order they are
dropped, they do not get in each other's way.
-/

namespace RdfMapping.Xml.Document

open Text (isXmlBlank)

/-! ### Declarations without blanks -/

/-- Neither a quote nor a blank stands in the attribute or in its value. -/
structure IsUnspaced (entry : String × String) : Prop extends IsUnquoted entry where
  nameUnspaced : ∀ c ∈ entry.1.toList, isXmlBlank c = false
  valueUnspaced : ∀ c ∈ entry.2.toList, isXmlBlank c = false

section

variable {entry one two : String × String}

theorem IsUnspaced.chars (unspaced : IsUnspaced entry) :
    ∀ c ∈ declarationChars entry, isXmlBlank c = false := by
  rw [declarationChars_eq, opening]
  simp only [List.forall_mem_append, List.forall_mem_cons]
  exact ⟨⟨unspaced.nameUnspaced, by decide, nofun⟩, by decide, unspaced.valueUnspaced, by decide,
    nofun⟩

/-- Of two declarations, one begins another text only if it is the other one. -/
theorem eq_of_starts (unquoted : IsUnquoted one) (alsoUnquoted : IsUnquoted two)
    {rest : List Char} (starts : declarationChars one <+: declarationChars two ++ rest) :
    one = two := by
  obtain ⟨more, whole⟩ := starts
  simp only [declarationChars_eq, List.append_assoc, List.cons_append] at whole
  obtain ⟨names, later⟩ := Text.mark_unique unquoted.opening alsoUnquoted.opening whole
  have values := (Text.mark_unique unquoted.value alsoUnquoted.value later).1
  exact Prod.ext (String.toList_inj.mp (List.append_cancel_right names))
    (String.toList_inj.mp values)

/-- Nothing without blanks begins in a text that ends in a blank and goes on behind it. -/
theorem prefix_of_spaced (unspaced : IsUnspaced entry) {tail rest : List Char} {c : Char}
    (last : tail.getLast? = some c) (blank : isXmlBlank c = true)
    (starts : declarationChars entry <+: tail ++ rest) : declarationChars entry <+: tail := by
  rcases List.prefix_or_prefix_of_prefix starts (List.prefix_append tail rest) with within | longer
  · exact within
  · have refused := unspaced.chars c (longer.subset (List.mem_of_getLast? last))
    rw [blank] at refused
    cases refused

end

/-! ### Texts -/

/-- Each of the declarations has a blank in front of it wherever it stands in the text. -/
def StandApart (declarations : List (String × String)) (text : List Char) : Prop :=
  ∀ entry ∈ declarations, ∀ before after, text = before ++ (declarationChars entry ++ after) →
    ∃ c, before.getLast? = some c ∧ isXmlBlank c = true

def Unstarted (declarations : List (String × String)) (part rest : List Char) : Prop :=
  ∀ entry ∈ declarations, ∀ tail, tail <:+ part → tail ≠ [] →
    ¬ declarationChars entry <+: tail ++ rest

theorem exists_first (declarations : List (String × String)) (text : List Char) :
    (∀ entry ∈ declarations, ¬ declarationChars entry <:+: text) ∨
      ∃ entry ∈ declarations, ∃ before after,
        text = before ++ (declarationChars entry ++ after) ∧
          Unstarted declarations before (declarationChars entry ++ after) := by
  induction text with
  | nil => exact .inl fun entry _ => not_infix_of_unquoted List.not_mem_nil
  | cons c text ih =>
      by_cases here : ∃ entry ∈ declarations, declarationChars entry <+: c :: text
      · obtain ⟨entry, member, after, whole⟩ := here
        refine .inr ⟨entry, member, [], after, whole.symm, ?_⟩
        intro _ _ tail ends filled
        exact absurd (List.suffix_nil.mp ends) filled
      · rcases ih with none | ⟨entry, member, before, after, rfl, unstarted⟩
        · refine .inl fun entry member inside => ?_
          rcases List.infix_cons_iff.mp inside with starts | later
          · exact here ⟨entry, member, starts⟩
          · exact none entry member later
        · refine .inr ⟨entry, member, c :: before, after, rfl, ?_⟩
          intro other otherMember tail ends filled
          rcases List.suffix_cons_iff.mp ends with whole | within
          · rw [whole]
            exact fun starts => here ⟨other, otherMember, starts⟩
          · exact unstarted other otherMember tail within filled

section

variable {declarations : List (String × String)}

theorem getLast?_append_of_some (before : List Char) {after : List Char} {c : Char}
    (last : after.getLast? = some c) : (before ++ after).getLast? = some c := by
  rw [List.getLast?_append, last, Option.some_or]

theorem StandApart.later {entry : String × String} {before after : List Char}
    (apart : StandApart declarations (before ++ (declarationChars entry ++ after))) :
    StandApart declarations after := by
  rintro other member front rest rfl
  obtain ⟨c, last, blank⟩ :=
    apart other member (before ++ (declarationChars entry ++ front)) rest (by simp)
  rcases List.eq_nil_or_concat front with rfl | ⟨start, d, rfl⟩
  · rw [List.append_nil] at last
    have quote := getLast?_append_of_some before (endsQuoted_declarationChars entry)
    rw [last] at quote
    rw [Option.some.inj quote] at blank
    exact absurd blank (by decide)
  · refine ⟨c, ?_, blank⟩
    rw [List.concat_eq_append, List.getLast?_concat, ← last, List.concat_eq_append]
    simp

variable {one two : String × String}

theorem pass_blank (unspaced : IsUnspaced one) (member : one ∈ declarations)
    {before rest : List Char} {c : Char} (last : before.getLast? = some c)
    (blank : isXmlBlank c = true) (unstarted : Unstarted declarations before rest)
    (more : List Char) :
    Text.replaceAll (declarationChars one) [] (before ++ more) =
      before ++ Text.replaceAll (declarationChars one) [] more := by
  apply Text.replaceAll_append (declarationChars_ne_nil one)
  intro tail ends filled starts
  obtain ⟨front, rfl⟩ := ends
  rw [List.getLast?_append_of_ne_nil _ filled] at last
  have within := prefix_of_spaced unspaced last blank starts
  exact unstarted one member tail (List.suffix_append _ _) filled
    (within.trans (List.prefix_append tail rest))

theorem pass_other (each : ∀ entry ∈ declarations, IsUnspaced entry) (member : one ∈ declarations)
    (otherMember : two ∈ declarations) (differ : one ≠ two) {before after : List Char}
    (apart : StandApart declarations (before ++ (declarationChars two ++ after))) :
    Text.replaceAll (declarationChars one) [] (declarationChars two ++ after) =
      declarationChars two ++ Text.replaceAll (declarationChars one) [] after := by
  apply Text.replaceAll_append (declarationChars_ne_nil one)
  rintro tail ⟨front, whole⟩ filled starts
  rcases List.eq_nil_or_concat front with rfl | ⟨start, c, rfl⟩
  · rw [List.nil_append] at whole
    rw [whole] at starts
    exact differ (eq_of_starts (each one member).toIsUnquoted (each two otherMember).toIsUnquoted
      starts)
  · obtain ⟨rest, same⟩ := starts
    obtain ⟨d, last, blank⟩ := apart one member (before ++ start.concat c) rest (by
      rw [same, ← whole]
      simp)
    rw [List.concat_eq_append, ← List.append_assoc, List.getLast?_concat] at last
    have inside : c ∈ declarationChars two := by
      rw [← whole]
      simp
    rw [← Option.some.inj last, (each two otherMember).chars c inside] at blank
    cases blank

theorem drop_two_of_first (each : ∀ entry ∈ declarations, IsUnspaced entry)
    (member : one ∈ declarations) (otherMember : two ∈ declarations) (differ : one ≠ two)
    {before after : List Char}
    (apart : StandApart declarations (before ++ (declarationChars one ++ after)))
    (unstarted : Unstarted [one, two] before (declarationChars one ++ after))
    (later : Text.replaceAll (declarationChars one) []
        (Text.replaceAll (declarationChars two) [] after) =
      Text.replaceAll (declarationChars two) []
        (Text.replaceAll (declarationChars one) [] after)) :
    Text.replaceAll (declarationChars one) [] (Text.replaceAll (declarationChars two) []
        (before ++ (declarationChars one ++ after))) =
      Text.replaceAll (declarationChars two) [] (Text.replaceAll (declarationChars one) []
        (before ++ (declarationChars one ++ after))) := by
  obtain ⟨c, last, blank⟩ := apart one member before after rfl
  have passOne := pass_blank (each one member) (by simp) last blank unstarted
  have passTwo := pass_blank (each two otherMember) (by simp) last blank unstarted
  have start := Text.replaceAll_start (declarationChars_ne_nil one) []
  rw [passTwo, pass_other each otherMember member differ.symm apart, passOne, start, passOne,
    start, List.nil_append, List.nil_append, passTwo, later]

theorem length_after_lt (entry : String × String) (before after : List Char) :
    after.length < (before ++ (declarationChars entry ++ after)).length := by
  have positive := List.length_pos_iff.mpr (declarationChars_ne_nil entry)
  rw [List.length_append, List.length_append]
  omega

theorem drop_comm (each : ∀ entry ∈ declarations, IsUnspaced entry) (member : one ∈ declarations)
    (otherMember : two ∈ declarations) (differ : one ≠ two) {text : List Char}
    (apart : StandApart declarations text) :
    Text.replaceAll (declarationChars one) []
        (Text.replaceAll (declarationChars two) [] text) =
      Text.replaceAll (declarationChars two) []
        (Text.replaceAll (declarationChars one) [] text) := by
  induction length : text.length using Nat.strong_induction_on generalizing text with
  | h count ih =>
      rcases exists_first [one, two] text with none | ⟨entry, either, before, after, rfl, unstarted⟩
      · have keepOne := Text.replaceAll_of_absent (declarationChars_ne_nil one) []
          (none one (by simp))
        have keepTwo := Text.replaceAll_of_absent (declarationChars_ne_nil two) []
          (none two (by simp))
        rw [keepTwo, keepOne, keepTwo]
      · have later := ih _ (length ▸ length_after_lt entry before after) apart.later rfl
        rcases List.mem_pair.mp either with rfl | rfl
        · exact drop_two_of_first each member otherMember differ apart unstarted later
        · have swapped : Unstarted [entry, one] before (declarationChars entry ++ after) :=
            fun other otherEither => unstarted other (List.mem_pair.mpr (List.mem_pair.mp
              otherEither).symm)
          exact (drop_two_of_first each otherMember member differ.symm apart swapped
            later.symm).symm

/-- A declaration in front of one that is dropped has stood there before. -/
theorem stands_before (each : ∀ entry ∈ declarations, IsUnspaced entry)
    (member : one ∈ declarations) {front middle after rest : List Char} {c : Char}
    (apart : StandApart declarations (front ++ middle ++ (declarationChars two ++ after)))
    (last : (front ++ middle).getLast? = some c) (blank : isXmlBlank c = true)
    {left : List Char} (leftApart : StandApart declarations left)
    (split : declarationChars one ++ rest = middle ++ left) :
    ∃ c, front.getLast? = some c ∧ isXmlBlank c = true := by
  have filled : middle ≠ [] := by
    rintro rfl
    obtain ⟨_, impossible, _⟩ := leftApart one member [] rest split.symm
    cases impossible
  rw [List.getLast?_append_of_ne_nil _ filled] at last
  obtain ⟨tail, rfl⟩ := prefix_of_spaced (each one member) last blank ⟨rest, split⟩
  exact apart one member front (tail ++ (declarationChars two ++ after)) (by simp)

/-- What is dropped leaves the other declarations apart. -/
theorem StandApart.drop (each : ∀ entry ∈ declarations, IsUnspaced entry)
    (member : one ∈ declarations) {text : List Char} (apart : StandApart declarations text) :
    StandApart declarations (Text.replaceAll (declarationChars one) [] text) := by
  have proper := declarationChars_ne_nil one
  induction length : text.length using Nat.strong_induction_on generalizing text with
  | h count ih =>
      rcases exists_first [one] text with none | ⟨entry, same, before, after, rfl, unstarted⟩
      · rw [Text.replaceAll_of_absent proper [] (none one List.mem_cons_self)]
        exact apart
      · obtain rfl := List.mem_singleton.mp same
        have later := ih _ (length ▸ length_after_lt entry before after) apart.later rfl
        obtain ⟨c, last, blank⟩ := apart entry member before after rfl
        rw [pass_blank (each entry member) List.mem_cons_self last blank unstarted,
          Text.replaceAll_start proper, List.nil_append]
        intro other otherMember front rest whole
        rcases List.append_eq_append_iff.mp whole with ⟨middle, ends, split⟩ | ⟨middle, ends, split⟩
        · obtain ⟨d, lastOfMiddle, blankToo⟩ := later other otherMember middle rest split
          rw [ends]
          exact ⟨d, getLast?_append_of_some before lastOfMiddle, blankToo⟩
        · rw [ends] at apart last
          exact stands_before each otherMember apart last blank later split

/-- Declarations that stand apart leave the same text in whatever order they are dropped. -/
theorem dropDeclarations_of_perm (each : ∀ entry ∈ declarations, IsUnspaced entry)
    {listed others : List (String × String)} (perm : others.Perm listed)
    (within : ∀ entry ∈ listed, entry ∈ declarations) {text : List Char}
    (apart : StandApart declarations text) :
    dropDeclarations others text = dropDeclarations listed text := by
  induction perm generalizing text with
  | nil => rfl
  | cons entry _ ih =>
      obtain ⟨here, later⟩ := List.forall_mem_cons.mp within
      exact ih later (apart.drop each here)
  | swap one two rest =>
      obtain ⟨first, later⟩ := List.forall_mem_cons.mp within
      by_cases same : one = two
      · rw [same]
      · have swapped := drop_comm each first (List.forall_mem_cons.mp later).1 same apart
        rw [dropDeclarations_cons, dropDeclarations_cons, swapped]
        rfl
  | trans _ perm ihOne ihTwo =>
      rw [ihOne (fun entry member => within entry (perm.mem_iff.mp member)) apart,
        ihTwo within apart]

/-- The order in which the entries of a table are dropped matters for some text as soon as there
are two of them. It does not matter for texts in which they stand apart. -/
theorem dropDeclarations_order_iff (distinct : (declarations.map Prod.fst).Nodup)
    (unquoted : ∀ entry ∈ declarations, IsUnquoted entry) :
    ((∀ others, others.Perm declarations → ∀ text,
        dropDeclarations others text = dropDeclarations declarations text) ↔
      declarations.length ≤ 1) ∧
    ((∀ entry ∈ declarations, IsUnspaced entry) → ∀ text, StandApart declarations text →
      ∀ others, others.Perm declarations →
        dropDeclarations others text = dropDeclarations declarations text) := by
  refine ⟨⟨length_le_one_of_unordered distinct.of_map unquoted, ?_⟩, ?_⟩
  · intro few others perm text
    match declarations with
    | [] => rw [perm.eq_nil]
    | [entry] => rw [List.perm_singleton.mp perm]
  · intro unspaced text apart others perm
    exact dropDeclarations_of_perm unspaced perm (fun _ member => member) apart

end

/-! ### Namespaces -/

instance (entry : String × String) : Decidable (IsUnquoted entry) :=
  decidable_of_iff ('"' ∉ entry.1.toList ∧ '"' ∉ entry.2.toList)
    ⟨fun both => ⟨both.1, both.2⟩, fun unquoted => ⟨unquoted.name, unquoted.value⟩⟩

instance (entry : String × String) : Decidable (IsUnspaced entry) :=
  decidable_of_iff (IsUnquoted entry ∧ entry.1.toList.any isXmlBlank = false ∧
      entry.2.toList.any isXmlBlank = false) (by
    simp only [List.any_eq_false, Bool.not_eq_true]
    exact ⟨fun all => ⟨all.1, all.2.1, all.2.2⟩,
      fun unspaced => ⟨unspaced.toIsUnquoted, unspaced.nameUnspaced, unspaced.valueUnspaced⟩⟩)

theorem standApart_iff {declarations : List (String × String)} {text : List Char} :
    StandApart declarations text ↔ ∀ entry ∈ declarations, ∀ start ≤ text.length,
      declarationChars entry <+: text.drop start →
        ((text.take start).getLast?.any isXmlBlank) = true := by
  simp only [Option.any_eq_true]
  constructor
  · rintro apart entry member start _ ⟨after, whole⟩
    exact apart entry member (text.take start) after (by rw [whole, List.take_append_drop])
  · rintro apart entry member before after rfl
    simpa using apart entry member before.length (by simp) (by simp)

instance (declarations : List (String × String)) (text : List Char) :
    Decidable (StandApart declarations text) := decidable_of_iff _ standApart_iff.symm

/-- Two namespaces, and a document that declares them. -/
def namespaces : List (String × String) := [("xmlns", "u"), ("xmlns:x", "v")]

def declaring : List Char := "<r xmlns:x=\"v\" xmlns=\"u\"/>".toList

theorem dropDeclarations_order_namespaces :
    (namespaces.map Prod.fst).Nodup ∧ (∀ entry ∈ namespaces, IsUnspaced entry) ∧
      StandApart namespaces declaring ∧
      dropDeclarations namespaces.reverse declaring = dropDeclarations namespaces declaring ∧
      ¬ ∀ others, others.Perm namespaces → ∀ text,
        dropDeclarations others text = dropDeclarations namespaces text := by
  have distinct : (namespaces.map Prod.fst).Nodup := by decide
  have unspaced : ∀ entry ∈ namespaces, IsUnspaced entry := by decide
  have apart : StandApart namespaces declaring := by decide +kernel
  obtain ⟨few, steady⟩ := dropDeclarations_order_iff distinct
    fun entry member => (unspaced entry member).toIsUnquoted
  refine ⟨distinct, unspaced, apart, ?_, ?_⟩
  · exact steady unspaced declaring apart _ (List.reverse_perm namespaces)
  · exact fun unordered => absurd (few.mp unordered) (by decide)

/-- Two texts of which each is a declaration in another one. -/
def crossed : List Char :=
  "<r><i x='b=a=\"1\"\"1\"'/><i x='a=b=\"1\"\"1\"'/></r>".toList

theorem dropDeclarations_crossed :
    dropDeclarations [("a", "1"), ("b", "1")] crossed =
        "<r><i x=''/><i x='a=\"1\"'/></r>".toList ∧
      dropDeclarations [("b", "1"), ("a", "1")] crossed =
        "<r><i x='b=\"1\"'/><i x=''/></r>".toList ∧
      dropDeclarations [("a", "1"), ("b", "1")] crossed ≠
        dropDeclarations [("b", "1"), ("a", "1")] crossed := by
  have first : dropDeclarations [("a", "1"), ("b", "1")] crossed =
      "<r><i x=''/><i x='a=\"1\"'/></r>".toList := by decide +kernel
  have second : dropDeclarations [("b", "1"), ("a", "1")] crossed =
      "<r><i x='b=\"1\"'/><i x=''/></r>".toList := by decide +kernel
  refine ⟨first, second, ?_⟩
  rw [first, second]
  decide

end RdfMapping.Xml.Document
