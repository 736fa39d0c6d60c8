import RdfMapping.Proofs.Template.Choices
import RdfMapping.Proofs.Template.ReadBack
import RdfMapping.Proofs.Text.Percent
import RdfMapping.Proofs.Text.Tokens
/-!
Templates whose placeholders stand apart. Where some character between two placeholders never
stands in a percent-encoded text, the values of the placeholders are found again in the expansion:
different values give different identifiers.
-/

namespace RdfMapping.Template

/-! ### Separators -/

def separates (c : Char) : Bool := !Text.isUnreserved c && c != '%'

theorem separates_of_unreserved {c : Char} (unreserved : Text.isUnreserved c = true) :
    separates c = false := by
  simp [separates, unreserved]

theorem separates_of_isHexDigit {c : Char} (digit : Text.isHexDigit c = true) :
    separates c = false := by
  have all : "0123456789ABCDEF".toList.all (fun d => !separates d) = true := by decide
  simpa using List.all_eq_true.mp all c (List.contains_iff_mem.mp digit)

theorem separates_of_mem_encoded {text : List Char} (encoded : Text.IsEncoded text) :
    ∀ c ∈ text, separates c = false := by
  induction encoded with
  | nil => nofun
  | unreserved plain _ ih => exact List.forall_mem_cons.mpr ⟨separates_of_unreserved plain, ih⟩
  | triplet high low _ ih =>
      exact List.forall_mem_cons.mpr ⟨by decide, List.forall_mem_cons.mpr
        ⟨separates_of_isHexDigit high, List.forall_mem_cons.mpr
          ⟨separates_of_isHexDigit low, ih⟩⟩⟩

theorem not_mem_percentEncode {c : Char} (separator : separates c = true) (value : String) :
    c ∉ (Text.percentEncode value).toList := by
  intro member
  have refused := separates_of_mem_encoded (Text.isEncoded_percentEncode value) c member
  rw [separator] at refused
  cases refused

theorem percentEncode_unique {value other : String} {fixed rest more : List Char} {c : Char}
    (separator : separates c = true) (member : c ∈ fixed)
    (same : (Text.percentEncode value).toList ++ (fixed ++ rest) =
      (Text.percentEncode other).toList ++ (fixed ++ more)) : value = other := by
  obtain ⟨before, after, whole, first⟩ := List.eq_append_cons_of_mem member
  have absent (value : String) : c ∉ (Text.percentEncode value).toList ++ before := by
    rw [List.mem_append, not_or]
    exact ⟨not_mem_percentEncode separator value, first⟩
  rw [whole, List.append_assoc, List.append_assoc, List.cons_append, List.cons_append,
    ← List.append_assoc, ← List.append_assoc] at same
  have starts := (Text.mark_unique (absent value) (absent other) same).1
  exact Text.percentEncode_injective (String.toList_inj.mp (List.append_cancel_right starts))

/-! ### Segments -/

/-- A separator stands between every two placeholders that follow each other. -/
def Separated (segments : List Segment) : Prop :=
  ∀ before between after one two,
    segments = before ++ .reference one :: (between ++ .reference two :: after) →
      (∀ segment ∈ between, segment.isLiteral = true) →
        ∃ text c, .literal text ∈ between ∧ c ∈ text.toList ∧ separates c = true

theorem Separated.tail {segment : Segment} {segments : List Segment}
    (separated : Separated (segment :: segments)) : Separated segments := by
  intro before between after one two whole
  exact separated (segment :: before) between after one two (by rw [whole, List.cons_append])

/-- What follows a placeholder is fixed to the end, or has a separator in front of the next
placeholder. -/
theorem Separated.next {selector : String} {rest : List Segment}
    (separated : Separated (.reference selector :: rest)) :
    (∀ segment ∈ rest, segment.isLiteral = true) ∨
      ∃ between following, rest = between ++ following ∧
        (∀ segment ∈ between, segment.isLiteral = true) ∧
        ∃ text c, .literal text ∈ between ∧ c ∈ text.toList ∧ separates c = true := by
  have fixed : ∀ segment ∈ rest.takeWhile Segment.isLiteral, segment.isLiteral = true :=
    fun _ member => List.mem_takeWhile_imp member
  have whole := List.takeWhile_append_dropWhile (p := Segment.isLiteral) (l := rest)
  cases later : rest.dropWhile Segment.isLiteral with
  | nil =>
      rw [later, List.append_nil] at whole
      exact .inl (whole ▸ fixed)
  | cons segment after =>
      have stops := List.head?_dropWhile_not Segment.isLiteral rest
      rw [later] at stops whole
      cases segment with
      | literal text => cases stops
      | reference other =>
          exact .inr ⟨_, _, whole.symm, fixed,
            separated [] _ after selector other (by rw [whole]; rfl) fixed⟩

section

variable {encode : String → String}

theorem filled_append {between : List Segment}
    (fixed : ∀ segment ∈ between, segment.isLiteral = true) (rest : List Segment)
    (values : List String) :
    filled encode (between ++ rest) values = filled encode between [] ++ filled encode rest values := by
  induction between with
  | nil => rw [List.nil_append, filled.eq_def encode [], String.empty_append]
  | cons segment between ih =>
      obtain ⟨first, later⟩ := List.forall_mem_cons.mp fixed
      cases segment with
      | reference selector => cases first
      | literal text =>
          rw [List.cons_append, filled, filled, ih later, String.append_assoc]

theorem mem_filled {between : List Segment}
    (fixed : ∀ segment ∈ between, segment.isLiteral = true) {text : String} {c : Char}
    (member : .literal text ∈ between) (inside : c ∈ text.toList) :
    c ∈ (filled encode between []).toList := by
  obtain ⟨before, after, rfl⟩ := List.append_of_mem member
  obtain ⟨start, later⟩ := List.forall_mem_append.mp fixed
  rw [filled_append start, filled, String.toList_append, String.toList_append]
  exact List.mem_append_right _ (List.mem_append_left _ inside)

end

theorem selectors_eq_nil {rest : List Segment}
    (fixed : ∀ segment ∈ rest, segment.isLiteral = true) : selectors rest = [] := by
  induction rest with
  | nil => rfl
  | cons segment rest ih =>
      obtain ⟨first, later⟩ := List.forall_mem_cons.mp fixed
      cases segment with
      | reference selector => cases first
      | literal text => exact ih later

/-- The values are found again in the text that they fill. -/
theorem filled_injective {segments : List Segment} (separated : Separated segments)
    {values others : List String} (each : values.length = (selectors segments).length)
    (eachOther : others.length = (selectors segments).length)
    (same : filled Text.percentEncode segments values =
      filled Text.percentEncode segments others) : values = others := by
  induction segments generalizing values others with
  | nil =>
      rw [List.length_eq_zero_iff.mp each, List.length_eq_zero_iff.mp eachOther]
  | cons segment rest ih =>
      cases segment with
      | literal text =>
          rw [filled, filled, String.append_right_inj] at same
          exact ih separated.tail each eachOther same
      | reference selector =>
          obtain ⟨value, values, rfl⟩ := List.exists_cons_of_length_eq_add_one each
          obtain ⟨other, others, rfl⟩ := List.exists_cons_of_length_eq_add_one eachOther
          rw [filled, filled] at same
          have first : value = other := by
            have chars := congrArg String.toList same
            rw [String.toList_append, String.toList_append] at chars
            rcases separated.next with fixed | ⟨between, following, whole, fixed, text, c, literal,
              inside, separator⟩
            · have none (values : List String) (count : values.length = (selectors rest).length) :
                  values = [] := by
                rw [selectors_eq_nil fixed] at count
                exact List.length_eq_zero_iff.mp count
              rw [none values (Nat.succ.inj each), none others (Nat.succ.inj eachOther)] at chars
              exact Text.percentEncode_injective
                (String.toList_inj.mp (List.append_cancel_right chars))
            · rw [whole, filled_append fixed, filled_append fixed, String.toList_append,
                String.toList_append] at chars
              exact percentEncode_unique separator (mem_filled fixed literal inside) chars
          rw [first, String.append_right_inj] at same
          rw [first, ih separated.tail (Nat.succ.inj each) (Nat.succ.inj eachOther) same]

/-! ### One value for each placeholder -/

section

variable {σ : Type} {values : String → ExceptT MappingError (StateM σ) (List String)}
  {start final : σ}

theorem length_of_mapM {items : List String} {lists : List (List String)}
    (found : Yields (items.mapM values) start lists final) : lists.length = items.length := by
  induction items generalizing start lists with
  | nil =>
      rw [List.mapM_nil, yields_pure_iff] at found
      rw [← found.1]
      rfl
  | cons item rest ih =>
      rw [List.mapM_cons, yields_bind_iff] at found
      obtain ⟨list, middle, _, later⟩ := found
      obtain ⟨others, _, asked, made⟩ := yields_bind_iff.mp later
      obtain ⟨rfl, rfl⟩ := yields_pure_iff.mp made
      rw [List.length_cons, ih asked, List.length_cons]

theorem texts_single (encode : String → String) {segments : List Segment} {given : List String}
    (each : given.length = (selectors segments).length) :
    texts encode segments (given.map ([·])) = [filled encode segments given] := by
  induction segments generalizing given with
  | nil =>
      rw [List.length_eq_zero_iff.mp each]
      rfl
  | cons segment rest ih =>
      cases segment with
      | literal text =>
          rw [texts_literal, ih each]
          rfl
      | reference selector =>
          obtain ⟨value, given, rfl⟩ := List.exists_cons_of_length_eq_add_one each
          rw [List.map_cons, texts_reference, ih (Nat.succ.inj each)]
          rfl

theorem expand_single {template : Template} {given : List String}
    (found : Yields ((selectors template.segments).mapM values) start (given.map ([·])) final) :
    given.length = (selectors template.segments).length ∧
      ∃ after, Yields (template.expand false values) start
        [filled Text.percentEncode template.segments given] after := by
  have each : given.length = (selectors template.segments).length := by
    rw [← length_of_mapM found, List.length_map]
  obtain ⟨after, expanded⟩ := expandFrom_yields Text.percentEncode [""] found
  rw [texts_single _ each] at expanded
  simp only [List.flatMap_singleton, List.map_singleton, String.empty_append] at expanded
  exact ⟨each, after, expanded⟩

end

/-- Where the placeholders stand apart, one value for each of them gives one text, and two texts
are equal only if all values are. -/
theorem expand_eq_iff_of_separated {template : Template} (separated : Separated template.segments)
    {σ τ : Type} {values : String → ExceptT MappingError (StateM σ) (List String)}
    {others : String → ExceptT MappingError (StateM τ) (List String)} {start final : σ}
    {startOther finalOther : τ} {given givenOther : List String}
    (found : Yields ((selectors template.segments).mapM values) start (given.map ([·])) final)
    (foundOther : Yields ((selectors template.segments).mapM others) startOther
      (givenOther.map ([·])) finalOther) :
    ∃ text other after afterOther,
      Yields (template.expand false values) start [text] after ∧
        Yields (template.expand false others) startOther [other] afterOther ∧
        (text = other ↔ given = givenOther) := by
  obtain ⟨each, after, expanded⟩ := expand_single found
  obtain ⟨eachOther, afterOther, expandedOther⟩ := expand_single foundOther
  refine ⟨_, _, after, afterOther, expanded, expandedOther, ?_, ?_⟩
  · exact filled_injective separated each eachOther
  · intro same
    rw [same]

def path : Template :=
  ⟨"{a}%2/F{a}", [.reference "a", .literal "%2/F", .reference "a"]⟩

theorem separated_path : Separated path.segments := by
  intro before between after one two whole fixed
  refine ⟨"%2/F", '/', ?_, by decide, by decide⟩
  rcases before with _ | ⟨first, _ | ⟨second, _ | ⟨third, more⟩⟩⟩
  · rcases between with _ | ⟨literal, between⟩
    · simp [path] at whole
    · simp only [path, List.nil_append, List.cons_append, List.cons.injEq] at whole
      rw [whole.2.1]
      exact List.mem_cons_self
  · simp [path] at whole
  · simp [path] at whole
  · simp [path] at whole

theorem expand_eq_iff_of_separated_path :
    Separated path.segments ∧
    Yields ((selectors path.segments).mapM inTurn) [["F/"], [""]] [["F/"], [""]] [] ∧
    Yields ((selectors path.segments).mapM inTurn) [["F"], ["/é"]] [["F"], ["/é"]] [] ∧
    ∃ text other after afterOther,
      Yields (path.expand false inTurn) [["F/"], [""]] [text] after ∧
        Yields (path.expand false inTurn) [["F"], ["/é"]] [other] afterOther ∧
        text ≠ other := by
  have found : Yields ((selectors path.segments).mapM inTurn) [["F/"], [""]]
      (["F/", ""].map ([·])) [] := rfl
  have foundOther : Yields ((selectors path.segments).mapM inTurn) [["F"], ["/é"]]
      (["F", "/é"].map ([·])) [] := rfl
  obtain ⟨text, other, after, afterOther, expanded, expandedOther, same⟩ :=
    expand_eq_iff_of_separated separated_path found foundOther
  refine ⟨separated_path, found, foundOther, text, other, after, afterOther, expanded,
    expandedOther, ?_⟩
  intro equal
  exact absurd (same.mp equal) (by decide)

end RdfMapping.Template
