import Mathlib.Data.List.Forall2
import Mathlib.Algebra.BigOperators.Group.List.Basic
import RdfMapping.Template
/-!
The expansions of a template, one for each choice of one value for every placeholder. Choices are
lists of positions in the values of the placeholders; they are listed in lexicographic order, so
that the first placeholder varies slowest.
-/

namespace RdfMapping

/-! ### Requests that keep a state -/

/-- A request that may change a state succeeds with a result, and leaves another state. -/
def Yields {σ α : Type} (request : ExceptT MappingError (StateM σ) α) (start : σ) (result : α)
    (final : σ) : Prop :=
  request.run.run start = (.ok result, final)

section

variable {σ α β : Type} {start final : σ}

theorem yields_pure_iff {result other : α} :
    Yields (pure result) start other final ↔ result = other ∧ start = final := by
  constructor
  · intro given
    exact ⟨Except.ok.inj (congrArg Prod.fst given), congrArg Prod.snd given⟩
  · rintro ⟨rfl, rfl⟩
    rfl

theorem yields_bind_iff {request : ExceptT MappingError (StateM σ) α}
    {next : α → ExceptT MappingError (StateM σ) β} {result : β} :
    Yields (request >>= next) start result final ↔
      ∃ found middle, Yields request start found middle ∧ Yields (next found) middle result final := by
  have whole : (request >>= next).run.run start =
      match request.run.run start with
      | (.ok found, middle) => (next found).run.run middle
      | (.error e, middle) => (.error e, middle) := by
    rw [ExceptT.run_bind, StateT.run_bind]
    rcases request.run.run start with ⟨found | e, middle⟩ <;> rfl
  unfold Yields
  rw [whole]
  rcases request.run.run start with ⟨e | found, middle⟩
  · constructor
    · intro given
      cases congrArg Prod.fst given
    · rintro ⟨_, _, given, _⟩
      cases congrArg Prod.fst given
  · constructor
    · intro given
      exact ⟨found, middle, rfl, given⟩
    · rintro ⟨_, _, given, later⟩
      cases given
      exact later

end

namespace Template

/-! ### Choices -/

/-- The positions that can be chosen, one in each of several lists of the given lengths. -/
def choices : List Nat → List (List Nat)
  | [] => [[]]
  | count :: counts =>
      (List.range count).flatMap fun position => (choices counts).map (position :: ·)

theorem mem_choices_iff {choice counts : List Nat} :
    choice ∈ choices counts ↔ List.Forall₂ (· < ·) choice counts := by
  induction counts generalizing choice with
  | nil => rw [choices, List.mem_singleton, List.forall₂_nil_right_iff]
  | cons count counts ih =>
      rw [choices, List.forall₂_cons_right_iff]
      simp only [List.mem_flatMap, List.mem_range, List.mem_map, ih]
      constructor
      · rintro ⟨position, inside, rest, each, rfl⟩
        exact ⟨position, rest, inside, each, rfl⟩
      · rintro ⟨position, rest, inside, each, rfl⟩
        exact ⟨position, inside, rest, each, rfl⟩

theorem pairwise_choices (counts : List Nat) :
    (choices counts).Pairwise (List.Lex (· < ·)) := by
  induction counts with
  | nil => exact List.pairwise_singleton _ _
  | cons count counts ih =>
      rw [choices, List.pairwise_flatMap]
      constructor
      · intro position _
        exact ih.map _ fun _ _ earlier => .cons earlier
      · refine List.pairwise_lt_range.imp ?_
        intro position later before one ofOne two ofTwo
        obtain ⟨_, _, rfl⟩ := List.mem_map.mp ofOne
        obtain ⟨_, _, rfl⟩ := List.mem_map.mp ofTwo
        exact .rel before

theorem length_choices (counts : List Nat) : (choices counts).length = counts.prod := by
  induction counts with
  | nil => rfl
  | cons count counts ih =>
      rw [choices, List.length_flatMap, List.prod_cons, ← ih]
      simp

def chosen : List (List String) → List Nat → List String
  | list :: lists, position :: choice => list[position]?.toList ++ chosen lists choice
  | _, _ => []

theorem flatMap_positions {α : Type} (list : List String) (continued : String → List α) :
    ((List.range list.length).flatMap fun position => list[position]?.toList.flatMap continued) =
      list.flatMap continued := by
  induction list with
  | nil => rfl
  | cons value list ih =>
      rw [List.length_cons, List.range_succ_eq_map, List.flatMap_cons, List.flatMap_map,
        List.flatMap_cons, ← ih]
      simp

/-! ### Expansions -/

def selectors : List Segment → List String
  | [] => []
  | .literal _ :: rest => selectors rest
  | .reference selector :: rest => selector :: selectors rest

def filled (encode : String → String) : List Segment → List String → String
  | .literal text :: rest, values => text ++ filled encode rest values
  | .reference _ :: rest, value :: values => encode value ++ filled encode rest values
  | _, _ => ""

/-- The texts for all choices of one value for each placeholder. -/
def texts (encode : String → String) (segments : List Segment) (lists : List (List String)) :
    List String :=
  (choices (lists.map List.length)).map fun choice => filled encode segments (chosen lists choice)

variable {encode : String → String}

theorem texts_literal (text : String) (rest : List Segment) (lists : List (List String)) :
    texts encode (.literal text :: rest) lists = (texts encode rest lists).map (text ++ ·) := by
  rw [texts, texts, List.map_map]
  rfl

theorem texts_reference (selector : String) (rest : List Segment) (list : List String)
    (lists : List (List String)) :
    texts encode (.reference selector :: rest) (list :: lists) =
      list.flatMap fun value => (texts encode rest lists).map (encode value ++ ·) := by
  rw [texts, List.map_cons, choices, List.map_flatMap, ← flatMap_positions]
  apply List.flatMap_congr
  intro position inside
  rw [List.getElem?_eq_getElem (List.mem_range.mp inside), Option.toList_some,
    List.flatMap_singleton, texts, List.map_map, List.map_map]
  apply List.map_congr_left
  intro choice _
  rw [Function.comp_apply, chosen, List.getElem?_eq_getElem (List.mem_range.mp inside)]
  rfl

section

variable {σ : Type} {values : String → ExceptT MappingError (StateM σ) (List String)}

/-- Every text begun so far is continued in all ways in which the values allow it. -/
theorem expandFrom_yields (encode : String → String) (starts : List String)
    {segments : List Segment} {start final : σ} {lists : List (List String)}
    (found : Yields ((selectors segments).mapM values) start lists final) :
    ∃ after, Yields (expandFrom encode values starts segments) start
      (starts.flatMap fun text => (texts encode segments lists).map (text ++ ·)) after := by
  induction segments generalizing starts start lists with
  | nil =>
      rw [selectors, List.mapM_nil, yields_pure_iff] at found
      refine ⟨start, yields_pure_iff.mpr ⟨?_, rfl⟩⟩
      rw [← found.1]
      simp [texts, choices, filled]
  | cons segment rest ih =>
      cases segment with
      | literal text =>
          obtain ⟨after, given⟩ := ih (starts.map (· ++ text)) found
          refine ⟨after, ?_⟩
          rw [expandFrom, texts_literal]
          rw [List.flatMap_map] at given
          simpa only [List.map_map, Function.comp_def, String.append_assoc] using given
      | reference selector =>
          rw [selectors, List.mapM_cons, yields_bind_iff] at found
          obtain ⟨list, middle, first, later⟩ := found
          obtain ⟨others, _, asked, made⟩ := yields_bind_iff.mp later
          obtain ⟨rfl, rfl⟩ := yields_pure_iff.mp made
          rw [expandFrom, texts_reference]
          by_cases none : list = []
          · refine ⟨middle, yields_bind_iff.mpr ⟨list, middle, first, ?_⟩⟩
            rw [if_pos (by simpa using none), none, yields_pure_iff]
            exact ⟨by simp, rfl⟩
          · obtain ⟨after, given⟩ :=
              ih (starts.flatMap fun text => (list.map encode).map (text ++ ·)) asked
            refine ⟨after, yields_bind_iff.mpr ⟨list, middle, first, ?_⟩⟩
            rw [if_neg (by simpa using none)]
            simp only [List.flatMap_assoc, List.flatMap_map, String.append_assoc] at given
            simpa only [List.map_flatMap, List.map_map, Function.comp_def] using given

/-- There is one expansion for each choice of one value for each placeholder, and they come in
lexicographic order of the choices. -/
theorem expand_choices (template : Template) (plain : Bool) {start final : σ}
    {lists : List (List String)}
    (found : Yields ((selectors template.segments).mapM values) start lists final) :
    (∃ after, Yields (template.expand plain values) start
      ((choices (lists.map List.length)).map fun choice =>
        filled (if plain then id else Text.percentEncode) template.segments (chosen lists choice))
      after) ∧
    (∀ choice, choice ∈ choices (lists.map List.length) ↔
      List.Forall₂ (fun position list => position < list.length) choice lists) ∧
    (choices (lists.map List.length)).Pairwise (List.Lex (· < ·)) ∧
    (choices (lists.map List.length)).length = (lists.map List.length).prod := by
  refine ⟨?_, ?_, pairwise_choices _, length_choices _⟩
  · obtain ⟨after, given⟩ := expandFrom_yields _ [""] found
    simp only [List.flatMap_singleton, String.empty_append, List.map_id'] at given
    exact ⟨after, given⟩
  · intro choice
    rw [mem_choices_iff, List.forall₂_map_right_iff]

end

/-- Each request takes the next of some lists, whatever its selector is. -/
def inTurn (_ : String) : ExceptT MappingError (StateM (List (List String))) (List String) :=
  modifyGet fun lists => (lists.headD [], lists.tail)

def twice : Template :=
  ⟨"{a}-{a}/", [.reference "a", .literal "-", .reference "a", .literal "/"]⟩

theorem expand_choices_twice :
    Yields ((selectors twice.segments).mapM inTurn) [["é", "b"], ["1", "2", "2"]]
      [["é", "b"], ["1", "2", "2"]] [] ∧
    ∃ after, Yields (twice.expand false inTurn) [["é", "b"], ["1", "2", "2"]]
      ["%C3%A9-1/", "%C3%A9-2/", "%C3%A9-2/", "b-1/", "b-2/", "b-2/"] after := by
  have found : Yields ((selectors twice.segments).mapM inTurn) [["é", "b"], ["1", "2", "2"]]
      [["é", "b"], ["1", "2", "2"]] [] := rfl
  exact ⟨found, (expand_choices twice false found).1⟩

end Template

end RdfMapping
