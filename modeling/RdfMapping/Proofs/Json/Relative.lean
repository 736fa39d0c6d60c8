import RdfMapping.Proofs.Json.Places
import RdfMapping.Proofs.Json.Spelling
import RdfMapping.Proofs.Outcome
/-!
References of rows. What a reference picks from the rows of a JSON document, one row after the
other, is what its steps select behind those of the iterator, from the whole document and in the
same order.
-/

namespace RdfMapping

namespace Selector

def IsMarked (selector : String) : Prop := pathMark.toList <+: selector.toList

instance (selector : String) : Decidable (IsMarked selector) :=
  inferInstanceAs (Decidable (_ <+: _))

theorem split_of_not_marked {selector : String} (unmarked : ¬ IsMarked selector) :
    split selector = (selector, false) := by
  unfold split
  split
  · next rest found =>
      have whole := Text.dropStart?_eq_some_iff.mp found
      exact absurd ⟨rest, whole.symm⟩ unmarked
  · rfl

end Selector

namespace Rows

theorem valuesAt_of_not_marked (rows : List JsonHit) (row : Nat) {reference : String}
    (unmarked : ¬ Selector.IsMarked reference) (datatype : Option String) :
    (Rows.json rows).valuesAt row reference datatype =
      (nodesAt rows row reference).map (·.flatMap fun node => spread node.2) := by
  unfold valuesAt nodesAt
  simp only [Selector.split_of_not_marked unmarked]
  cases rows[row]? with
  | none => rfl
  | some hit =>
      cases JsonPath.parse reference with
      | error e => rfl
      | ok path => rfl

def allValues (rows : Rows) (selector : String) (datatype : Option String) :
    Outcome (List Json) :=
  ((List.range rows.count).mapM (rows.valuesAt · selector datatype)).map List.flatten

theorem allValues_json {rows : List JsonHit} {selector : String} {datatype : Option String}
    (picked : JsonHit → List Json)
    (each : ∀ row hit, rows[row]? = some hit →
      (Rows.json rows).valuesAt row selector datatype = .ok (picked hit)) :
    (Rows.json rows).allValues selector datatype = .ok (rows.flatMap picked) := by
  have success : (List.range rows.length).mapM
      ((Rows.json rows).valuesAt · selector datatype) = .ok (rows.map picked) := by
    rw [Outcome.mapM_eq_ok, List.forall₂_iff_get]
    refine ⟨by simp, ?_⟩
    intro row within _
    have inside : row < rows.length := by simpa using within
    simpa using each row rows[row] (List.getElem?_eq_getElem inside)
  rw [allValues, count, success, List.flatMap_def]
  rfl

section Composition

variable {root : Json} {iterator reference : String} {path way : JsonPath}

theorem ofDocument_stepped (iterates : JsonPath.parse iterator = .ok path)
    (stepped : path.steps ≠ []) :
    ofDocument (some iterator) (.json root) = .ok (.json (path.select root)) := by
  have whole : jsonRows path root = path.select root := by
    unfold jsonRows
    split
    · next none => exact absurd none stepped
    · rfl
  rw [ofDocument, Option.getD_some, iterates, ← whole]
  rfl

theorem nodesAt_of_parse (refers : JsonPath.parse reference = .ok way) {rows : List JsonHit}
    {row : Nat} {hit : JsonHit} (here : rows[row]? = some hit) :
    nodesAt rows row reference = .ok (way.selectFrom hit) := by
  rw [nodesAt, here, refers]
  rfl

/-- A reference goes on from the rows as its steps go on from those of the iterator. If it does
not begin with the path mark itself, its values are those of the same nodes. -/
theorem allValues_of_steps (iterates : JsonPath.parse iterator = .ok path)
    (stepped : path.steps ≠ []) (refers : JsonPath.parse reference = .ok way)
    (datatype : Option String) :
    ∃ rows, ofDocument (some iterator) (.json root) = .ok rows ∧
      rows.allValues (Selector.pathMark ++ reference) datatype =
        .ok ((JsonPath.select ⟨path.steps ++ way.steps⟩ root).map fun node =>
          .string node.place) ∧
      (¬ Selector.IsMarked reference →
        rows.allValues reference datatype =
          .ok ((JsonPath.select ⟨path.steps ++ way.steps⟩ root).flatMap fun node =>
            spread node.2)) := by
  have joined : JsonPath.select ⟨path.steps ++ way.steps⟩ root =
      (path.select root).flatMap way.selectFrom :=
    JsonHit.selectFrom_append path.steps way.steps ([], root)
  refine ⟨_, ofDocument_stepped iterates stepped, ?_, ?_⟩
  · rw [joined, List.map_flatMap]
    apply allValues_json
    intro row hit here
    rw [valuesAt_pathMark, nodesAt_of_parse refers here]
    rfl
  · intro unmarked
    rw [joined, List.flatMap_assoc]
    apply allValues_json
    intro row hit here
    rw [valuesAt_of_not_marked _ _ unmarked, nodesAt_of_parse refers here]
    rfl

end Composition

/-- A box in a box, so that the nodes below the outer one are those below the inner one as
well. -/
def boxes : Json :=
  .object [("a", .object [("a", .object [("b", .array [.integer 1, .null])]), ("b", .null)])]

theorem allValues_boxes :
    ∃ rows, ofDocument (some "$..a") (.json boxes) = .ok rows ∧
      rows.allValues "PATH~..b" none =
        .ok [.string "$.a.b", .string "$.a.a.b", .string "$.a.a.b"] ∧
      rows.allValues "..b" none = .ok [.integer 1, .integer 1] := by
  have iterates : JsonPath.parse "$..a" = .ok ⟨[.descendant "a"]⟩ := by decide +kernel
  have refers : JsonPath.parse "..b" = .ok ⟨[.descendant "b"]⟩ := by decide +kernel
  have unmarked : ¬ Selector.IsMarked "..b" := by decide
  obtain ⟨rows, divided, places, values⟩ :=
    @allValues_of_steps boxes _ _ _ _ iterates (List.cons_ne_nil _ _) refers none
  exact ⟨rows, divided, places, values unmarked⟩

/-- A member whose name is the path mark and another name. -/
def labelled : Json := .object [("a", .object [("PATH~x", .integer 1)])]

/-- The path mark at the beginning of a name is not taken for a part of the name. -/
theorem allValues_labelled :
    JsonPath.parse "$.a" = .ok ⟨[.field "a"]⟩ ∧
      JsonPath.parse "PATH~x" = .ok ⟨[.field "PATH~x"]⟩ ∧
      ∃ rows, ofDocument (some "$.a") (.json labelled) = .ok rows ∧
        rows.allValues "PATH~x" none = .ok [] ∧
        (JsonPath.select ⟨[.field "a", .field "PATH~x"]⟩ labelled).flatMap
          (fun node => spread node.2) = [.integer 1] := by
  have iterates : JsonPath.parse "$.a" = .ok ⟨[.field "a"]⟩ := by decide +kernel
  have refers : JsonPath.parse "x" = .ok ⟨[.field "x"]⟩ := by decide +kernel
  have unnamed : (Rows.json (JsonPath.select ⟨[.field "a"]⟩ labelled)).allValues
      (Selector.pathMark ++ "x") none = .ok [] := by
    apply allValues_json fun _ => []
    intro row hit here
    have only : hit ∈ [([JsonKey.member "a"], Json.object [("PATH~x", .integer 1)])] :=
      List.mem_of_getElem? here
    rw [valuesAt_pathMark, nodesAt_of_parse refers here, List.mem_singleton.mp only]
    rfl
  exact ⟨iterates, by decide +kernel, _, ofDocument_stepped iterates (List.cons_ne_nil _ _),
    unnamed, rfl⟩

end Rows

end RdfMapping
