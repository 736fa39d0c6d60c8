import RdfMapping.Proofs.Json.Location
import RdfMapping.Proofs.Json.Written
import RdfMapping.Source.Rows
/-!
Places of JSON nodes as values. A selector behind the path mark gives, for each node that it
picks from a row, the written location of this node; and the document has no other node that
is written so, whatever its names look like.
-/

namespace RdfMapping

namespace JsonHit

def place (hit : JsonHit) : String := JsonLocation.render "$" hit.1

theorem eq_of_place {root : Json} {first second : JsonHit} (stands : first.Stands root)
    (alsoStands : second.Stands root) (same : first.place = second.place) : first = second := by
  have locations : first.1 = second.1 := JsonLocation.render_injective "$" same
  have nodes : some first.2 = some second.2 := by
    rw [← stands, ← alsoStands, locations]
  exact Prod.ext locations (Option.some.inj nodes)

end JsonHit

namespace Rows

def nodesAt (rows : List JsonHit) (row : Nat) (reference : String) : Outcome (List JsonHit) :=
  match rows[row]? with
  | none => .ok []
  | some hit => (JsonPath.parse reference).map (·.selectFrom hit)

theorem split_pathMark (reference : String) :
    Selector.split (Selector.pathMark ++ reference) = (reference, true) := by
  have marked : Text.dropStart? Selector.pathMark.toList
      (Selector.pathMark ++ reference).toList = some reference.toList :=
    Text.dropStart?_eq_some_iff.mpr String.toList_append
  unfold Selector.split
  simp only [marked, String.ofList_toList]

theorem valuesAt_pathMark (rows : List JsonHit) (row : Nat) (reference : String)
    (datatype : Option String) :
    (Rows.json rows).valuesAt row (Selector.pathMark ++ reference) datatype =
      (nodesAt rows row reference).map (·.map fun node => .string node.place) := by
  unfold valuesAt nodesAt
  simp only [split_pathMark]
  cases rows[row]? with
  | none => rfl
  | some hit =>
      cases JsonPath.parse reference with
      | error e => rfl
      | ok path => exact congrArg Except.ok List.map_eq_flatMap.symm

theorem stands_of_mem_jsonRows {root : Json} (tabled : root.Tabled) {path : JsonPath}
    {hit : JsonHit} (member : hit ∈ jsonRows path root) : hit.Stands root := by
  obtain ⟨location, node⟩ := hit
  unfold jsonRows at member
  split at member
  · obtain ⟨position, element, rfl⟩ := JsonHit.of_mem_elementsFrom member
    rw [Nat.zero_add]
    exact (JsonHit.below_of_element element).stands rfl
  · exact JsonHit.stands_of_mem_select tabled member

theorem stands_of_mem_nodesAt {root : Json} (tabled : root.Tabled) {iterator : Option String}
    {rows : List JsonHit} (divided : ofDocument iterator (.json root) = .ok (.json rows))
    {row : Nat} {reference : String} {nodes : List JsonHit}
    (picked : nodesAt rows row reference = .ok nodes) {node : JsonHit} (member : node ∈ nodes) :
    node.Stands root := by
  unfold nodesAt at picked
  split at picked
  · cases picked
    cases member
  · next hit rowAt =>
      cases parsed : JsonPath.parse (iterator.getD "$") with
      | error e =>
          rw [ofDocument, parsed] at divided
          cases divided
      | ok path =>
          rw [ofDocument, parsed] at divided
          cases divided
          have stands := stands_of_mem_jsonRows tabled (List.mem_of_getElem? rowAt)
          cases read : JsonPath.parse reference with
          | error e =>
              rw [read] at picked
              cases picked
          | ok way =>
              rw [read] at picked
              cases picked
              exact (JsonHit.below_of_mem_selectFrom (tabled.at? stands) member).stands stands

/-- Different locations are written differently. Hence results of a path with one written
location are one node, and every place that a selector gives is that of the node it picked and
of no other node of the document. -/
theorem places_tell_nodes_apart {root : Json} (tabled : root.Tabled) :
    (∀ first second : JsonLocation, first ≠ second → first.render "$" ≠ second.render "$") ∧
    (∀ path : JsonPath, ∀ first ∈ path.select root, ∀ second ∈ path.select root,
      first.place = second.place → first = second) ∧
    ∀ iterator rows, ofDocument iterator (.json root) = .ok (.json rows) →
      ∀ row reference datatype,
        (Rows.json rows).valuesAt row (Selector.pathMark ++ reference) datatype =
          (nodesAt rows row reference).map (·.map fun node => .string node.place) ∧
        ∀ nodes, nodesAt rows row reference = .ok nodes → ∀ node ∈ nodes,
          node.Stands root ∧ ∀ other : JsonHit, other.Stands root → other.place = node.place →
            other = node := by
  refine ⟨?_, ?_, ?_⟩
  · intro first second apart same
    exact apart (JsonLocation.render_injective "$" same)
  · intro path first selected second alsoSelected same
    exact JsonHit.eq_of_place (JsonHit.stands_of_mem_select tabled selected)
      (JsonHit.stands_of_mem_select tabled alsoSelected) same
  · intro iterator rows divided row reference datatype
    refine ⟨valuesAt_pathMark rows row reference datatype, ?_⟩
    intro nodes picked node member
    have stands := stands_of_mem_nodesAt tabled divided picked member
    exact ⟨stands, fun other alsoStands same => JsonHit.eq_of_place alsoStands stands same⟩

/-- A name that holds the end of a link in quotes and the beginning of another one, beside a name
that ends in the backslash by which quotes are escaped. -/
def lookalikes : Json :=
  .object [("a']['b c", .bool true), ("a\\", .object [("b c", .bool false)])]

theorem places_lookalikes :
    lookalikes.Tabled ∧
      ([.member "a']['b c"], .bool true) ∈ JsonPath.select ⟨[.descendantWildcard]⟩ lookalikes ∧
      ([.member "a\\", .member "b c"], .bool false) ∈
        JsonPath.select ⟨[.descendantWildcard]⟩ lookalikes ∧
      JsonHit.place ([.member "a']['b c"], .bool true) ≠
        JsonHit.place ([.member "a\\", .member "b c"], .bool false) := by
  have inside : Json.Tabled (.object [("b c", .bool false)]) :=
    .object (List.pairwise_singleton _ _) (List.forall_mem_singleton.mpr (.bool false))
  have tabled : lookalikes.Tabled := by
    refine .object (by decide) ?_
    intro entry member
    rcases List.mem_cons.mp member with rfl | last
    · exact .bool true
    · rw [List.mem_singleton.mp last]
      exact inside
  have first : ([.member "a']['b c"], .bool true) ∈
      JsonPath.select ⟨[.descendantWildcard]⟩ lookalikes := List.mem_of_getElem? (i := 0) rfl
  have second : ([.member "a\\", .member "b c"], .bool false) ∈
      JsonPath.select ⟨[.descendantWildcard]⟩ lookalikes := List.mem_of_getElem? (i := 2) rfl
  refine ⟨tabled, first, second, ?_⟩
  intro same
  have node := (places_tell_nodes_apart tabled).2.1 _ _ first _ second same
  exact absurd (congrArg Prod.fst node) (by decide)

end Rows

end RdfMapping
