import Mathlib.Algebra.BigOperators.Group.List.Basic
import Mathlib.Algebra.Order.Group.Multiset
import RdfMapping.Graph.Basic
/-!
The nodes of a graph as they are looked up. As long as the index tells the positions of the
nodes, to use an identifier as a subject changes what is found under that identifier, and
nothing else.
-/

namespace RdfMapping.Graph

/-- The index tells the position of every node, and of nothing else. -/
structure Indexed (graph : Graph) : Prop where
  found : ∀ (id : String) (position : Nat), graph.index[id]? = some position →
    ∃ node : Node, graph.nodes[position]? = some node ∧ node.id = id
  known : ∀ (position : Nat) (node : Node), graph.nodes[position]? = some node →
    graph.index[node.id]? = some position

theorem indexed_empty : empty.Indexed where
  found := by
    intro id position found
    simp [empty] at found
  known := by
    intro position node found
    simp [empty] at found

variable {graph : Graph}

theorem Indexed.lt_size (indexed : graph.Indexed) {id : String} {position : Nat}
    (known : graph.index[id]? = some position) : position < graph.nodes.size := by
  obtain ⟨node, found, _⟩ := indexed.found id position known
  exact (Array.getElem?_eq_some_iff.mp found).1

/-! ### A new node -/

theorem ensure_of_known {id : String} {position : Nat}
    (known : graph.index[id]? = some position) : graph.ensure id = graph := by
  have member : graph.index.contains id = true := by
    rw [Std.HashMap.contains_eq_isSome_getElem?, known]
    rfl
  exact if_pos member

theorem ensure_of_unknown {id : String} (unknown : graph.index[id]? = none) :
    graph.ensure id =
      { nodes := graph.nodes.push ⟨id, []⟩
        index := graph.index.insert id graph.nodes.size } := by
  have absent : ¬ graph.index.contains id = true := by
    rw [Std.HashMap.contains_eq_isSome_getElem?, unknown]
    exact Bool.false_ne_true
  exact if_neg absent

theorem Indexed.ensure (indexed : graph.Indexed) (id : String) : (graph.ensure id).Indexed := by
  cases known : graph.index[id]? with
  | some position =>
      rw [ensure_of_known known]
      exact indexed
  | none =>
      rw [ensure_of_unknown known]
      refine ⟨?_, ?_⟩
      · intro other position found
        rw [Std.HashMap.getElem?_insert] at found
        split at found
        · next same =>
            cases found
            exact ⟨⟨id, []⟩, Array.getElem?_push_size, eq_of_beq same⟩
        · obtain ⟨node, nodeAt, same⟩ := indexed.found other position found
          refine ⟨node, ?_, same⟩
          rw [Array.getElem?_push, if_neg (Nat.ne_of_lt (indexed.lt_size found))]
          exact nodeAt
      · intro position node found
        rw [Array.getElem?_push] at found
        rw [Std.HashMap.getElem?_insert]
        split at found
        · next last =>
            cases found
            rw [if_pos (beq_self_eq_true id), last]
        · have earlier := indexed.known position node found
          have apart : ¬ (id == node.id) = true := by
            intro same
            rw [← eq_of_beq same, known] at earlier
            cases earlier
          rw [if_neg apart]
          exact earlier

theorem node?_ensure (indexed : graph.Indexed) (id other : String) :
    (graph.ensure id).node? other =
      if id = other then some ((graph.node? id).getD ⟨id, []⟩) else graph.node? other := by
  cases known : graph.index[id]? with
  | some position =>
      rw [ensure_of_known known]
      split
      · next same =>
          obtain ⟨node, nodeAt, _⟩ := indexed.found id position known
          rw [← same, node?, known, Option.bind_some, nodeAt]
          rfl
      · rfl
  | none =>
      have fresh : graph.node? id = none := by
        rw [node?, known]
        rfl
      rw [ensure_of_unknown known, node?, Std.HashMap.getElem?_insert]
      split
      · next same =>
          rw [if_pos (eq_of_beq same), fresh]
          exact Array.getElem?_push_size
      · next apart =>
          rw [if_neg (fun same => apart (beq_iff_eq.mpr same)), node?]
          cases found : graph.index[other]? with
          | none => rfl
          | some position =>
              rw [Option.bind_some, Option.bind_some, Array.getElem?_push,
                if_neg (Nat.ne_of_lt (indexed.lt_size found))]

/-! ### A new statement -/

theorem exists_index_ensure (indexed : graph.Indexed) (id : String) :
    ∃ position, (graph.ensure id).index[id]? = some position := by
  have found := node?_ensure indexed id id
  rw [if_pos rfl] at found
  obtain ⟨position, known, _⟩ := Option.bind_eq_some_iff.mp found
  exact ⟨position, known⟩

theorem add_eq_modify {subject : String} {position : Nat}
    (known : (graph.ensure subject).index[subject]? = some position) (predicate : String)
    (object : NodeTerm) :
    graph.add subject predicate object =
      { graph.ensure subject with
        nodes := (graph.ensure subject).nodes.modify position fun node =>
          { node with statements := node.statements ++ [(predicate, object)] } } := by
  rw [add]
  simp only [known]

theorem Indexed.add (indexed : graph.Indexed) (subject predicate : String) (object : NodeTerm) :
    (graph.add subject predicate object).Indexed := by
  have ensured := indexed.ensure subject
  obtain ⟨place, placeKnown⟩ := exists_index_ensure indexed subject
  rw [add_eq_modify placeKnown]
  refine ⟨?_, ?_⟩
  · intro id position found
    obtain ⟨node, nodeAt, same⟩ := ensured.found id position found
    simp only [Array.getElem?_modify]
    split
    · exact ⟨_, congrArg _ nodeAt, same⟩
    · exact ⟨node, nodeAt, same⟩
  · intro position node found
    rw [Array.getElem?_modify] at found
    split at found
    · obtain ⟨former, formerAt, rfl⟩ := Option.map_eq_some_iff.mp found
      exact ensured.known position former formerAt
    · exact ensured.known position node found

theorem node?_add (indexed : graph.Indexed) (subject predicate other : String)
    (object : NodeTerm) :
    (graph.add subject predicate object).node? other =
      if subject = other then
        ((graph.ensure subject).node? other).map fun node =>
          { node with statements := node.statements ++ [(predicate, object)] }
      else (graph.ensure subject).node? other := by
  have ensured := indexed.ensure subject
  obtain ⟨place, placeKnown⟩ := exists_index_ensure indexed subject
  rw [add_eq_modify placeKnown, node?, node?]
  split
  · next same =>
      simp only [← same, placeKnown, Option.bind_some, Array.getElem?_modify, if_pos]
  · next apart =>
      cases found : (graph.ensure subject).index[other]? with
      | none => rfl
      | some position =>
          have away : place ≠ position := by
            rintro rfl
            obtain ⟨first, firstAt, firstId⟩ := ensured.found subject place placeKnown
            obtain ⟨second, secondAt, secondId⟩ := ensured.found other place found
            cases firstAt.symm.trans secondAt
            exact apart (firstId.symm.trans secondId)
          simp only [Option.bind_some, Array.getElem?_modify, if_neg away]

/-! ### What a graph says of its nodes -/

def stated (graph : Graph) (id : String) : Multiset (String × NodeTerm) :=
  ((graph.node? id).map Node.statements).getD []

/-- The statements that a list of parts makes of a node, each part by the identifier of its
node. -/
def given (id : String) (parts : List (String × List (String × NodeTerm))) :
    Multiset (String × NodeTerm) :=
  (parts.map fun part => if part.1 = id then (part.2 : Multiset (String × NodeTerm)) else 0).sum

@[simp] theorem given_nil (id : String) : given id [] = 0 := rfl

@[simp] theorem given_cons (id : String) (part : String × List (String × NodeTerm))
    (parts : List (String × List (String × NodeTerm))) :
    given id (part :: parts) =
      (if part.1 = id then (part.2 : Multiset (String × NodeTerm)) else 0) + given id parts := by
  rw [given, List.map_cons, List.sum_cons, given]

@[simp] theorem given_append (id : String)
    (parts further : List (String × List (String × NodeTerm))) :
    given id (parts ++ further) = given id parts + given id further := by
  rw [given, List.map_append, List.sum_append, given, given]

/-- What a graph has become by parts that were added to it, each the identifier of a node with
statements about it. -/
structure Grown (before after : Graph) (parts : List (String × List (String × NodeTerm))) :
    Prop where
  indexed : after.Indexed
  known : ∀ id, (after.node? id).isSome ↔ (before.node? id).isSome ∨ id ∈ parts.map Prod.fst
  stated : ∀ id, after.stated id = before.stated id + given id parts

variable {before between after : Graph} {parts further : List (String × List (String × NodeTerm))}

theorem Grown.refl (indexed : graph.Indexed) : Grown graph graph [] where
  indexed := indexed
  known := by simp
  stated := by simp

theorem Grown.trans (first : Grown before between parts) (second : Grown between after further) :
    Grown before after (parts ++ further) where
  indexed := second.indexed
  known := by
    intro id
    rw [second.known, first.known, List.map_append, List.mem_append, or_assoc]
  stated := by
    intro id
    rw [second.stated, first.stated, given_append, add_assoc]

/-- It does not matter in which order the parts are added, nor whether the statements about a
node come in one part or in several ones. -/
theorem Grown.congr (grown : Grown before after parts)
    (ids : ∀ id, id ∈ parts.map Prod.fst ↔ id ∈ further.map Prod.fst)
    (statements : ∀ id, given id parts = given id further) : Grown before after further where
  indexed := grown.indexed
  known := by
    intro id
    rw [grown.known, ids]
  stated := by
    intro id
    rw [grown.stated, statements]

theorem Grown.skip (indexed : graph.Indexed) {id : String} (known : (graph.node? id).isSome) :
    Grown graph graph [(id, [])] where
  indexed := indexed
  known := by
    intro other
    rw [List.map_singleton, List.mem_singleton]
    refine ⟨Or.inl, ?_⟩
    rintro (member | rfl)
    · exact member
    · exact known
  stated := by simp

theorem Grown.ensure (indexed : graph.Indexed) (id : String) :
    Grown graph (graph.ensure id) [(id, [])] where
  indexed := indexed.ensure id
  known := by
    intro other
    rw [node?_ensure indexed, List.map_singleton, List.mem_singleton, eq_comm (a := other)]
    split
    · next same => simp [same]
    · next apart => simp [apart]
  stated := by
    intro other
    rw [Graph.stated, Graph.stated, node?_ensure indexed]
    split
    · next same =>
        rw [← same]
        cases graph.node? id with
        | none => simp
        | some node => simp
    · simp

theorem Grown.add (indexed : graph.Indexed) (subject predicate : String) (object : NodeTerm) :
    Grown graph (graph.add subject predicate object) [(subject, [(predicate, object)])] where
  indexed := indexed.add subject predicate object
  known := by
    intro other
    have ensured := (Grown.ensure indexed subject).known other
    rw [node?_add indexed]
    split
    · rw [Option.isSome_map, ensured, List.map_singleton, List.map_singleton]
    · rw [ensured, List.map_singleton, List.map_singleton]
  stated := by
    intro other
    have ensured := Grown.ensure indexed subject
    have before := ensured.stated other
    rw [Graph.stated] at before
    rw [Graph.stated, node?_add indexed]
    split
    · next same =>
        have known : ((graph.ensure subject).node? other).isSome :=
          (ensured.known other).mpr (.inr (by simp [same]))
        obtain ⟨node, nodeAt⟩ := Option.isSome_iff_exists.mp known
        rw [nodeAt] at before ⊢
        simp only [Option.map_some, Option.getD_some, ← Multiset.coe_add] at before ⊢
        rw [before]
        simp [same]
    · next apart =>
        rw [before]
        simp [apart]

/-! ### All nodes -/

/-- The nodes with what is stated of each, neither of them in any order. -/
def contents (graph : Graph) : Multiset (String × Multiset (String × NodeTerm)) :=
  graph.nodes.toList.map fun node => (node.id, (node.statements : Multiset (String × NodeTerm)))

theorem Indexed.node?_eq_some_iff (indexed : graph.Indexed) {id : String} {node : Node} :
    graph.node? id = some node ↔ node ∈ graph.nodes.toList ∧ node.id = id := by
  unfold node?
  rw [Option.bind_eq_some_iff]
  constructor
  · rintro ⟨position, found, nodeAt⟩
    obtain ⟨other, otherAt, same⟩ := indexed.found id position found
    cases nodeAt.symm.trans otherAt
    exact ⟨Array.mem_toList_iff.mpr (Array.mem_of_getElem? nodeAt), same⟩
  · rintro ⟨member, rfl⟩
    obtain ⟨position, nodeAt⟩ := Array.mem_iff_getElem?.mp (Array.mem_toList_iff.mp member)
    exact ⟨position, indexed.known position node nodeAt, nodeAt⟩

theorem Indexed.nodup_ids (indexed : graph.Indexed) : (graph.nodes.toList.map Node.id).Nodup := by
  rw [List.nodup_iff_getElem?_ne_getElem?]
  intro first second before bound same
  simp only [List.getElem?_map, Array.getElem?_toList] at same
  have inRange : second < graph.nodes.size := by simpa using bound
  rw [Array.getElem?_eq_getElem inRange,
    Array.getElem?_eq_getElem (before.trans inRange)] at same
  have one := indexed.known first _ (Array.getElem?_eq_getElem (before.trans inRange))
  have other := indexed.known second _ (Array.getElem?_eq_getElem inRange)
  rw [Option.some.inj same, other] at one
  exact absurd (Option.some.inj one) before.ne'

theorem Indexed.nodup_contents (indexed : graph.Indexed) : graph.contents.Nodup := by
  refine Multiset.coe_nodup.mpr (List.Nodup.of_map Prod.fst ?_)
  rw [List.map_map]
  exact indexed.nodup_ids

theorem Indexed.mem_contents_iff (indexed : graph.Indexed)
    {entry : String × Multiset (String × NodeTerm)} :
    entry ∈ graph.contents ↔
      (graph.node? entry.1).isSome ∧ graph.stated entry.1 = entry.2 := by
  obtain ⟨id, statements⟩ := entry
  dsimp only
  rw [contents, Multiset.mem_coe, List.mem_map]
  constructor
  · rintro ⟨node, member, same⟩
    cases same
    have found := indexed.node?_eq_some_iff.mpr ⟨member, rfl⟩
    rw [stated, found]
    exact ⟨rfl, rfl⟩
  · rintro ⟨known, rfl⟩
    obtain ⟨node, found⟩ := Option.isSome_iff_exists.mp known
    obtain ⟨member, same⟩ := indexed.node?_eq_some_iff.mp found
    refine ⟨node, member, ?_⟩
    rw [stated, found, same]
    rfl

theorem contents_congr {other : Graph} (indexed : graph.Indexed) (otherIndexed : other.Indexed)
    (known : ∀ id, (graph.node? id).isSome ↔ (other.node? id).isSome)
    (same : ∀ id, graph.stated id = other.stated id) : graph.contents = other.contents := by
  rw [Multiset.Nodup.ext indexed.nodup_contents otherIndexed.nodup_contents]
  intro entry
  rw [indexed.mem_contents_iff, otherIndexed.mem_contents_iff, known, same]

end RdfMapping.Graph
