import Mathlib.Data.List.Induction
import RdfMapping.Proofs.Graph.Nodes
import RdfMapping.Proofs.Repeats
/-!
What is found in a graph of statements. The nodes stand in the order in which they are first used
as a subject, the index gives the place of each of them, and what is found under an identifier and
a predicate are the objects that were added with these two. This holds of the empty graph, and
each further statement keeps it.
-/

namespace RdfMapping.Graph

variable {graph : Graph}

def ids (graph : Graph) : List String := graph.nodes.toList.map Node.id

/-! ### Identifiers -/

theorem length_ids (graph : Graph) : graph.ids.length = graph.size := by
  rw [ids, List.length_map, Array.length_toList, size]

theorem getElem?_ids (graph : Graph) (position : Nat) :
    graph.ids[position]? = graph.nodes[position]?.map Node.id := by
  rw [ids, List.getElem?_map, Array.getElem?_toList]

/-- The index is the list of identifiers, read from an identifier to its position. -/
theorem Indexed.getElem?_index (indexed : graph.Indexed) (id : String) (position : Nat) :
    graph.index[id]? = some position ↔ graph.ids[position]? = some id := by
  rw [getElem?_ids, Option.map_eq_some_iff]
  constructor
  · exact indexed.found id position
  · rintro ⟨node, found, rfl⟩
    exact indexed.known position node found

theorem Indexed.mem_ids (indexed : graph.Indexed) (id : String) :
    id ∈ graph.ids ↔ ∃ position, graph.index[id]? = some position := by
  rw [List.mem_iff_getElem?]
  exact exists_congr fun position => (indexed.getElem?_index id position).symm

theorem Indexed.ids_ensure (indexed : graph.Indexed) (id : String) :
    (graph.ensure id).ids = if id ∈ graph.ids then graph.ids else graph.ids ++ [id] := by
  cases known : graph.index[id]? with
  | some position =>
      rw [ensure_of_known known, if_pos ((indexed.mem_ids id).mpr ⟨position, known⟩)]
  | none =>
      have absent : id ∉ graph.ids := by
        rw [indexed.mem_ids, known]
        exact fun ⟨position, found⟩ => Option.some_ne_none position found.symm
      rw [ensure_of_unknown known, if_neg absent, ids, Array.toList_push, List.map_append]
      rfl

theorem Indexed.ids_add (indexed : graph.Indexed) (subject predicate : String)
    (object : NodeTerm) :
    (graph.add subject predicate object).ids =
      if subject ∈ graph.ids then graph.ids else graph.ids ++ [subject] := by
  obtain ⟨place, placeKnown⟩ := exists_index_ensure indexed subject
  have kept : (graph.add subject predicate object).ids = (graph.ensure subject).ids := by
    rw [add_eq_modify placeKnown]
    refine List.ext_getElem? fun position => ?_
    rw [getElem?_ids, getElem?_ids, Array.getElem?_modify]
    split
    · rw [Option.map_map]
      rfl
    · rfl
  rw [kept, indexed.ids_ensure]

/-! ### Statements -/

def said (graph : Graph) (id : String) : List (String × NodeTerm) :=
  ((graph.node? id).map Node.statements).getD []

theorem objects_eq (graph : Graph) (id predicate : String) :
    graph.objects id predicate = ((graph.said id).filter (·.1 = predicate)).map Prod.snd := by
  rw [objects, said]
  cases graph.node? id <;> rfl

theorem Indexed.said_add (indexed : graph.Indexed) (subject predicate id : String)
    (object : NodeTerm) :
    (graph.add subject predicate object).said id =
      if subject = id then graph.said id ++ [(predicate, object)] else graph.said id := by
  rw [said, said, node?_add indexed, node?_ensure indexed]
  by_cases same : subject = id
  · rw [if_pos same, if_pos same, if_pos same, same]
    cases graph.node? id <;> rfl
  · rw [if_neg same, if_neg same, if_neg same]

/-- What a graph tells of the statements that it was made from. -/
structure Tells (graph : Graph) (statements : List (String × String × NodeTerm)) : Prop where
  indexed : graph.Indexed
  ids : graph.ids = (statements.map Prod.fst).eraseDups
  said : ∀ id, graph.said id = (statements.filter (·.1 = id)).map Prod.snd

theorem tells_empty : empty.Tells [] where
  indexed := indexed_empty
  ids := rfl
  said := by
    intro id
    rw [Graph.said, node?, empty, Std.HashMap.getElem?_empty]
    rfl

namespace Tells

variable {statements : List (String × String × NodeTerm)}

theorem add (tells : graph.Tells statements) (statement : String × String × NodeTerm) :
    (graph.add statement.1 statement.2.1 statement.2.2).Tells (statements ++ [statement]) where
  indexed := tells.indexed.add _ _ _
  ids := by
    rw [tells.indexed.ids_add, tells.ids, List.map_append, List.map_singleton, eraseDups_concat]
    exact if_congr List.mem_eraseDups rfl rfl
  said := by
    intro id
    rw [tells.indexed.said_add, tells.said, List.filter_append, List.map_append,
      List.filter_singleton]
    by_cases same : statement.1 = id
    · rw [if_pos same, decide_eq_true same]
      rfl
    · rw [if_neg same, decide_eq_false same, cond_false, List.map_nil, List.append_nil]

theorem objects (tells : graph.Tells statements) (id predicate : String) :
    graph.objects id predicate =
      (statements.filter fun s => s.1 = id ∧ s.2.1 = predicate).map (·.2.2) := by
  rw [objects_eq, tells.said, List.filter_map, List.map_map, List.filter_filter]
  refine congrArg (List.map _) (List.filter_congr fun statement _ => ?_)
  simp [Bool.and_comm]

end Tells

theorem tells_ofStatements (statements : List (String × String × NodeTerm)) :
    (ofStatements statements).Tells statements := by
  induction statements using List.reverseRecOn with
  | nil => exact tells_empty
  | append_singleton before last ih =>
      rw [ofStatements, List.foldl_concat]
      exact ih.add last

/-! ### Look-ups -/

/-- A graph is looked up as the statements say: its nodes are the subjects, in the order of their
first use, the index has their places and nothing else, the objects of a predicate are those that
were added with it, in order and with repetitions, and a further statement changes what is found
under its own subject and predicate alone. -/
structure IsFaithful (graph : Graph) (statements : List (String × String × NodeTerm)) : Prop where
  distinct : graph.ids.Nodup
  ordered : graph.ids = (statements.map Prod.fst).eraseDups
  index : ∀ (id : String) (position : Nat),
    graph.index[id]? = some position ↔ graph.ids[position]? = some id
  objects : ∀ id predicate, graph.objects id predicate =
    (statements.filter fun s => s.1 = id ∧ s.2.1 = predicate).map (·.2.2)
  first : ∀ id predicate, graph.object? id predicate =
    (statements.find? fun s => s.1 = id ∧ s.2.1 = predicate).map (·.2.2)
  unchanged : ∀ (subject predicate : String) (object : NodeTerm) (id other : String),
    (id, other) ≠ (subject, predicate) →
      (graph.add subject predicate object).objects id other = graph.objects id other ∧
        (graph.add subject predicate object).object? id other = graph.object? id other

theorem Indexed.objects_add_of_ne (indexed : graph.Indexed) {subject predicate id other : String}
    (apart : (id, other) ≠ (subject, predicate)) (object : NodeTerm) :
    (graph.add subject predicate object).objects id other = graph.objects id other := by
  rw [objects_eq, objects_eq, indexed.said_add]
  by_cases same : subject = id
  · have different : predicate ≠ other := fun equal => apart (by rw [same, equal])
    rw [if_pos same, List.filter_append, List.filter_singleton, decide_eq_false different,
      cond_false, List.append_nil]
  · rw [if_neg same]

theorem isFaithful_ofStatements (statements : List (String × String × NodeTerm)) :
    (ofStatements statements).IsFaithful statements := by
  have tells := tells_ofStatements statements
  refine ⟨tells.indexed.nodup_ids, tells.ids, tells.indexed.getElem?_index, tells.objects, ?_, ?_⟩
  · intro id predicate
    rw [object?, tells.objects, List.head?_map, List.head?_filter]
  · intro subject predicate object id other apart
    have same := tells.indexed.objects_add_of_ne apart object
    exact ⟨same, congrArg List.head? same⟩

end RdfMapping.Graph
