import RdfMapping.Proofs.Join.Index
/-!
What the resolution of joins gives for one record at a time. The indexes with which a
slot of a rule is resolved are those of all joins up to this one: the joins of the
rules before it, and those of its own rule as far as its first record has them.
-/

namespace RdfMapping

namespace Record

def withReferences (record : Record) (references : List (String × String)) : Record :=
  references.foldl
    (fun record reference => record.add reference.1 (.reference reference.2)) record

variable {record : Record}

theorem withReferences_append (first second : List (String × String)) :
    record.withReferences (first ++ second) =
      (record.withReferences first).withReferences second :=
  List.foldl_append

theorem values_add (sorted : Table.Sorted record.properties) (predicate other : String)
    (value : ObjectValue) :
    (record.add predicate value).values other =
      record.values other ++ if predicate = other then [value] else [] := by
  unfold values add
  rw [Table.get?_alter sorted]
  by_cases same : predicate = other
  · subst same
    simp
  · simp [same]

theorem withReferences_spec (sorted : Table.Sorted record.properties)
    (references : List (String × String)) :
    (record.withReferences references).id = record.id ∧
      (record.withReferences references).types = record.types ∧
      ∀ predicate, (record.withReferences references).values predicate =
        record.values predicate ++
          (references.filter fun reference => reference.1 = predicate).map
            fun reference => .reference reference.2 := by
  induction references generalizing record with
  | nil => exact ⟨rfl, rfl, fun predicate => (List.append_nil _).symm⟩
  | cons reference rest ih =>
      have later : Table.Sorted
          (record.add reference.1 (.reference reference.2)).properties :=
        Table.sorted_alter sorted
      obtain ⟨sameId, sameTypes, values⟩ := ih later
      refine ⟨sameId, sameTypes, ?_⟩
      intro predicate
      refine (values predicate).trans ?_
      rw [values_add sorted, List.append_assoc, List.filter_cons]
      by_cases same : reference.1 = predicate
      · simp [same]
      · simp [same]

end Record

namespace Join

def joinsUpTo (outputs : List RuleOutput) (rule slot : Nat) : List PendingJoin :=
  (outputs.take rule).flatMap shapes ++ (shapes (outputs[rule]?.getD [])).take (slot + 1)

def slotIndexes (outputs : List RuleOutput) (rule slot : Nat) : Indexes :=
  indexesFor outputs.toArray (joinsUpTo outputs rule slot)

def slotReferences (outputs : List RuleOutput) (indexes : Indexes) (evaluated : EvaluatedRecord)
    (shape : PendingJoin) (slot : Nat) : List (String × String) :=
  match outputs[shape.parent]? with
  | none => []
  | some target =>
      (targets indexes target shape slot evaluated).map fun found => (shape.predicate, found.id)

def ruleReferences (outputs : List RuleOutput) (rule : Nat) (joins : List PendingJoin)
    (evaluated : EvaluatedRecord) : List (String × String) :=
  (joins.mapIdx fun slot shape =>
    slotReferences outputs (slotIndexes outputs rule slot) evaluated shape slot).flatten

def resolvedRule (outputs : List RuleOutput) (rule : Nat) (output : RuleOutput) : List Record :=
  output.map fun evaluated =>
    evaluated.record.withReferences (ruleReferences outputs rule (shapes output) evaluated)

theorem resolveSlot_eq (outputs : List RuleOutput) (output : RuleOutput)
    (joins : List PendingJoin) (references : EvaluatedRecord → List (String × String))
    (shape : PendingJoin) (slot : Nat) :
    resolveSlot outputs.toArray output
        (indexesFor outputs.toArray joins,
          output.map fun evaluated => evaluated.record.withReferences (references evaluated))
        (shape, slot) =
      (indexesFor outputs.toArray (joins ++ [shape]),
        output.map fun evaluated => evaluated.record.withReferences (references evaluated ++
          slotReferences outputs (indexesFor outputs.toArray (joins ++ [shape])) evaluated shape
            slot)) := by
  have built : indexFor outputs.toArray (indexesFor outputs.toArray joins) shape =
      indexesFor outputs.toArray (joins ++ [shape]) := (List.foldl_concat ..).symm
  have paired (f : EvaluatedRecord → Record) :
      (output.map f).zip output = output.map fun evaluated => (f evaluated, evaluated) := by
    simpa using (List.zip_map' : (output.map f).zip (output.map id) = _)
  unfold resolveSlot slotReferences
  simp only [built, List.getElem?_toArray]
  cases outputs[shape.parent]? with
  | none => simp only [List.append_nil]
  | some target =>
      simp only [paired, List.map_map, Function.comp_def, Record.withReferences_append]
      simp only [Record.withReferences, refer, List.foldl_map]

theorem resolveOutput_eq (outputs : List RuleOutput) {rule : Nat} {output : RuleOutput}
    (outputAt : outputs[rule]? = some output) :
    resolveOutput outputs.toArray
        (indexesFor outputs.toArray ((outputs.take rule).flatMap shapes)) output =
      (indexesFor outputs.toArray ((outputs.take (rule + 1)).flatMap shapes),
        resolvedRule outputs rule output) := by
  -- the slots that have been passed are a first part of the shapes, and so are their indexes
  have general (later earlier : List PendingJoin) (split : shapes output = earlier ++ later) :
      (later.zipIdx earlier.length).foldl (resolveSlot outputs.toArray output)
        (indexesFor outputs.toArray ((outputs.take rule).flatMap shapes ++ earlier),
          output.map fun evaluated => evaluated.record.withReferences
            (ruleReferences outputs rule earlier evaluated)) =
      (indexesFor outputs.toArray ((outputs.take rule).flatMap shapes ++ shapes output),
        resolvedRule outputs rule output) := by
    induction later generalizing earlier with
    | nil =>
        rw [List.append_nil] at split
        rw [← split]
        rfl
    | cons shape later ih =>
        have passed : (shapes output).take (earlier.length + 1) = earlier ++ [shape] := by
          rw [split, List.take_length_add_append]
          rfl
        have indexes : indexesFor outputs.toArray
              ((outputs.take rule).flatMap shapes ++ earlier ++ [shape]) =
            slotIndexes outputs rule earlier.length := by
          unfold slotIndexes joinsUpTo
          rw [outputAt, Option.getD_some, passed, List.append_assoc]
        have next := ih (earlier ++ [shape]) (by rw [split, List.append_assoc]; rfl)
        rw [List.length_append, List.length_singleton, ← List.append_assoc, indexes] at next
        rw [List.zipIdx_cons, List.foldl_cons, resolveSlot_eq, indexes, ← next]
        simp only [ruleReferences, List.mapIdx_concat, List.flatten_concat]
  have started := general (shapes output) [] rfl
  have upTo : (outputs.take (rule + 1)).flatMap shapes =
      (outputs.take rule).flatMap shapes ++ shapes output := by
    rw [List.take_add_one, outputAt, List.flatMap_append]
    simp
  rw [upTo, ← started]
  simp [resolveOutput, ruleReferences, Record.withReferences]

theorem resolve_eq (outputs : List RuleOutput) :
    resolve outputs = outputs.mapIdx (resolvedRule outputs) := by
  have general (later earlier : List RuleOutput) (split : outputs = earlier ++ later) :
      (later.foldl
        (fun state output =>
          ((resolveOutput outputs.toArray state.1 output).1,
            state.2 ++ [(resolveOutput outputs.toArray state.1 output).2]))
        (indexesFor outputs.toArray (earlier.flatMap shapes),
          earlier.mapIdx (resolvedRule outputs))).2 = outputs.mapIdx (resolvedRule outputs) := by
    induction later generalizing earlier with
    | nil => rw [split, List.append_nil]; rfl
    | cons output later ih =>
        have outputAt : outputs[earlier.length]? = some output := by simp [split]
        have before : outputs.take earlier.length = earlier := by simp [split]
        have upTo : outputs.take (earlier.length + 1) = earlier ++ [output] := by
          rw [List.take_add_one, before, outputAt]
          rfl
        have here := resolveOutput_eq outputs outputAt
        rw [before, upTo] at here
        rw [List.foldl_cons, here, ← ih (earlier ++ [output]) (by simp [split]),
          List.mapIdx_concat]
  exact general outputs [] rfl

theorem mem_resolve_iff {outputs : List RuleOutput} {record : Record} :
    record ∈ (resolve outputs).flatten ↔
      ∃ (rule : Nat) (output : RuleOutput), outputs[rule]? = some output ∧ ∃ evaluated ∈ output,
        record = evaluated.record.withReferences
          (ruleReferences outputs rule (shapes output) evaluated) := by
  rw [resolve_eq, List.mem_flatten]
  constructor
  · intro known
    obtain ⟨records, recordsMember, member⟩ := known
    obtain ⟨rule, bound, same⟩ := List.mem_mapIdx.mp recordsMember
    rw [← same] at member
    obtain ⟨evaluated, evaluatedMember, same⟩ := List.mem_map.mp member
    exact ⟨rule, outputs[rule], List.getElem?_eq_getElem bound, evaluated, evaluatedMember,
      same.symm⟩
  · intro known
    obtain ⟨rule, output, outputAt, evaluated, evaluatedMember, same⟩ := known
    obtain ⟨bound, found⟩ := List.getElem?_eq_some_iff.mp outputAt
    refine ⟨resolvedRule outputs rule output, List.mem_mapIdx.mpr ⟨rule, bound, ?_⟩, ?_⟩
    · rw [found]
    · rw [same]
      exact List.mem_map_of_mem evaluatedMember

theorem of_mem_slotReferences {outputs : List RuleOutput} {indexes : Indexes}
    {evaluated : EvaluatedRecord} {shape : PendingJoin} {slot : Nat} {reference : String × String}
    (member : reference ∈ slotReferences outputs indexes evaluated shape slot) :
    reference.1 = shape.predicate ∧
      ∃ output ∈ outputs, ∃ target ∈ output, reference.2 = target.record.id := by
  unfold slotReferences at member
  cases found : outputs[shape.parent]? with
  | none =>
      rw [found] at member
      cases member
  | some output =>
      rw [found] at member
      obtain ⟨record, recordMember, same⟩ := List.mem_map.mp member
      obtain ⟨position, _, inOutput⟩ := List.mem_filterMap.mp recordMember
      obtain ⟨target, targetAt, named⟩ := Option.map_eq_some_iff.mp inOutput
      rw [← same, ← named]
      exact ⟨rfl, output, List.mem_of_getElem? found, target, List.mem_of_getElem? targetAt, rfl⟩

theorem exists_slot_of_mem_ruleReferences {outputs : List RuleOutput} {rule : Nat}
    {joins : List PendingJoin} {evaluated : EvaluatedRecord} {reference : String × String}
    (member : reference ∈ ruleReferences outputs rule joins evaluated) :
    ∃ slot shape, joins[slot]? = some shape ∧
      reference ∈ slotReferences outputs (slotIndexes outputs rule slot) evaluated shape slot := by
  obtain ⟨references, ofSlot, inSlot⟩ := List.mem_flatten.mp member
  obtain ⟨slot, bound, given⟩ := List.mem_mapIdx.mp ofSlot
  rw [← given] at inSlot
  exact ⟨slot, joins[slot], List.getElem?_eq_getElem bound, inSlot⟩

theorem mem_predicates_ruleReferences {outputs : List RuleOutput} {rule : Nat}
    {joins : List PendingJoin} {evaluated : EvaluatedRecord} {predicate : String} :
    predicate ∈ (ruleReferences outputs rule joins evaluated).map Prod.fst ↔
      ∃ slot shape, joins[slot]? = some shape ∧ shape.predicate = predicate ∧
        slotReferences outputs (slotIndexes outputs rule slot) evaluated shape slot ≠ [] := by
  rw [List.mem_map]
  constructor
  · intro known
    obtain ⟨reference, member, same⟩ := known
    obtain ⟨slot, shape, shapeAt, inSlot⟩ := exists_slot_of_mem_ruleReferences member
    refine ⟨slot, shape, shapeAt, ?_, List.ne_nil_of_mem inSlot⟩
    rw [← (of_mem_slotReferences inSlot).1, same]
  · intro known
    obtain ⟨slot, shape, shapeAt, same, some⟩ := known
    obtain ⟨reference, member⟩ := List.exists_mem_of_ne_nil _ some
    obtain ⟨bound, found⟩ := List.getElem?_eq_some_iff.mp shapeAt
    refine ⟨reference, List.mem_flatten.mpr ⟨_, List.mem_mapIdx.mpr ⟨slot, bound, rfl⟩, ?_⟩, ?_⟩
    · rw [found]
      exact member
    · rw [(of_mem_slotReferences member).1, same]

end Join

end RdfMapping
