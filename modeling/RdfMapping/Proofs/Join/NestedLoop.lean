import RdfMapping.Proofs.Join.Lookup
/-!
Joins by index against joins by search. A search goes through all records of the parent
rule for every pending join; where the records of each rule have joins of one shape, the
indexes give the same references in the same order.
-/

namespace RdfMapping

/-- The references of a pending join, found by trying every record of its parent rule. -/
def PendingJoin.linked (outputs : List RuleOutput) (pending : PendingJoin) :
    List (String × String) :=
  ((outputs[pending.parent]?.getD []).filter pending.admits).map fun candidate =>
    (pending.predicate, candidate.record.id)

namespace Join

variable {outputs : List RuleOutput}

/-- The records of all rules, each with the references of its own pending joins. -/
def nestedLoop (outputs : List RuleOutput) : List (List Record) :=
  outputs.map fun output => output.map fun evaluated =>
    evaluated.record.withReferences (evaluated.pending.flatMap (PendingJoin.linked outputs))

theorem sought_of_shape {rule slot : Nat} {evaluated : EvaluatedRecord} {shape own : PendingJoin}
    (meets : Meets outputs rule slot evaluated shape) (sameShape : own.shape = shape.shape)
    (conditional : own.conditions ≠ []) : Sought outputs rule slot own := by
  obtain ⟨output, outputAt, _, shapeAt⟩ := meets
  refine ⟨conditional, ?_⟩
  intro condition member
  refine ⟨shape, ?_, (congrArg JoinShape.parent sameShape).symm, ?_⟩
  · apply List.mem_append_right
    rw [outputAt, Option.getD_some]
    apply List.mem_of_getElem? (i := slot)
    rw [List.getElem?_take_of_lt (Nat.lt_succ_self slot), shapeAt]
  · have samePaths : own.conditions.map PendingCondition.parentPath =
        shape.conditions.map PendingCondition.parentPath := congrArg JoinShape.paths sameShape
    rw [← samePaths]
    exact List.mem_map_of_mem member

theorem places_of_shape {rule slot : Nat} {evaluated : EvaluatedRecord} {shape own : PendingJoin}
    {target : RuleOutput} (meets : Meets outputs rule slot evaluated shape)
    (ownAt : evaluated.pending[slot]? = some own) (sameShape : own.shape = shape.shape)
    (targetAt : outputs[own.parent]? = some target) :
    places (slotIndexes outputs rule slot) target shape slot evaluated =
      positionsWhere own.admits target := by
  have samePaths : own.conditions.map PendingCondition.parentPath =
      shape.conditions.map PendingCondition.parentPath := congrArg JoinShape.paths sameShape
  unfold places
  by_cases unconditional : own.conditions = []
  · have shapeUnconditional : shape.conditions = [] := by
      simpa [unconditional] using samePaths.symm
    rw [shapeUnconditional, List.isEmpty_nil, if_pos rfl, positionsWhere_true]
    intro candidate
    unfold PendingJoin.admits
    rw [unconditional, List.all_nil]
  · have shapeConditional : shape.conditions.isEmpty = false := by
      rw [List.isEmpty_eq_false_iff, ← List.map_eq_nil_iff.ne, ← samePaths]
      exact List.map_eq_nil_iff.ne.mpr unconditional
    have asked := (sought_of_shape meets sameShape unconditional).2
    simp only [shapeConditional, Bool.false_eq_true, if_false, ownAt]
    unfold slotIndexes
    rw [positions_indexesFor (by simpa using targetAt) unconditional, if_pos asked]

theorem slotReferences_of_shape {rule slot : Nat} {evaluated : EvaluatedRecord}
    {shape own : PendingJoin} (inside : JoinsInside outputs)
    (meets : Meets outputs rule slot evaluated shape)
    (ownAt : evaluated.pending[slot]? = some own) (sameShape : own.shape = shape.shape) :
    slotReferences outputs (slotIndexes outputs rule slot) evaluated shape slot =
      own.linked outputs := by
  have samePredicate : own.predicate = shape.predicate :=
    congrArg JoinShape.predicate sameShape
  have sameParent : own.parent = shape.parent := congrArg JoinShape.parent sameShape
  obtain ⟨target, targetAt⟩ := meets.parent inside
  have ownTargetAt : outputs[own.parent]? = some target := by rw [sameParent, targetAt]
  unfold slotReferences PendingJoin.linked targets
  simp only [targetAt, ownTargetAt, places_of_shape meets ownAt sameShape ownTargetAt,
    Option.getD_some, samePredicate, filterMap_positionsWhere, List.map_map, Function.comp_def]

theorem ruleReferences_of_uniform (inside : JoinsInside outputs) {rule : Nat}
    {output : RuleOutput} (outputAt : outputs[rule]? = some output)
    (uniform : UniformShape output) {evaluated : EvaluatedRecord} (member : evaluated ∈ output) :
    ruleReferences outputs rule (shapes output) evaluated =
      evaluated.pending.flatMap (PendingJoin.linked outputs) := by
  unfold ruleReferences
  rw [List.flatMap_def]
  congr 1
  apply List.ext_getElem?
  intro slot
  rw [List.getElem?_mapIdx, List.getElem?_map]
  have same := uniform.getElem? member slot
  cases shapeAt : (shapes output)[slot]? with
  | none =>
      rw [shapeAt, Option.map_none, Option.map_eq_none_iff] at same
      rw [same]
      rfl
  | some shape =>
      rw [shapeAt] at same
      obtain ⟨own, ownAt, sameShape⟩ := Option.map_eq_some_iff.mp same
      rw [ownAt, Option.map_some, Option.map_some]
      exact congrArg some
        (slotReferences_of_shape inside ⟨output, outputAt, member, shapeAt⟩ ownAt sameShape)

theorem resolve_of_uniform (inside : JoinsInside outputs)
    (uniform : ∀ output ∈ outputs, UniformShape output) : resolve outputs = nestedLoop outputs := by
  rw [resolve_eq]
  unfold nestedLoop
  apply List.ext_getElem?
  intro rule
  rw [List.getElem?_mapIdx, List.getElem?_map]
  cases outputAt : outputs[rule]? with
  | none => rfl
  | some output =>
      have same : resolvedRule outputs rule output = output.map fun evaluated =>
          evaluated.record.withReferences
            (evaluated.pending.flatMap (PendingJoin.linked outputs)) := by
        apply List.map_congr_left
        intro evaluated member
        rw [ruleReferences_of_uniform inside outputAt
          (uniform output (List.mem_of_getElem? outputAt)) member]
      rw [Option.map_some, Option.map_some, same]

/-- A join by index is a nested loop over the records of a rule and of its parents. -/
theorem resolve_eq_nestedLoop (inside : JoinsInside outputs)
    (uniform : ∀ output ∈ outputs, UniformShape output) :
    SafeLookups outputs ∧ resolve outputs = nestedLoop outputs := by
  refine ⟨safeLookups_of_uniform inside uniform, ?_⟩
  exact resolve_of_uniform inside uniform

def person (id : String) (keys friends : List String) : EvaluatedRecord where
  record := .ofId id
  parentValues := [("key", keys.map .string), ("friend", friends.map .string)]
  pending :=
    [⟨"knows", 0, [⟨"key", friends.map .string⟩]⟩, ⟨"uses", 1, []⟩,
      ⟨"knows", 0, [⟨"friend", friends.map .string⟩, ⟨"key", keys.map .string⟩]⟩]

/-- Persons with no key, one and two of them, and the things that all of them use. -/
def friends : List RuleOutput :=
  [[person "a" ["1"] ["1", "2"], person "b" ["1", "2"] ["1"], person "c" ["2"] [],
      person "d" ["1"] ["1"]],
    [⟨.ofId "x", [], []⟩, ⟨.ofId "y", [], []⟩]]

theorem resolve_friends :
    JoinsInside friends ∧ (∀ output ∈ friends, UniformShape output) ∧
      (SafeLookups friends ∧ resolve friends = nestedLoop friends) ∧
      (nestedLoop friends).map (·.map Record.references) =
        [[["a", "d", "d", "x", "y"], ["a", "d", "d", "x", "y"], ["x", "y"],
          ["a", "d", "d", "x", "y"]], [[], []]] := by
  have inside : JoinsInside friends := by decide
  have uniform : ∀ output ∈ friends, UniformShape output := by decide
  exact ⟨inside, uniform, resolve_eq_nestedLoop inside uniform, by decide +kernel⟩

end Join

end RdfMapping
