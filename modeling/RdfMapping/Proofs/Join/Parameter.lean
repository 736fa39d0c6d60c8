import RdfMapping.Proofs.Evaluation.Joins
import RdfMapping.Proofs.Join.NestedLoop
/-!
One parent reference read in two ways. A parameter of a function gets the records of the
other rule at once, by a search for any of their values; a join gets them when all rules
are evaluated, through an index of their only values. The join refers to those records of
the parameter that have one value under every selector, so that the two are the same as
long as no record that the parameter gets has several.
-/

namespace RdfMapping

/-- The selector of a condition, and the text that a parameter looks for under it. -/
def PendingCondition.wanted (condition : PendingCondition) : String × Option String :=
  (condition.parentPath, condition.childValues.head?.map Json.lexical)

namespace EvaluatedRecord

def isSingle (evaluated : EvaluatedRecord) (conditions : List PendingCondition) : Bool :=
  conditions.all fun condition => (evaluated.valuesOf condition.parentPath).length == 1

/-- The record is among those that a parameter with these conditions gets. -/
def passes (evaluated : EvaluatedRecord) (conditions : List PendingCondition) : Bool :=
  evaluated.admits (conditions.map PendingCondition.wanted)

end EvaluatedRecord

theorem PendingCondition.admits_eq (condition : PendingCondition) (candidate : EvaluatedRecord) :
    condition.admits candidate =
      (candidate.passes [condition] && candidate.isSingle [condition]) := by
  obtain ⟨path, childValues⟩ := condition
  unfold admits EvaluatedRecord.passes EvaluatedRecord.admits EvaluatedRecord.isSingle
  simp only [List.map_cons, List.map_nil, List.all_cons, List.all_nil, Bool.and_true, wanted]
  cases childValues with
  | nil => simp
  | cons child rest =>
      cases candidate.valuesOf path with
      | nil => simp
      | cons value others =>
          cases others with
          | nil => simp [eq_comm]
          | cons other more => simp

/-- A join admits what a parameter gets, except where a record has several values. -/
theorem PendingJoin.admits_eq (pending : PendingJoin) (candidate : EvaluatedRecord) :
    pending.admits candidate =
      (candidate.passes pending.conditions && candidate.isSingle pending.conditions) := by
  unfold admits
  induction pending.conditions with
  | nil => rfl
  | cons condition rest ih =>
      have passes : candidate.passes (condition :: rest) =
          (candidate.passes [condition] && candidate.passes rest) := by
        simp [EvaluatedRecord.passes, EvaluatedRecord.admits]
      have isSingle : candidate.isSingle (condition :: rest) =
          (candidate.isSingle [condition] && candidate.isSingle rest) := by
        simp [EvaluatedRecord.isSingle]
      rw [List.all_cons, ih, condition.admits_eq, passes, isSingle]
      ac_rfl

namespace Join

theorem targets_of_shape {outputs : List RuleOutput} {rule slot : Nat}
    {joining : EvaluatedRecord} {shape own : PendingJoin} {target : RuleOutput}
    (meets : Meets outputs rule slot joining shape)
    (ownAt : joining.pending[slot]? = some own) (sameShape : own.shape = shape.shape)
    (targetAt : outputs[own.parent]? = some target) :
    targets (slotIndexes outputs rule slot) target shape slot joining =
      ((target.filter (·.passes own.conditions)).filter (·.isSingle own.conditions)).map
        EvaluatedRecord.record := by
  unfold targets
  rw [places_of_shape meets ownAt sameShape targetAt, filterMap_positionsWhere, List.filter_filter]
  congr 1
  apply List.filter_congr
  intro candidate _
  rw [own.admits_eq, Bool.and_comm]

end Join

namespace Run

variable {σ : Type} (run : Run σ)

theorem run_parentRecords (outputOf : Nat → RunM σ RuleOutput) (scope : RowScope)
    {reference : ParentReference} {parent : Nat} {target : RuleOutput}
    {conditions : List PendingCondition} {state next : RunState σ}
    (found : run.mapping.requireIndex reference.parent = .ok parent)
    (evaluated : (outputOf parent).run.run state = (.ok target, next))
    (read : scope.pendingConditions reference.conditions = .ok conditions) :
    (parentRecords (run.host outputOf) scope reference).run.run state =
      (.ok (.array ((target.filter (·.passes conditions)).map (·.record.toJson))), next) := by
  unfold parentRecords
  change (ExceptT.mk (pure (run.mapping.requireIndex reference.parent)) >>= _ :
    RunM σ Json).run.run state = _
  rw [found]
  change (outputOf parent >>= _ : RunM σ Json).run.run state = _
  rw [RunM.run_bind, evaluated]
  change (ExceptT.mk (pure (scope.pendingConditions reference.conditions)) >>= _ :
    RunM σ Json).run.run next = _
  rw [read]
  rfl

/-- A parameter gets the records that a join with the same values refers to exactly if none
of them has several values under a selector; a join never refers to others. -/
theorem parentRecords_eq_targets_iff (outputOf : Nat → RunM σ RuleOutput) (scope : RowScope)
    {reference : ParentReference} {parent : Nat} {target : RuleOutput}
    {conditions : List PendingCondition} {state next : RunState σ}
    (found : run.mapping.requireIndex reference.parent = .ok parent)
    (evaluated : (outputOf parent).run.run state = (.ok target, next))
    (read : scope.pendingConditions reference.conditions = .ok conditions) :
    ∃ passed : List EvaluatedRecord,
      (parentRecords (run.host outputOf) scope reference).run.run state =
          (.ok (.array (passed.map (·.record.toJson))), next) ∧
        ∀ outputs rule slot joining shape predicate, outputs[parent]? = some target →
          Join.Meets outputs rule slot joining shape →
          joining.pending[slot]? = some ⟨predicate, parent, conditions⟩ →
          shape.shape = ⟨predicate, parent, reference.paths⟩ →
            (Join.targets (Join.slotIndexes outputs rule slot) target shape slot joining).Sublist
                (passed.map EvaluatedRecord.record) ∧
              (Join.targets (Join.slotIndexes outputs rule slot) target shape slot joining =
                  passed.map EvaluatedRecord.record ↔
                ∀ candidate ∈ passed, ∀ condition ∈ conditions,
                  (candidate.valuesOf condition.parentPath).length = 1) := by
  refine ⟨target.filter (·.passes conditions),
    run.run_parentRecords outputOf scope found evaluated read, ?_⟩
  intro outputs rule slot joining shape predicate targetAt meets ownAt ofReference
  have sameShape : PendingJoin.shape ⟨predicate, parent, conditions⟩ = shape.shape := by
    rw [ofReference]
    unfold PendingJoin.shape
    rw [RowScope.paths_of_pendingConditions read]
    rfl
  rw [Join.targets_of_shape meets ownAt sameShape targetAt]
  generalize target.filter (·.passes conditions) = passed
  have single : (∀ candidate ∈ passed, ∀ condition ∈ conditions,
      (candidate.valuesOf condition.parentPath).length = 1) ↔
      passed.filter (·.isSingle conditions) = passed := by
    rw [List.filter_eq_self]
    simp [EvaluatedRecord.isSingle]
  refine ⟨List.filter_sublist.map _, ?_⟩
  rw [single]
  constructor
  · intro same
    -- a part of a list that is as long as the list is the whole of it
    apply List.filter_sublist.eq_of_length
    simpa using congrArg List.length same
  · intro same
    rw [same]

/-! ### A person with two keys -/

def countElements : Callable Unit := fun arguments world =>
  match arguments.valueAt 0 with
  | .array elements => (.ok (.integer elements.length), world)
  | _ => (.ok (.integer 0), world)

def visited : ParentReference := ⟨"persons", [⟨"of", "keys[*]"⟩]⟩

/-- Visits that refer to the visited persons, and count them as well. -/
def visits : Run Unit where
  mapping :=
    { rules :=
        [tableRule "visits" "visits"
          [⟨[.constant "linked"], [.ofKind (.parent visited)]⟩,
            ⟨[.constant "passed"], [.ofKind (.function ⟨"call",
              [⟨[.constant Vocabulary.executes], [.ofKind (.constant (.iri "count"))]⟩,
                ⟨[.constant "persons"], [.ofKind (.parent visited)]⟩]⟩)]⟩],
          { iri := "persons"
            source := ⟨"persons", some "$[*]", .jsonPath⟩
            subject :=
              { kind := .reference "id", termType := none, classes := [], classFunction := none }
            predicateObjectMaps := [] }]
      distinct := by decide
      closed := by decide }
  registry := Registry.standard.register "count" countElements
  options := {}
  sources :=
    [("persons", "[\x7b\"id\":\"p\",\"keys\":[\"1\",\"2\"]\x7d]"), ("visits", "id,of\nv,1\n")]

def firstVisit : RowScope := ⟨.csv ⟨["id", "of"], [["v", "1"]]⟩, 0, {}⟩

theorem parentRecords_visits_iff :
    ∃ target next conditions,
      visits.mapping.requireIndex visited.parent = .ok 1 ∧
        (visits.evaluate 1).run.run (visits.start [] ()) = (.ok target, next) ∧
        firstVisit.pendingConditions visited.conditions = .ok conditions ∧
        ∃ passed : List EvaluatedRecord,
          (parentRecords (visits.host visits.evaluate) firstVisit visited).run.run
              (visits.start [] ()) = (.ok (.array (passed.map (·.record.toJson))), next) ∧
            ∀ outputs rule slot joining shape predicate, outputs[1]? = some target →
              Join.Meets outputs rule slot joining shape →
              joining.pending[slot]? = some ⟨predicate, 1, conditions⟩ →
              shape.shape = ⟨predicate, 1, visited.paths⟩ →
                (Join.targets (Join.slotIndexes outputs rule slot) target shape slot
                    joining).Sublist (passed.map EvaluatedRecord.record) ∧
                  (Join.targets (Join.slotIndexes outputs rule slot) target shape slot joining =
                      passed.map EvaluatedRecord.record ↔
                    ∀ candidate ∈ passed, ∀ condition ∈ conditions,
                      (candidate.valuesOf condition.parentPath).length = 1) := by
  have found : visits.mapping.requireIndex visited.parent = .ok 1 := rfl
  have read : firstVisit.pendingConditions visited.conditions =
      .ok [⟨"keys[*]", [.string "1"]⟩] := rfl
  have success : ∃ target, ((visits.evaluate 1).run.run (visits.start [] ())).1 = .ok target ∧
      target.length = 1 := by
    apply Outcome.map_eq_ok.mp
    decide +kernel
  obtain ⟨target, given, _⟩ := success
  have evaluated : (visits.evaluate 1).run.run (visits.start [] ()) =
      (.ok target, ((visits.evaluate 1).run.run (visits.start [] ())).2) :=
    Prod.ext given rfl
  exact ⟨target, _, _, found, evaluated, read,
    visits.parentRecords_eq_targets_iff visits.evaluate firstVisit found evaluated read⟩

/-- One of the two keys of the person is that of the visit: the person is counted, and not
referred to. -/
theorem passed_ne_linked_visits :
    ∃ outputs, (visits.evaluateAll.run.run (visits.start [] ())).1 = .ok outputs ∧
      ∃ persons visit join, outputs[1]? = some persons ∧ Join.Meets outputs 0 0 visit join ∧
        join.shape = ⟨"linked", 1, visited.paths⟩ ∧
        (visit.record.values "passed").map (·.toJson.lexical) = ["1"] ∧
        Join.targets (Join.slotIndexes outputs 0 0) persons join 0 visit = [] := by
  have success : ∃ outputs, (visits.evaluateAll.run.run (visits.start [] ())).1 = .ok outputs ∧
      decide (∃ persons ∈ outputs[1]?, ∃ visitors ∈ outputs[0]?, ∃ visit ∈ visitors[0]?,
        ∃ join ∈ (Join.shapes visitors)[0]?, ∃ own ∈ visit.pending[0]?,
          own.shape = join.shape ∧ join.shape = ⟨"linked", 1, visited.paths⟩ ∧
          (visit.record.values "passed").map (·.toJson.lexical) = ["1"] ∧
          ((persons.filter (·.passes own.conditions)).filter (·.isSingle own.conditions)).length =
            0) = true := by
    apply Outcome.map_eq_ok.mp
    decide +kernel
  obtain ⟨outputs, evaluated, found⟩ := success
  obtain ⟨persons, personsAt, visitors, visitorsAt, visit, visitAt, join, joinAt, own, ownAt,
    sameShape, ofLinked, passed, missing⟩ := of_decide_eq_true found
  have meets : Join.Meets outputs 0 0 visit join :=
    ⟨visitors, visitorsAt, List.mem_of_getElem? visitAt, joinAt⟩
  have parent : own.parent = 1 := by
    rw [ofLinked] at sameShape
    exact congrArg JoinShape.parent sameShape
  refine ⟨outputs, evaluated, persons, visit, join, personsAt, meets, ofLinked, passed, ?_⟩
  rw [Join.targets_of_shape meets ownAt sameShape (by rw [parent]; exact personsAt),
    List.eq_nil_of_length_eq_zero missing]
  rfl

end Run

end RdfMapping
