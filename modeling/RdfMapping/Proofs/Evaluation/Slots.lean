import RdfMapping.Proofs.Evaluation.Possible
import RdfMapping.Proofs.Join.Shape
import RdfMapping.Proofs.Outcome
/-!
The pending joins of the records of a row. Every predicate that the row gives to a
parent reference is a slot of its own; what functions return and what other rules give
has no part in it. The records of a rule are therefore of one shape exactly if all rows
that have a record give the same predicates to the parent references.
-/

namespace RdfMapping

def Mapping.slotsOf (mapping : Mapping) (predicates : List String) (reference : ParentReference) :
    List JoinShape :=
  match mapping.indexOf? reference.parent with
  | some parent => predicates.map fun predicate => ⟨predicate, parent, reference.paths⟩
  | none => []

/-- No row has a say in the predicates of the parent references of a rule. -/
def Rule.FixedJoins (rule : Rule) : Prop :=
  ∀ pom ∈ rule.predicateObjectMaps, pom.objects.filterMap ObjectMap.parent? ≠ [] →
    ∀ map ∈ pom.predicates, ∃ text, map = .constant text

instance (map : TextMap) : Decidable (∃ text, map = .constant text) :=
  match map with
  | .constant text => isTrue ⟨text, rfl⟩
  | .reference _ => isFalse fun constant => by cases constant.choose_spec
  | .template _ => isFalse fun constant => by cases constant.choose_spec

instance (rule : Rule) : Decidable rule.FixedJoins :=
  inferInstanceAs (Decidable (∀ pom ∈ rule.predicateObjectMaps,
    pom.objects.filterMap ObjectMap.parent? ≠ [] →
      ∀ map ∈ pom.predicates, ∃ text, map = .constant text))

namespace RowScope

variable (scope : RowScope)

def predicatesOf (pom : PredicateObjectMap) : List String :=
  (scope.predicates pom.predicates).toOption.getD []

def slots (mapping : Mapping) (rule : Rule) : List JoinShape :=
  rule.predicateObjectMaps.flatMap fun pom =>
    (pom.objects.filterMap ObjectMap.parent?).flatMap
      (mapping.slotsOf (scope.predicatesOf pom))

/-- Whether a row has a record. A function that gives no identifier leaves the row its
fallback. -/
def isNamed (rule : Rule) : Bool :=
  match rule.subject.kind with
  | .reference selector => ((scope.strings selector).toOption.getD []).any isIdentifier
  | .template template => !((scope.expand false template).toOption.getD []).isEmpty
  | .function _ | .constant _ | .blank => true

end RowScope

namespace RowScope

theorem paths_of_pendingConditions {scope : RowScope} {conditions : List JoinCondition}
    {pending : List PendingCondition} (success : scope.pendingConditions conditions = .ok pending) :
    pending.map PendingCondition.parentPath = conditions.map JoinCondition.parent := by
  apply Outcome.map_of_mapM_eq_ok _ success
  intro condition pending read
  obtain ⟨values, _, same⟩ := Outcome.map_eq_ok.mp read
  rw [← same]

theorem predicates_of_constant {maps : List TextMap}
    (constant : ∀ map ∈ maps, ∃ text, map = .constant text) (first second : RowScope) :
    first.predicates maps = second.predicates maps := by
  have same : maps.mapM (first.texts false) = maps.mapM (second.texts false) := by
    induction maps with
    | nil => rfl
    | cons map rest ih =>
        obtain ⟨text, given⟩ := constant map List.mem_cons_self
        rw [List.mapM_cons, List.mapM_cons, given,
          ih fun other member => constant other (List.mem_cons_of_mem _ member)]
        rfl
  unfold predicates
  rw [same]

end RowScope

namespace Draft

def shape (draft : Draft) : List JoinShape := draft.pending.map PendingJoin.shape

theorem pending_foldl {α : Type} {step : Draft → α → Draft}
    (same : ∀ draft a, (step draft a).pending = draft.pending) (items : List α) (draft : Draft) :
    (items.foldl step draft).pending = draft.pending := by
  induction items generalizing draft with
  | nil => rfl
  | cons a rest ih => exact (ih (step draft a)).trans (same draft a)

theorem pending_addValue (predicate : String) (draft : Draft) (value : ObjectValue) :
    (addValue predicate draft value).pending = draft.pending := by
  unfold addValue
  split
  · rfl
  · rfl

theorem shape_add_values (draft : Draft) (predicates : List String) (values : List ObjectValue) :
    (draft.add predicates (.values values)).shape = draft.shape := by
  apply congrArg (List.map PendingJoin.shape)
  apply pending_foldl
  intro draft predicate
  exact pending_foldl (pending_addValue predicate) values draft

theorem shape_add_join (draft : Draft) (predicates : List String) (parent : Nat)
    (conditions : List PendingCondition) :
    (draft.add predicates (.join parent conditions)).shape =
      draft.shape ++ predicates.map fun predicate =>
        ⟨predicate, parent, conditions.map PendingCondition.parentPath⟩ := by
  unfold shape add
  rw [List.map_append, List.map_map]
  rfl

end Draft

namespace Run

variable {σ : Type} (run : Run σ) (scope : RowScope)

/-! ### Objects -/

theorem mem_lift {α : Type} {outcome : Outcome α} {a : α} :
    a ∈ (run.looseHost.lift outcome).run ↔ outcome = .ok a := Iff.rfl

theorem join_of_mem_resolve {object : ObjectMap} {reference : ParentReference}
    (kind : object.parent? = some reference) {resolved : Resolved}
    (member : resolved ∈ (resolve run.looseHost scope object).run) :
    ∃ parent conditions, run.mapping.indexOf? reference.parent = some parent ∧
      conditions.map PendingCondition.parentPath = reference.paths ∧
      resolved = .join parent conditions := by
  unfold ObjectMap.parent? at kind
  unfold resolve at member
  cases given : object.kind with
  | parent reference =>
      simp only [given, Option.some.injEq] at kind
      subst kind
      simp only [given, mem_lift] at member
      obtain ⟨parent, found, later⟩ := Outcome.bind_eq_ok.mp member
      obtain ⟨conditions, read, same⟩ := Outcome.bind_eq_ok.mp later
      refine ⟨parent, conditions, ?_, RowScope.paths_of_pendingConditions read,
        (Except.ok.inj same).symm⟩
      change run.mapping.requireIndex reference.parent = .ok parent at found
      unfold Mapping.requireIndex at found
      cases known : run.mapping.indexOf? reference.parent with
      | none => rw [known] at found; cases found
      | some index => rw [known] at found; cases found; rfl
  | constant | reference | template | function => simp [given] at kind

theorem values_of_mem_resolve {object : ObjectMap} (kind : object.parent? = none)
    {resolved : Resolved} (member : resolved ∈ (resolve run.looseHost scope object).run) :
    ∃ values, resolved = .values values := by
  unfold ObjectMap.parent? at kind
  unfold resolve at member
  cases given : object.kind with
  | parent reference => simp [given] at kind
  | constant value =>
      rw [given] at member
      cases value with
      | iri iri => exact ⟨_, SetM.mem_pure.mp member⟩
      | literal text datatype language =>
          obtain ⟨_, _, same⟩ := SetM.mem_bind.mp member
          exact ⟨_, SetM.mem_pure.mp same⟩
  | reference selector =>
      simp only [given, mem_lift] at member
      obtain ⟨_, _, later⟩ := Outcome.bind_eq_ok.mp member
      obtain ⟨_, _, same⟩ := Outcome.bind_eq_ok.mp later
      exact ⟨_, (Except.ok.inj same).symm⟩
  | template template =>
      simp only [given, mem_lift] at member
      obtain ⟨_, _, later⟩ := Outcome.bind_eq_ok.mp member
      obtain ⟨_, _, same⟩ := Outcome.bind_eq_ok.mp later
      exact ⟨_, (Except.ok.inj same).symm⟩
  | function call =>
      rw [given] at member
      obtain ⟨_, _, later⟩ := SetM.mem_bind.mp member
      obtain ⟨_, _, same⟩ := SetM.mem_bind.mp later
      exact ⟨_, SetM.mem_pure.mp same⟩

theorem shape_add_resolved {object : ObjectMap} {resolved : Resolved}
    (member : resolved ∈ (resolve run.looseHost scope object).run) (predicates : List String)
    (draft : Draft) :
    (draft.add predicates resolved).shape =
      draft.shape ++ object.parent?.toList.flatMap (run.mapping.slotsOf predicates) := by
  cases kind : object.parent? with
  | none =>
      obtain ⟨values, rfl⟩ := run.values_of_mem_resolve scope kind member
      rw [Draft.shape_add_values, Option.toList_none, List.flatMap_nil, List.append_nil]
  | some reference =>
      obtain ⟨parent, conditions, found, paths, rfl⟩ := run.join_of_mem_resolve scope kind member
      rw [Draft.shape_add_join, Option.toList_some, List.flatMap_singleton, paths]
      unfold Mapping.slotsOf
      rw [found]

theorem shape_of_mem_addObjects {predicates : List String} {draft next : Draft}
    {objects : List ObjectMap}
    (member : next ∈ (addObjects run.looseHost scope predicates draft objects).run) :
    next.shape = draft.shape ++ (objects.filterMap ObjectMap.parent?).flatMap
      (run.mapping.slotsOf predicates) := by
  rw [List.filterMap_eq_flatMap_toList, List.flatMap_assoc]
  refine SetM.view_foldlM Draft.shape _ ?_ objects member
  intro draft object next nextMember
  obtain ⟨resolved, resolvedMember, same⟩ := SetM.mem_bind.mp nextMember
  rw [SetM.mem_pure.mp same]
  exact run.shape_add_resolved scope resolvedMember predicates draft

theorem shape_of_mem_extend {draft next : Draft} {pom : PredicateObjectMap}
    (member : next ∈ (extend run.looseHost scope draft pom).run) :
    next.shape = draft.shape ++ (pom.objects.filterMap ObjectMap.parent?).flatMap
      (run.mapping.slotsOf (scope.predicatesOf pom)) := by
  obtain ⟨predicates, read, later⟩ := SetM.mem_bind.mp member
  have given : scope.predicatesOf pom = predicates := by
    unfold RowScope.predicatesOf
    rw [(run.mem_lift).mp read]
    rfl
  rw [given]
  cases predicates with
  | nil =>
      have nothing : run.mapping.slotsOf [] = fun _ => [] := by
        funext reference
        unfold Mapping.slotsOf
        cases run.mapping.indexOf? reference.parent with
        | none => rfl
        | some parent => rfl
      rw [SetM.mem_pure.mp later, nothing]
      simp
  | cons predicate rest => exact run.shape_of_mem_addObjects scope later

/-! ### Subjects -/

theorem isNamed_of_mem_subjects {rule : Rule} {ids : List String}
    (member : ids ∈ (subjects run.looseHost scope rule).run) :
    scope.isNamed rule = !ids.isEmpty := by
  unfold subjects at member
  by_cases literal : rule.subject.resolvedTermType = .literal
  · rw [if_pos literal] at member
    cases member
  · simp only [literal, if_false] at member
    unfold RowScope.isNamed
    cases given : rule.subject.kind with
    | reference selector =>
        rw [given] at member
        obtain ⟨texts, read, same⟩ := SetM.mem_bind.mp member
        rw [SetM.mem_pure.mp same, List.isEmpty_map]
        simp only [(run.mem_lift).mp read]
        change texts.any isIdentifier = _
        rw [Bool.eq_iff_iff]
        simp
    | template template =>
        rw [given] at member
        obtain ⟨texts, read, same⟩ := SetM.mem_bind.mp member
        rw [SetM.mem_pure.mp same, List.isEmpty_map]
        simp only [(run.mem_lift).mp read]
        rfl
    | function call =>
        rw [given] at member
        obtain ⟨result, _, later⟩ := SetM.mem_bind.mp member
        cases texts : valueTexts (unwrapSingle result) with
        | nil =>
            simp only [texts] at later
            rw [SetM.mem_pure.mp later]
            rfl
        | cons text rest =>
            simp only [texts] at later
            rw [SetM.mem_pure.mp later]
            rfl
    | constant iri =>
        rw [given] at member
        rw [SetM.mem_pure.mp member]
        rfl
    | blank =>
        rw [given] at member
        rw [SetM.mem_pure.mp member]
        rfl

/-! ### Rows -/

theorem mem_evaluateRow {rule : Rule} {paths : List String} {output : RuleOutput}
    (member : output ∈ (evaluateRow run.looseHost scope rule paths).run) :
    scope.isNamed rule = !output.isEmpty ∧
      ∀ evaluated ∈ output, evaluated.shape = scope.slots run.mapping rule := by
  unfold evaluateRow at member
  obtain ⟨types, _, afterTypes⟩ := SetM.mem_bind.mp member
  obtain ⟨ids, idsMember, afterIds⟩ := SetM.mem_bind.mp afterTypes
  rw [run.isNamed_of_mem_subjects scope idsMember]
  cases ids with
  | nil =>
      rw [SetM.mem_pure.mp afterIds]
      exact ⟨rfl, fun _ inNil => by cases inNil⟩
  | cons id rest =>
      obtain ⟨draft, drafted, afterDraft⟩ := SetM.mem_bind.mp afterIds
      obtain ⟨parentValues, _, same⟩ := SetM.mem_bind.mp afterDraft
      have shaped := SetM.view_foldlM Draft.shape _
        (fun _ _ _ nextMember => run.shape_of_mem_extend scope nextMember) _ drafted
      rw [SetM.mem_pure.mp same]
      refine ⟨rfl, ?_⟩
      intro evaluated evaluatedMember
      obtain ⟨other, _, rfl⟩ := List.mem_map.mp evaluatedMember
      exact shaped

/-- What holds of the records of every row holds of all records of a rule, and every row
that has a record is met. -/
theorem rows_of_mem_evaluateRule {options : Options} {rows : Rows} {rule : Rule}
    {paths : List String} {holds : RowScope → EvaluatedRecord → Prop}
    (each : ∀ (scope : RowScope) (output : RuleOutput),
      output ∈ (evaluateRow run.looseHost scope rule paths).run →
        scope.isNamed rule = !output.isEmpty ∧ ∀ evaluated ∈ output, holds scope evaluated)
    {output : RuleOutput}
    (member : output ∈ (evaluateRule run.looseHost options rows rule paths).run) :
    (∀ evaluated ∈ output, ∃ row < rows.count,
        (RowScope.mk rows row options).isNamed rule = true ∧
          holds ⟨rows, row, options⟩ evaluated) ∧
      ∀ row < rows.count, (RowScope.mk rows row options).isNamed rule = true →
        ∃ evaluated ∈ output, holds ⟨rows, row, options⟩ evaluated := by
  obtain ⟨parts, partsMember, flattened⟩ := SetM.mem_bind.mp member
  obtain ⟨length, possible⟩ := SetM.mem_mapM_range partsMember
  have byRow (row : Nat) (part : RuleOutput) (partAt : parts[row]? = some part) :=
    each ⟨rows, row, options⟩ part (possible row part partAt)
  rw [SetM.mem_pure.mp flattened]
  constructor
  · intro evaluated inParts
    obtain ⟨part, partMember, inPart⟩ := List.mem_flatten.mp inParts
    obtain ⟨row, partAt⟩ := List.getElem?_of_mem partMember
    obtain ⟨sameNamed, held⟩ := byRow row part partAt
    refine ⟨row, ?_, ?_, held evaluated inPart⟩
    · rw [← length]
      exact (List.getElem?_eq_some_iff.mp partAt).1
    · rw [sameNamed, Bool.not_eq_true', List.isEmpty_eq_false_iff]
      exact List.ne_nil_of_mem inPart
  · intro row bound named
    rw [← length] at bound
    obtain ⟨sameNamed, held⟩ := byRow row _ (List.getElem?_eq_getElem bound)
    rw [named, eq_comm, Bool.not_eq_true', List.isEmpty_eq_false_iff] at sameNamed
    obtain ⟨evaluated, inPart⟩ := List.exists_mem_of_ne_nil _ sameNamed
    exact ⟨evaluated, List.mem_flatten_of_mem (List.getElem_mem bound) inPart,
      held evaluated inPart⟩

/-- Every record has the slots of a row that has a record, and every such row is met. -/
theorem mem_evaluateRule {options : Options} {rows : Rows} {rule : Rule} {paths : List String}
    {output : RuleOutput}
    (member : output ∈ (evaluateRule run.looseHost options rows rule paths).run) :
    (∀ evaluated ∈ output, ∃ row < rows.count,
        (RowScope.mk rows row options).isNamed rule = true ∧
          evaluated.shape = (RowScope.mk rows row options).slots run.mapping rule) ∧
      ∀ row < rows.count, (RowScope.mk rows row options).isNamed rule = true →
        ∃ evaluated ∈ output,
          evaluated.shape = (RowScope.mk rows row options).slots run.mapping rule :=
  run.rows_of_mem_evaluateRule (fun scope _ => run.mem_evaluateRow scope) member

/-! ### Rules -/

/-- All rows of a rule that have a record ask for the same joins. -/
def SteadyRows (rule : Rule) (rows : Rows) : Prop :=
  ∀ first < rows.count, ∀ second < rows.count,
    (RowScope.mk rows first run.options).isNamed rule = true →
    (RowScope.mk rows second run.options).isNamed rule = true →
      (RowScope.mk rows first run.options).slots run.mapping rule =
        (RowScope.mk rows second run.options).slots run.mapping rule

theorem steadyRows_of_fixedJoins {rule : Rule} (fixed : rule.FixedJoins) (rows : Rows) :
    run.SteadyRows rule rows := by
  intro first _ second _ _ _
  apply List.flatMap_congr
  intro pom member
  by_cases unjoined : pom.objects.filterMap ObjectMap.parent? = []
  · rw [unjoined]
    rfl
  · unfold RowScope.predicatesOf
    rw [RowScope.predicates_of_constant (fixed pom member unjoined)]

theorem uniformShape_of_possible {cache : Cache} {index : Nat} {output : RuleOutput}
    (possible : output ∈ (run.possibleOutputs cache index).run) :
    ∃ rule rows, run.mapping.rules[index]? = some rule ∧ run.rowsFrom cache rule = .ok rows ∧
      (UniformShape output ↔ run.SteadyRows rule rows) := by
  obtain ⟨rule, rows, ruleAt, opened, member⟩ := possible
  obtain ⟨rowOf, recordOf⟩ := run.mem_evaluateRule member
  refine ⟨rule, rows, ruleAt, opened, ?_⟩
  rw [uniformShape_iff]
  constructor
  · intro uniform first firstBound second secondBound firstNamed secondNamed
    obtain ⟨firstRecord, firstMember, firstShape⟩ := recordOf first firstBound firstNamed
    obtain ⟨secondRecord, secondMember, secondShape⟩ := recordOf second secondBound secondNamed
    rw [← firstShape, ← secondShape]
    exact uniform firstRecord firstMember secondRecord secondMember
  · intro steady first firstMember second secondMember
    obtain ⟨firstRow, firstBound, firstNamed, firstShape⟩ := rowOf first firstMember
    obtain ⟨secondRow, secondBound, secondNamed, secondShape⟩ := rowOf second secondMember
    rw [firstShape, secondShape]
    exact steady firstRow firstBound secondRow secondBound firstNamed secondNamed

/-- The records of a rule are of one shape exactly if its rows are steady. -/
theorem uniformShape_evaluate_iff (cache : Cache) (world : σ) (requests : List Request)
    {index : Nat} {output : RuleOutput}
    (success : ((run.evaluate index).run.run
      (run.after requests (run.start cache world))).1 = .ok output) :
    ∃ rule rows, run.mapping.rules[index]? = some rule ∧ run.rowsFrom cache rule = .ok rows ∧
      (UniformShape output ↔ run.SteadyRows rule rows) := by
  have sound := run.after_sound cache requests world
  exact run.uniformShape_of_possible
    ((run.evaluate_possible cache index _ sound).2 output success)

def tableRule (iri source : String) (predicateObjectMaps : List PredicateObjectMap) : Rule where
  iri := iri
  source := ⟨source, none, .csv⟩
  subject := { kind := .reference "id", termType := none, classes := [], classFunction := none }
  predicateObjectMaps := predicateObjectMaps

/-- Persons joined with each other, each of them under the predicate of its own row. -/
def feelings : Run Unit where
  mapping :=
    { rules :=
        [tableRule "persons" "rows"
          [⟨[.reference "feeling"], [.ofKind (.parent ⟨"persons", [⟨"towards", "id"⟩]⟩)]⟩]]
      distinct := by decide
      closed := by decide }
  registry := Registry.standard
  options := {}
  sources := [("rows", "id,feeling,towards\n1,likes,2\n2,hates,1\n")]

theorem feelings_success :
    ∃ output, ((feelings.evaluate 0).run.run
        (feelings.after [.name "nobody", .position 0] (feelings.start [] ()))).1 = .ok output ∧
      output.map EvaluatedRecord.shape = [[⟨"likes", 0, ["id"]⟩], [⟨"hates", 0, ["id"]⟩]] := by
  apply Outcome.map_eq_ok.mp
  decide +kernel

theorem uniformShape_feelings_iff :
    ∃ output, ((feelings.evaluate 0).run.run
        (feelings.after [.name "nobody", .position 0] (feelings.start [] ()))).1 = .ok output ∧
      ∃ rule rows, feelings.mapping.rules[0]? = some rule ∧
        feelings.rowsFrom [] rule = .ok rows ∧
        (UniformShape output ↔ feelings.SteadyRows rule rows) := by
  obtain ⟨output, success, _⟩ := feelings_success
  exact ⟨output, success, feelings.uniformShape_evaluate_iff [] () _ success⟩

/-- The first record's join is not that of the second one. -/
theorem not_uniformShape_feelings :
    ∃ output, ((feelings.evaluate 0).run.run
        (feelings.after [.name "nobody", .position 0] (feelings.start [] ()))).1 = .ok output ∧
      ¬ UniformShape output := by
  obtain ⟨output, success, shapes⟩ := feelings_success
  refine ⟨output, success, ?_⟩
  intro uniform
  have same : ∀ first ∈ output.map EvaluatedRecord.shape,
      ∀ second ∈ output.map EvaluatedRecord.shape, first = second := by
    simpa using uniformShape_iff.mp uniform
  rw [shapes] at same
  revert same
  decide

end Run

end RdfMapping
