import RdfMapping.Proofs.Evaluation.Given
/-!
The classes of the records of a run. What a row states under the type predicate becomes
classes, each of them once, and not values. A join alone writes past this rule: it gives
the type predicate values of its own as soon as it refers to a record.
-/

namespace RdfMapping

namespace Join

/-- No join under the type predicate refers to a record. -/
def NoTypeReferences (outputs : List RuleOutput) : Prop :=
  ∀ rule slot evaluated shape, Meets outputs rule slot evaluated shape →
    shape.predicate = Vocabulary.rdfType →
      slotReferences outputs (slotIndexes outputs rule slot) evaluated shape slot = []

end Join

/-- No row has a say in the predicates of joins, and none of them is the type predicate. -/
def Rule.UntypedJoins (rule : Rule) : Prop :=
  ∀ pom ∈ rule.predicateObjectMaps, pom.objects.filterMap ObjectMap.parent? ≠ [] →
    ∀ map ∈ pom.predicates, ∃ text, text ≠ Vocabulary.rdfType ∧ map = .constant text

namespace RowScope

theorem of_mem_predicatesOf {scope : RowScope} {pom : PredicateObjectMap} {holds : String → Prop}
    (constant : ∀ map ∈ pom.predicates, ∃ text, holds text ∧ map = .constant text)
    {predicate : String} (member : predicate ∈ scope.predicatesOf pom) : holds predicate := by
  obtain ⟨map, mapMember, texts, given, inTexts⟩ := exists_map_of_mem_predicatesOf member
  obtain ⟨text, held, same⟩ := constant map mapMember
  rw [same] at given
  cases given
  rw [List.mem_singleton.mp inTexts]
  exact held

theorem predicate_of_mem_slots {scope : RowScope} {mapping : Mapping} {rule : Rule}
    {shape : JoinShape} (member : shape ∈ scope.slots mapping rule) :
    ∃ pom ∈ rule.predicateObjectMaps, pom.objects.filterMap ObjectMap.parent? ≠ [] ∧
      shape.predicate ∈ scope.predicatesOf pom := by
  obtain ⟨pom, pomMember, ofPom⟩ := List.mem_flatMap.mp member
  obtain ⟨reference, referenceMember, ofReference⟩ := List.mem_flatMap.mp ofPom
  refine ⟨pom, pomMember, List.ne_nil_of_mem referenceMember, ?_⟩
  unfold Mapping.slotsOf at ofReference
  cases found : mapping.indexOf? reference.parent with
  | none =>
      rw [found] at ofReference
      cases ofReference
  | some parent =>
      rw [found] at ofReference
      obtain ⟨predicate, predicateMember, same⟩ := List.mem_map.mp ofReference
      rw [← same]
      exact predicateMember

end RowScope

namespace Run

variable {σ : Type} (run : Run σ)

theorem rdfType_mem_withReferences_iff {scope : RowScope} {rule : Rule}
    {evaluated : EvaluatedRecord} (tells : run.TellsRow scope rule evaluated)
    (references : List (String × String)) :
    Vocabulary.rdfType ∈ (evaluated.record.withReferences references).predicates ↔
      Vocabulary.rdfType ∈ references.map Prod.fst := by
  obtain ⟨_, types, statements, _, same⟩ := tells
  have unstated : Vocabulary.rdfType ∉ evaluated.record.predicates := by
    rw [same]
    exact Record.rdfType_not_mem_assemble types statements
  rw [Record.mem_predicates_withReferences, or_iff_left unstated]

theorem noTypeReferences_iff {cache : Cache} {world : σ} {outputs : List RuleOutput}
    (evaluated : (run.evaluateAll.run.run (run.start cache world)).1 = .ok outputs) :
    (∀ record ∈ (Join.resolve outputs).flatten, Vocabulary.rdfType ∉ record.predicates) ↔
      Join.NoTypeReferences outputs := by
  have untyped (index : Nat) (output : RuleOutput) (outputAt : outputs[index]? = some output)
      (joining : EvaluatedRecord) (member : joining ∈ output) :
      Vocabulary.rdfType ∉ (joining.record.withReferences
          (Join.ruleReferences outputs index (Join.shapes output) joining)).predicates ↔
        ∀ slot shape, (Join.shapes output)[slot]? = some shape →
          shape.predicate = Vocabulary.rdfType →
            Join.slotReferences outputs (Join.slotIndexes outputs index slot) joining shape slot =
              [] := by
    obtain ⟨rule, rows, _, _, rowOf, _⟩ := run.rows_of_evaluateAll evaluated outputAt
    obtain ⟨row, _, _, tells⟩ := rowOf joining member
    rw [run.rdfType_mem_withReferences_iff tells, Join.mem_predicates_ruleReferences]
    simp only [not_exists, not_and, ne_eq, not_not]
  constructor
  · intro untypedRecords index slot joining shape meets
    obtain ⟨output, outputAt, member, shapeAt⟩ := meets
    apply (untyped index output outputAt joining member).mp _ slot shape shapeAt
    apply untypedRecords
    exact Join.mem_resolve_iff.mpr ⟨index, output, outputAt, joining, member, rfl⟩
  · intro idle record member
    obtain ⟨index, output, outputAt, joining, inOutput, same⟩ := Join.mem_resolve_iff.mp member
    rw [same, untyped index output outputAt joining inOutput]
    intro slot shape shapeAt
    exact idle index slot joining shape ⟨output, outputAt, inOutput, shapeAt⟩

/-- Without a join under the type predicate all classes are where they belong. -/
theorem rdfType_not_mem_predicates (untyped : ∀ rule ∈ run.mapping.rules, rule.UntypedJoins)
    {cache : Cache} {world : σ} {records : List Record}
    (success : (run.records cache world).1 = .ok records) :
    ∀ record ∈ records, Vocabulary.rdfType ∉ record.predicates := by
  obtain ⟨_, outputs, evaluated, same⟩ := run.records_eq_ok_iff.mp success
  rw [← same, run.noTypeReferences_iff evaluated]
  intro index slot joining shape meets type
  obtain ⟨output, outputAt, _, shapeAt⟩ := meets
  -- the predicates of the slots are those that the row of the first record gives
  cases output with
  | nil => cases shapeAt
  | cons first rest =>
      obtain ⟨rule, rows, ruleAt, _, member⟩ :=
        (run.evaluateAll_possible cache world evaluated).2 index _ outputAt
      obtain ⟨row, _, _, sameShape⟩ :=
        (run.mem_evaluateRule member).1 first List.mem_cons_self
      have slotMember : shape.shape ∈ first.shape :=
        List.mem_map_of_mem (List.mem_of_getElem? shapeAt)
      rw [sameShape] at slotMember
      obtain ⟨pom, pomMember, joins, given⟩ := RowScope.predicate_of_mem_slots slotMember
      have other := RowScope.of_mem_predicatesOf
        (untyped rule (List.mem_of_getElem? ruleAt) pom pomMember joins) given
      exact absurd type other

/-- The classes of every record are those of its row, each of them once. The type predicate
has no values besides exactly if no join under it refers to a record. -/
theorem rdfType_not_mem_predicates_iff (cache : Cache) (world : σ) {records : List Record}
    (success : (run.records cache world).1 = .ok records) :
    (∀ record ∈ records, record.types.Nodup ∧
      ∃ rule scope types statements, run.HasRow scope cache rule ∧
        run.MaySay scope rule types statements ∧ record.Renders types statements) ∧
      ∃ outputs, (run.evaluateAll.run.run (run.start cache world)).1 = .ok outputs ∧
        ((∀ record ∈ records, Vocabulary.rdfType ∉ record.predicates) ↔
          Join.NoTypeReferences outputs) := by
  constructor
  · intro record member
    obtain ⟨rule, scope, hasRow, types, statements, maySay, renders⟩ :=
      (run.rows_of_records success).1 record member
    exact ⟨renders.nodup_types, rule, scope, types, statements, hasRow, maySay, renders⟩
  · obtain ⟨_, outputs, evaluated, same⟩ := run.records_eq_ok_iff.mp success
    refine ⟨outputs, evaluated, ?_⟩
    rw [← same]
    exact run.noTypeReferences_iff evaluated

def kinds : Run Unit where
  mapping :=
    { rules :=
        [tableRule "persons" "persons"
          [⟨[.constant Vocabulary.rdfType], [.ofKind (.parent ⟨"kinds", [⟨"kind", "name"⟩]⟩)]⟩],
          tableRule "kinds" "kinds" []]
      distinct := by decide
      closed := by decide }
  registry := Registry.standard
  options := {}
  sources := [("kinds", "id,name\nGuest,guest\n"), ("persons", "id,kind\nann,guest\n")]

theorem kinds_success :
    ∃ records, (kinds.records [] ()).1 = .ok records ∧
      records.map (fun record => (record.id, record.types, record.predicates)) =
        [("ann", [], [Vocabulary.rdfType]), ("Guest", [], [])] := by
  have success : ∃ outputs, (kinds.evaluateAll.run.run (kinds.start [] ())).1 = .ok outputs ∧
      (Join.nestedLoop outputs).flatten.map
          (fun record => (record.id, record.types, record.predicates)) =
        [("ann", [], [Vocabulary.rdfType]), ("Guest", [], [])] := by
    apply Outcome.map_eq_ok.mp
    decide +kernel
  obtain ⟨outputs, evaluated, shown⟩ := success
  exact ⟨_, kinds.records_of_fixedJoins (by decide) [] () rfl evaluated, shown⟩

theorem rdfType_not_mem_predicates_kinds_iff :
    ∃ records, (kinds.records [] ()).1 = .ok records ∧
      (∀ record ∈ records, record.types.Nodup ∧
        ∃ rule scope types statements, kinds.HasRow scope [] rule ∧
          kinds.MaySay scope rule types statements ∧ record.Renders types statements) ∧
        ∃ outputs, (kinds.evaluateAll.run.run (kinds.start [] ())).1 = .ok outputs ∧
          ((∀ record ∈ records, Vocabulary.rdfType ∉ record.predicates) ↔
            Join.NoTypeReferences outputs) := by
  obtain ⟨records, success, _⟩ := kinds_success
  exact ⟨records, success, kinds.rdfType_not_mem_predicates_iff [] () success⟩

/-- The kind of the person is a value of the type predicate, and no class. -/
theorem rdfType_mem_predicates_kinds :
    ∃ records, (kinds.records [] ()).1 = .ok records ∧
      ∃ record ∈ records, record.types = [] ∧ Vocabulary.rdfType ∈ record.predicates := by
  obtain ⟨records, success, shown⟩ := kinds_success
  refine ⟨records, success, ?_⟩
  have first : ("ann", [], [Vocabulary.rdfType]) ∈
      records.map fun record => (record.id, record.types, record.predicates) := by
    rw [shown]
    exact List.mem_cons_self
  obtain ⟨record, member, same⟩ := List.mem_map.mp first
  simp only [Prod.mk.injEq] at same
  refine ⟨record, member, same.2.1, ?_⟩
  rw [same.2.2]
  exact List.mem_cons_self

end Run

end RdfMapping
