import RdfMapping.Proofs.Evaluation.Joins
import RdfMapping.Proofs.Record.Statements
/-!
What a row says of its subjects. Every record of the row is put together from the same
classes and statements, whatever functions return and other rules give, and differs from
the others in its name alone. The resolution of joins only adds references.
-/

namespace RdfMapping

/-- Every result of a fold is that of a pure fold over what its items may give. -/
theorem SetM.exists_of_mem_foldlM {α β γ : Type} {f : β → α → SetM β} {gives : α → γ → Prop}
    {step : β → γ → β}
    (each : ∀ b a next, next ∈ (f b a).run → ∃ c, gives a c ∧ next = step b c)
    (items : List α) {b result : β} (member : result ∈ (items.foldlM f b).run) :
    ∃ given, List.Forall₂ gives items given ∧ result = given.foldl step b := by
  induction items generalizing b with
  | nil =>
      rw [mem_pure.mp member]
      exact ⟨[], List.Forall₂.nil, rfl⟩
  | cons a rest ih =>
      rw [List.foldlM_cons, mem_bind] at member
      obtain ⟨next, nextMember, later⟩ := member
      obtain ⟨c, first, same⟩ := each b a next nextMember
      obtain ⟨cs, others, folded⟩ := ih later
      rw [same] at folded
      exact ⟨c :: cs, List.Forall₂.cons first others, folded⟩

/-- What a predicate-object map gives for a row: predicates, and object by object what is
given under each of them. -/
structure Given where
  predicates : List String
  resolved : List Resolved

/-- The values that an object gives at once. A join has none before it is resolved. -/
def Resolved.atOnce : Resolved → List ObjectValue
  | .values given => given
  | .join _ _ => []

def Resolved.statements (predicates : List String) (resolved : Resolved) : List Statement :=
  predicates.flatMap fun predicate => resolved.atOnce.map fun value => (predicate, value)

def Given.statements (given : Given) : List Statement :=
  given.resolved.flatMap (Resolved.statements given.predicates)

namespace Draft

def take (draft : Draft) (given : Given) : Draft :=
  given.resolved.foldl (add given.predicates) draft

theorem record_foldl {α : Type} {step : Draft → α → Draft} {said : α → List Statement}
    (each : ∀ draft a, (step draft a).record = (said a).foldl Record.state draft.record)
    (items : List α) (draft : Draft) :
    (items.foldl step draft).record = (items.flatMap said).foldl Record.state draft.record := by
  induction items generalizing draft with
  | nil => rfl
  | cons a rest ih =>
      rw [List.foldl_cons, ih, each, List.flatMap_cons, List.foldl_append]

theorem record_addValue (predicate : String) (draft : Draft) (value : ObjectValue) :
    (addValue predicate draft value).record =
      [(predicate, value)].foldl Record.state draft.record := by
  change _ = draft.record.state (predicate, value)
  unfold addValue Record.state
  split
  · cases value with
    | reference id => rfl
    | literal value datatype language => rfl
  · rfl

theorem record_add (predicates : List String) (draft : Draft) (resolved : Resolved) :
    (add predicates draft resolved).record =
      (resolved.statements predicates).foldl Record.state draft.record := by
  cases resolved with
  | join parent conditions =>
      have nothing : (Resolved.join parent conditions).statements predicates = [] := by
        simp [Resolved.statements, Resolved.atOnce]
      rw [nothing]
      rfl
  | values given =>
      apply record_foldl
      intro draft predicate
      rw [record_foldl (record_addValue predicate), ← List.map_eq_flatMap]
      rfl

theorem record_take (draft : Draft) (given : Given) :
    (draft.take given).record = given.statements.foldl Record.state draft.record :=
  record_foldl (record_add given.predicates) given.resolved draft

theorem record_foldl_take (given : List Given) (draft : Draft) :
    (given.foldl take draft).record =
      (given.flatMap Given.statements).foldl Record.state draft.record :=
  record_foldl record_take given draft

end Draft

theorem RowScope.exists_map_of_mem_predicatesOf {scope : RowScope} {pom : PredicateObjectMap}
    {predicate : String} (member : predicate ∈ scope.predicatesOf pom) :
    ∃ map ∈ pom.predicates, ∃ texts, scope.texts false map = .ok texts ∧ predicate ∈ texts := by
  unfold predicatesOf predicates at member
  cases read : pom.predicates.mapM (scope.texts false) with
  | error e =>
      rw [read] at member
      cases member
  | ok groups =>
      rw [read] at member
      obtain ⟨group, groupMember, inGroup⟩ := List.mem_flatten.mp member
      obtain ⟨map, mapMember, given⟩ := Outcome.exists_of_mem_mapM read groupMember
      exact ⟨map, mapMember, group, given, inGroup⟩

/-- What an object map makes a value of: a datatype, a language, and the value as it is
found. A function may return anything. -/
inductive RowScope.Makes (scope : RowScope) (object : ObjectMap) :
    Option String → Option String → Json → Prop
  | iri {iri : String} (kind : object.kind = .constant (.iri iri)) :
      Makes scope object none none (.string iri)
  | literal {text : String} {datatype own language : Option String}
      (kind : object.kind = .constant (.literal text datatype own))
      (read : scope.language object = .ok language) :
      Makes scope object (object.datatype.or datatype) (language.or own) (.string text)
  | reference {selector : String} {language : Option String} {value : Json}
      (kind : object.kind = .reference selector) (read : scope.language object = .ok language) :
      Makes scope object object.datatype language value
  | template {template : Template} {language : Option String} {texts : List String} {text : String}
      (kind : object.kind = .template template) (read : scope.language object = .ok language)
      (expanded : scope.expand (object.resolvedTermType = some .literal) template = .ok texts)
      (member : text ∈ texts) :
      Makes scope object object.datatype language (.string text)
  | function {call : FunctionCall} {language : Option String} {value : Json}
      (kind : object.kind = .function call) (read : scope.language object = .ok language) :
      Makes scope object object.datatype language value

/-- An object of a rule stands under a predicate that the row gives. -/
def RowScope.Asks (scope : RowScope) (rule : Rule) (predicate : String) (object : ObjectMap) :
    Prop :=
  ∃ pom ∈ rule.predicateObjectMaps, predicate ∈ scope.predicatesOf pom ∧ object ∈ pom.objects

namespace Run

variable {σ : Type} (run : Run σ) (scope : RowScope)

/-- What a predicate-object map may give for a row. Its objects are looked at if there is
a predicate. -/
structure MayGive (pom : PredicateObjectMap) (given : Given) : Prop where
  predicates : scope.predicates pom.predicates = .ok given.predicates
  resolved : given.predicates ≠ [] →
    List.Forall₂ (fun object resolved => resolved ∈ (resolve run.looseHost scope object).run)
      pom.objects given.resolved

/-- The classes and statements that the records of a row may be put together from. -/
def MaySay (rule : Rule) (types : List String) (statements : List Statement) : Prop :=
  types ∈ (classes run.looseHost scope rule.subject).run ∧
    ∃ given, List.Forall₂ (run.MayGive scope) rule.predicateObjectMaps given ∧
      statements = given.flatMap Given.statements

theorem mayGive_of_mem_extend {draft next : Draft} {pom : PredicateObjectMap}
    (member : next ∈ (extend run.looseHost scope draft pom).run) :
    ∃ given, run.MayGive scope pom given ∧ next = draft.take given := by
  obtain ⟨predicates, read, later⟩ := SetM.mem_bind.mp member
  cases predicates with
  | nil =>
      refine ⟨⟨[], []⟩, ⟨(run.mem_lift).mp read, ?_⟩, SetM.mem_pure.mp later⟩
      intro some
      exact absurd rfl some
  | cons predicate rest =>
      have step : ∀ draft object next,
          next ∈ (do
            return Draft.add (predicate :: rest) draft
              (← resolve run.looseHost scope object) : SetM Draft).run →
            ∃ resolved, resolved ∈ (resolve run.looseHost scope object).run ∧
              next = Draft.add (predicate :: rest) draft resolved := by
        intro draft object next nextMember
        obtain ⟨resolved, resolvedMember, same⟩ := SetM.mem_bind.mp nextMember
        exact ⟨resolved, resolvedMember, SetM.mem_pure.mp same⟩
      obtain ⟨resolved, each, folded⟩ := SetM.exists_of_mem_foldlM step pom.objects later
      exact ⟨⟨predicate :: rest, resolved⟩, ⟨(run.mem_lift).mp read, fun _ => each⟩, folded⟩

/-- A record has a name that its row may give, and says what its row may say. -/
structure TellsRow (rule : Rule) (evaluated : EvaluatedRecord) : Prop where
  named : ∃ ids ∈ (subjects run.looseHost scope rule).run, evaluated.record.id ∈ ids
  said : ∃ types statements, run.MaySay scope rule types statements ∧
    evaluated.record = { Record.assemble types statements with id := evaluated.record.id }

theorem tellsRow_of_mem_evaluateRow {rule : Rule} {paths : List String} {output : RuleOutput}
    (member : output ∈ (evaluateRow run.looseHost scope rule paths).run) :
    ∀ evaluated ∈ output, run.TellsRow scope rule evaluated := by
  unfold evaluateRow at member
  obtain ⟨types, typesMember, afterTypes⟩ := SetM.mem_bind.mp member
  obtain ⟨ids, idsMember, afterIds⟩ := SetM.mem_bind.mp afterTypes
  cases ids with
  | nil =>
      rw [SetM.mem_pure.mp afterIds]
      intro _ inNil
      cases inNil
  | cons id rest =>
      obtain ⟨draft, drafted, afterDraft⟩ := SetM.mem_bind.mp afterIds
      obtain ⟨parentValues, _, same⟩ := SetM.mem_bind.mp afterDraft
      obtain ⟨given, each, folded⟩ := SetM.exists_of_mem_foldlM
        (fun _ _ _ nextMember => run.mayGive_of_mem_extend scope nextMember)
        rule.predicateObjectMaps drafted
      have assembled : draft.record = Record.assemble types (given.flatMap Given.statements) := by
        rw [folded]
        exact Draft.record_foldl_take given _
      rw [SetM.mem_pure.mp same]
      intro evaluated evaluatedMember
      obtain ⟨other, otherMember, named⟩ := List.mem_map.mp evaluatedMember
      refine ⟨⟨_, idsMember, ?_⟩,
        types, given.flatMap Given.statements, ⟨typesMember, given, each, rfl⟩, ?_⟩
      · rw [← named]
        exact otherMember
      · rw [← named, assembled]

theorem rows_of_evaluateAll {cache : Cache} {world : σ} {outputs : List RuleOutput}
    (success : (run.evaluateAll.run.run (run.start cache world)).1 = .ok outputs) {index : Nat}
    {output : RuleOutput} (outputAt : outputs[index]? = some output) :
    ∃ rule rows, run.mapping.rules[index]? = some rule ∧ run.rowsFrom cache rule = .ok rows ∧
      (∀ evaluated ∈ output, ∃ row < rows.count,
        (RowScope.mk rows row run.options).isNamed rule = true ∧
          run.TellsRow ⟨rows, row, run.options⟩ rule evaluated) ∧
      ∀ row < rows.count, (RowScope.mk rows row run.options).isNamed rule = true →
        ∃ evaluated ∈ output, run.TellsRow ⟨rows, row, run.options⟩ rule evaluated := by
  obtain ⟨rule, rows, ruleAt, opened, member⟩ :=
    (run.evaluateAll_possible cache world success).2 index output outputAt
  have each (scope : RowScope) (part : RuleOutput)
      (partMember : part ∈ (evaluateRow run.looseHost scope rule
        (run.mapping.parentPaths index)).run) :
      scope.isNamed rule = !part.isEmpty ∧
        ∀ evaluated ∈ part, run.TellsRow scope rule evaluated :=
    ⟨(run.mem_evaluateRow scope partMember).1,
      run.tellsRow_of_mem_evaluateRow scope partMember⟩
  exact ⟨rule, rows, ruleAt, opened, run.rows_of_mem_evaluateRule each member⟩

/-- A record shows what its row may say, and perhaps references besides. -/
def ShowsRow (rule : Rule) (record : Record) : Prop :=
  ∃ types statements, run.MaySay scope rule types statements ∧ record.Renders types statements

theorem TellsRow.showsRow {run : Run σ} {scope : RowScope} {rule : Rule}
    {evaluated : EvaluatedRecord} (tells : run.TellsRow scope rule evaluated)
    (references : List (String × String)) :
    run.ShowsRow scope rule (evaluated.record.withReferences references) := by
  obtain ⟨_, types, statements, maySay, same⟩ := tells
  exact ⟨types, statements, maySay, Record.renders_withReferences same references⟩

theorem MayGive.predicatesOf {run : Run σ} {scope : RowScope} {pom : PredicateObjectMap}
    {given : Given} (mayGive : run.MayGive scope pom given) :
    scope.predicatesOf pom = given.predicates := by
  unfold RowScope.predicatesOf
  rw [mayGive.predicates]
  rfl

section

variable {run} {scope} {rule : Rule} {types : List String} {statements : List Statement}
  (maySay : run.MaySay scope rule types statements)
include maySay

theorem MaySay.exists_object {predicate : String} {value : ObjectValue}
    (stated : (predicate, value) ∈ statements) :
    ∃ object, scope.Asks rule predicate object ∧
      ∃ resolved ∈ (resolve run.looseHost scope object).run, value ∈ resolved.atOnce := by
  obtain ⟨_, givens, each, rfl⟩ := maySay
  obtain ⟨given, givenMember, ofGiven⟩ := List.mem_flatMap.mp stated
  obtain ⟨resolved, resolvedMember, ofResolved⟩ := List.mem_flatMap.mp ofGiven
  obtain ⟨other, predicateMember, ofPredicate⟩ := List.mem_flatMap.mp ofResolved
  obtain ⟨same, valueMember, equal⟩ := List.mem_map.mp ofPredicate
  obtain ⟨rfl, rfl⟩ := Prod.mk.inj equal
  obtain ⟨pom, pomMember, mayGive⟩ := Outcome.exists_of_mem_right each givenMember
  obtain ⟨object, objectMember, possible⟩ := Outcome.exists_of_mem_right
    (mayGive.resolved (List.ne_nil_of_mem predicateMember)) resolvedMember
  refine ⟨object, ⟨pom, pomMember, ?_, objectMember⟩, resolved, possible, valueMember⟩
  rw [mayGive.predicatesOf]
  exact predicateMember

theorem MaySay.exists_resolved {predicate : String} {object : ObjectMap}
    (asks : scope.Asks rule predicate object) :
    ∃ resolved ∈ (resolve run.looseHost scope object).run,
      ∀ value ∈ resolved.atOnce, (predicate, value) ∈ statements := by
  obtain ⟨_, givens, each, rfl⟩ := maySay
  obtain ⟨pom, pomMember, predicateMember, objectMember⟩ := asks
  obtain ⟨given, givenMember, mayGive⟩ := Outcome.exists_of_mem_left each pomMember
  rw [mayGive.predicatesOf] at predicateMember
  obtain ⟨resolved, resolvedMember, possible⟩ := Outcome.exists_of_mem_left
    (mayGive.resolved (List.ne_nil_of_mem predicateMember)) objectMember
  refine ⟨resolved, possible, ?_⟩
  intro value valueMember
  exact List.mem_flatMap.mpr ⟨given, givenMember, List.mem_flatMap.mpr ⟨resolved, resolvedMember,
    List.mem_flatMap.mpr ⟨predicate, predicateMember, List.mem_map_of_mem valueMember⟩⟩⟩

end

theorem exists_wrap_of_mem_resultValues {options : Options} {object : ObjectMap}
    {language : Option String} {result : Json} {value : ObjectValue}
    (member : value ∈ resultValues options object language result) :
    ∃ json, wrap options object.resolvedTermType object.datatype language json = value := by
  unfold resultValues at member
  split at member
  · cases member
  · split at member
    · next termType wanted =>
        obtain ⟨json, _, same⟩ := List.mem_map.mp member
        rw [wanted]
        exact ⟨json, same⟩
    · next unwanted =>
        rw [unwanted]
        exact ⟨_, (List.mem_singleton.mp member).symm⟩
  · exact ⟨_, (List.mem_singleton.mp member).symm⟩

/-- Every value of an object is wrapped as the kind of term that its map asks for. -/
theorem makes_of_mem_resolve {object : ObjectMap} {resolved : Resolved}
    (member : resolved ∈ (resolve run.looseHost scope object).run) {value : ObjectValue}
    (inResolved : value ∈ resolved.atOnce) :
    ∃ datatype language json, scope.Makes object datatype language json ∧
      wrap scope.options object.resolvedTermType datatype language json = value := by
  unfold resolve at member
  cases kind : object.kind with
  | parent reference =>
      simp only [kind, mem_lift] at member
      obtain ⟨_, _, later⟩ := Outcome.bind_eq_ok.mp member
      obtain ⟨_, _, same⟩ := Outcome.bind_eq_ok.mp later
      cases same
      cases inResolved
  | constant constant =>
      cases constant with
      | iri iri =>
          simp only [kind] at member
          rw [SetM.mem_pure.mp member] at inResolved
          exact ⟨_, _, _, .iri kind, (List.mem_singleton.mp inResolved).symm⟩
      | literal text datatype own =>
          simp only [kind] at member
          obtain ⟨language, read, same⟩ := SetM.mem_bind.mp member
          rw [SetM.mem_pure.mp same] at inResolved
          exact ⟨_, _, _, .literal kind (run.mem_lift.mp read),
            (List.mem_singleton.mp inResolved).symm⟩
  | reference selector =>
      simp only [kind, mem_lift] at member
      obtain ⟨language, read, later⟩ := Outcome.bind_eq_ok.mp member
      obtain ⟨values, _, same⟩ := Outcome.bind_eq_ok.mp later
      rw [← Except.ok.inj same] at inResolved
      obtain ⟨json, _, wrapped⟩ := List.mem_map.mp inResolved
      exact ⟨_, _, _, .reference kind read, wrapped⟩
  | template template =>
      simp only [kind, mem_lift] at member
      obtain ⟨language, read, later⟩ := Outcome.bind_eq_ok.mp member
      obtain ⟨texts, expanded, same⟩ := Outcome.bind_eq_ok.mp later
      rw [← Except.ok.inj same] at inResolved
      obtain ⟨json, jsonMember, wrapped⟩ := List.mem_map.mp inResolved
      obtain ⟨text, textMember, rfl⟩ := List.mem_map.mp jsonMember
      exact ⟨_, _, _, .template kind read expanded textMember, wrapped⟩
  | function call =>
      simp only [kind] at member
      obtain ⟨result, _, later⟩ := SetM.mem_bind.mp member
      obtain ⟨language, read, same⟩ := SetM.mem_bind.mp later
      rw [SetM.mem_pure.mp same] at inResolved
      obtain ⟨json, wrapped⟩ := exists_wrap_of_mem_resultValues inResolved
      exact ⟨_, _, _, .function kind (run.mem_lift.mp read), wrapped⟩

structure HasRow (cache : Cache) (rule : Rule) : Prop where
  member : rule ∈ run.mapping.rules
  opened : run.rowsFrom cache rule = .ok scope.rows
  bound : scope.row < scope.rows.count
  options : scope.options = run.options
  named : scope.isNamed rule = true

/-- Every record is that of a row, and every row that has a record is met. -/
theorem rows_of_records {cache : Cache} {world : σ} {records : List Record}
    (success : (run.records cache world).1 = .ok records) :
    (∀ record ∈ records, ∃ rule scope, run.HasRow scope cache rule ∧
      run.ShowsRow scope rule record) ∧
      ∀ rule scope, run.HasRow scope cache rule →
        ∃ record ∈ records, run.ShowsRow scope rule record := by
  obtain ⟨_, outputs, evaluated, same⟩ := run.records_eq_ok_iff.mp success
  rw [← same]
  constructor
  · intro record member
    obtain ⟨index, output, outputAt, joining, inOutput, sameRecord⟩ :=
      Join.mem_resolve_iff.mp member
    obtain ⟨rule, rows, ruleAt, opened, rowOf, _⟩ := run.rows_of_evaluateAll evaluated outputAt
    obtain ⟨row, bound, named, tells⟩ := rowOf joining inOutput
    rw [sameRecord]
    exact ⟨rule, ⟨rows, row, run.options⟩,
      ⟨List.mem_of_getElem? ruleAt, opened, bound, rfl, named⟩, tells.showsRow _⟩
  · intro rule scope hasRow
    obtain ⟨index, ruleAt⟩ := List.getElem?_of_mem hasRow.member
    have bound := (List.getElem?_eq_some_iff.mp ruleAt).1
    rw [← (run.evaluateAll_possible cache world evaluated).1] at bound
    have outputAt := List.getElem?_eq_getElem bound
    obtain ⟨other, rows, otherAt, opened, _, recordOf⟩ :=
      run.rows_of_evaluateAll evaluated outputAt
    rw [ruleAt, Option.some_inj] at otherAt
    rw [← otherAt, hasRow.opened] at opened
    have sameScope : RowScope.mk rows scope.row run.options = scope := by
      rw [← Except.ok.inj opened, ← hasRow.options]
    obtain ⟨joining, inOutput, tells⟩ := recordOf scope.row
      (by rw [← Except.ok.inj opened]; exact hasRow.bound)
      (by rw [sameScope, ← otherAt]; exact hasRow.named)
    rw [sameScope, ← otherAt] at tells
    exact ⟨_, Join.mem_resolve_iff.mpr ⟨index, _, outputAt, joining, inOutput, rfl⟩,
      tells.showsRow _⟩

end Run

end RdfMapping
