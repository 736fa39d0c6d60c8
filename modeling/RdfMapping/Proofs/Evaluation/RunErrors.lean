import RdfMapping.Mapping.OfGraph
import RdfMapping.Proofs.Evaluation.Invariant
import RdfMapping.Proofs.Graph.Lookup
/-!
What a run of a mapping from a graph can fail with. Whatever is wrong with the mapping
itself is found while the graph is read: a mapping whose rules could be read has no literal
subjects, and no references to rules that are not there. What remains are the errors of
the data, of the functions, of the options, and cycles of rules that need one another.
-/

namespace RdfMapping

namespace MappingError

def IsRunError : MappingError → Prop
  | .invalidLanguageTag _ | .cyclicDependency _ | .function _ => True
  | .missingSource _ | .source .. | .invalidSelector .. => True
  | _ => False

def IsFunction : MappingError → Prop
  | .function _ => True
  | _ => False

theorem IsLocal.isRunError {e : MappingError} (isLocal : e.IsLocal) : e.IsRunError := by
  cases e with
  | invalidSelector | invalidLanguageTag | function => trivial
  | _ => exact isLocal.elim

theorem IsSource.isRunError {e : MappingError} (isSource : e.IsSource) : e.IsRunError := by
  cases e with
  | missingSource | source | invalidSelector => trivial
  | _ => exact isSource.elim

theorem IsFunction.isRunError {e : MappingError} (isFunction : e.IsFunction) : e.IsRunError := by
  cases e with
  | function => trivial
  | _ => exact isFunction.elim

end MappingError

open MappingError Outcome Vocabulary

/-- The functions of the caller fail with errors of functions. -/
def Registry.FailsAsFunction {σ : Type} (registry : Registry σ) : Prop :=
  ∀ entry ∈ registry.callers, ∀ arguments world,
    Outcome.FailsWithin IsFunction (entry.2 arguments world).1

theorem Registry.FailsAsFunction.failsWithin {σ : Type} {registry : Registry σ}
    (fails : registry.FailsAsFunction) : registry.FailsWithin IsRunError := by
  intro iri function found arguments world
  unfold Registry.find? at found
  split at found
  · next entry known =>
      cases found
      exact (fails entry (List.mem_of_find?_eq_some known) arguments world).mono
        fun _ => IsFunction.isRunError
  · split at found
    · obtain ⟨known, inLibrary, rfl⟩ := Option.map_eq_some_iff.mp found
      exact (Library.find?_local inLibrary arguments).mono fun _ => IsLocal.isRunError
    · cases found

/-! ### Rules of a graph -/

namespace Graph

variable {graph : Graph}

theorem not_literal_of_subjectMapOf {rule id : String} {subject : SubjectMap}
    (read : graph.subjectMapOf rule id = .ok subject) : subject.resolvedTermType ≠ .literal := by
  unfold subjectMapOf at read
  obtain ⟨kinds, _, read⟩ := bind_eq_ok.mp read
  split at read
  · cases read
  obtain ⟨termType, _, read⟩ := bind_eq_ok.mp read
  split at read
  · cases read
  next allowed =>
    obtain ⟨⟨classes, classFunction⟩, _, read⟩ := bind_eq_ok.mp read
    cases read
    cases termType with
    | some termType => exact fun literal => allowed (congrArg some literal)
    | none =>
        unfold SubjectMap.resolvedTermType
        split <;> simp_all

theorem not_literal_of_rule {id : String} {rule : Rule} (read : graph.rule id = .ok rule) :
    rule.subject.resolvedTermType ≠ .literal := by
  obtain ⟨source, _, read⟩ := bind_eq_ok.mp read
  obtain ⟨subject, subjectRead, read⟩ := bind_eq_ok.mp read
  obtain ⟨predicateObjectMaps, _, read⟩ := bind_eq_ok.mp read
  cases read
  change subject.resolvedTermType ≠ .literal
  unfold subjectMap at subjectRead
  split at subjectRead
  · cases subjectRead
  · obtain ⟨iri, _, subjectRead⟩ := bind_eq_ok.mp subjectRead
    cases subjectRead
    exact nofun
  · obtain ⟨node, _, subjectRead⟩ := bind_eq_ok.mp subjectRead
    exact not_literal_of_subjectMapOf subjectRead
  · cases subjectRead

theorem not_literal_of_mapping {mapping : Mapping} (accepted : graph.mapping = .ok mapping)
    {rule : Rule} (member : rule ∈ mapping.rules) : rule.subject.resolvedTermType ≠ .literal := by
  obtain ⟨rules, read, made⟩ := bind_eq_ok.mp accepted
  rw [Mapping.ofRules_eq_ok_iff.mp made] at member
  obtain ⟨id, _, ruleRead⟩ := exists_of_mem_mapM read member
  exact not_literal_of_rule ruleRead

theorem callWithin_succ (depth : Nat) (owner : String) :
    graph.callWithin (depth + 1) owner =
      match graph.object? owner functionValue with
      | none => .ok none
      | some term => do
          let id ← nodeId "fnml:functionValue" "a function value node" term
          return some ⟨id, ← graph.predicateObjectMaps (graph.callWithin depth) id⟩ :=
  callWithin.eq_def graph (depth + 1) owner

end Graph

/-! ### Runs -/

namespace Run

variable {σ : Type} (run : Run σ)

theorem tolerates_isRunError {graph : Graph} (accepted : graph.mapping = .ok run.mapping)
    (functions : run.registry.FailsAsFunction) : run.Tolerates IsRunError where
  ofLocal := fun _ => IsLocal.isRunError
  ofSource := fun _ => IsSource.isRunError
  cycle := fun _ => trivial
  functions := functions.failsWithin
  subjects := fun _ member literal => absurd literal (Graph.not_literal_of_mapping accepted member)

/-- For errors it is enough that every rule has a mark. -/
theorem invariant_size :
    run.Invariant fun _ state => state.rules.size = run.mapping.rules.length where
  size := fun sized => sized
  world := fun _ sized => sized
  opens := by
    intro _ state index rule _ sized
    rw [run.rules_rowsOf]
    exact ⟨sized, fun _ _ => sized⟩
  mark := fun _ _ _ sized => Array.size_setIfInBounds.trans sized
  complete := fun _ _ sized => Array.size_setIfInBounds.trans sized
  remembered := fun _ sized => sized
  drop := fun sized => sized

/-- A run of a mapping that could be read from a graph fails with nothing that is wrong
with the mapping. -/
theorem records_failsWithin_of_graph {graph : Graph}
    (accepted : graph.mapping = .ok run.mapping) (functions : run.registry.FailsAsFunction)
    (cache : Cache) (world : σ) : FailsWithin IsRunError (run.records cache world).1 := by
  obtain ⟨_, _, leaves⟩ := records_leaves run.invariant_size
    (run.tolerates_isRunError accepted functions) Array.size_replicate
  exact leaves.fails

/-! ### A run that calls a function in a function and cannot read a join -/

open RdfMapping.Graph

def trimCall : FunctionCall :=
  ⟨"_:trim",
    [⟨[.constant executes], [.ofKind (.constant (.iri (grel "string_trim")))]⟩,
      ⟨[.constant (grel "valueParameter")], [.ofKind (.reference "name")]⟩]⟩

def welcomeCall : FunctionCall :=
  ⟨"_:welcome",
    [⟨[.constant executes], [.ofKind (.constant (.iri "welcome"))]⟩,
      ⟨[.constant "guest"], [.ofKind (.function trimCall)]⟩]⟩

def teamsRule : Rule :=
  { iri := "teams"
    source := ⟨"teams.csv", none, .csv⟩
    subject := ⟨.reference "id", none, [], none⟩
    predicateObjectMaps := [] }

/-- The child selector of the join is no expression of its source. -/
def peopleRule : Rule :=
  { iri := "people"
    source := ⟨"people.json", none, .jsonPath⟩
    subject := ⟨.reference "id", none, [], none⟩
    predicateObjectMaps :=
      [⟨[.constant "greeting"], [.ofKind (.function welcomeCall)]⟩,
        ⟨[.constant "team"], [.ofKind (.parent ⟨"teams", [⟨"$[", "lead"⟩]⟩)]⟩] }

def staffStatements : List (String × String × NodeTerm) :=
  [("teams", rml "logicalSource", .blank "_:table"),
    ("_:table", rml "source", .plain "teams.csv"),
    ("teams", rr "subjectMap", .blank "_:key"),
    ("_:key", rml "reference", .plain "id"),
    ("people", rml "logicalSource", .blank "_:list"),
    ("_:list", rml "source", .plain "people.json"),
    ("people", rr "subjectMap", .blank "_:key"),
    ("people", rr "predicateObjectMap", .blank "_:greeting"),
    ("_:greeting", rr "predicate", .iri "greeting"),
    ("_:greeting", rr "objectMap", .blank "_:greetingMap"),
    ("_:greetingMap", functionValue, .blank "_:welcome"),
    ("_:welcome", rr "predicateObjectMap", .blank "_:welcomeName"),
    ("_:welcomeName", rr "predicate", .iri executes),
    ("_:welcomeName", rr "object", .iri "welcome"),
    ("_:welcome", rr "predicateObjectMap", .blank "_:guest"),
    ("_:guest", rr "predicate", .iri "guest"),
    ("_:guest", rr "objectMap", .blank "_:guestMap"),
    ("_:guestMap", functionValue, .blank "_:trim"),
    ("_:trim", rr "predicateObjectMap", .blank "_:trimName"),
    ("_:trimName", rr "predicate", .iri executes),
    ("_:trimName", rr "object", .iri (grel "string_trim")),
    ("_:trim", rr "predicateObjectMap", .blank "_:text"),
    ("_:text", rr "predicate", .iri (grel "valueParameter")),
    ("_:text", rr "objectMap", .blank "_:textMap"),
    ("_:textMap", rml "reference", .plain "name"),
    ("people", rr "predicateObjectMap", .blank "_:team"),
    ("_:team", rr "predicate", .iri "team"),
    ("_:team", rr "objectMap", .blank "_:teamMap"),
    ("_:teamMap", rr "parentTriplesMap", .iri "teams"),
    ("_:teamMap", rr "joinCondition", .blank "_:lead"),
    ("_:lead", rr "child", .plain "$["),
    ("_:lead", rr "parent", .plain "lead")]

def staffGraph : Graph := .ofStatements staffStatements

/-- The state of the functions counts the calls. -/
def staffRun : Run Nat where
  mapping := ⟨[teamsRule, peopleRule], by decide, by decide⟩
  registry := Registry.standard.register "welcome" fun arguments calls =>
    match arguments.get? "guest" with
    | some guest => (.ok guest, calls + 1)
    | none => (.error (.function "nobody to welcome"), calls + 1)
  options := {}
  sources :=
    [("teams.csv", "id,lead\nred,ann\n"),
      ("people.json", "[\x7b\"id\":\"ann\",\"name\":\" Ann \"\x7d]")]

theorem tells_staffGraph : staffGraph.Tells staffStatements := tells_ofStatements staffStatements

theorem failsAsFunction_staffRun : staffRun.registry.FailsAsFunction := by
  intro entry member arguments world
  obtain rfl := List.mem_singleton.mp member
  dsimp only
  split
  · exact failsWithin_ok _
  · exact failsWithin_error trivial

theorem exists_size_staffGraph : ∃ depth, staffGraph.size = depth + 2 := by
  refine ⟨16, ?_⟩
  rw [← length_ids, tells_staffGraph.ids]
  decide +kernel

/-- The index of the graph is read through its statements, and a nest of two calls is opened
twice. -/
theorem rule_staffGraph :
    staffGraph.rule "teams" = .ok teamsRule ∧ staffGraph.rule "people" = .ok peopleRule := by
  obtain ⟨depth, sized⟩ := exists_size_staffGraph
  simp only [rule, logicalSource, formulation, subjectMap, subjectMapOf, subjectKinds,
    call?.eq_unfold, sized, callWithin_succ, predicateObjectMaps, predicateObjectMap.eq_unfold,
    predicates, objectMaps, objectMap.eq_unfold, parentReference, joinCondition.eq_unfold,
    objectKind, template?, termType?, selector?, text?, object?, tells_staffGraph.objects]
  exact ⟨rfl, rfl⟩

theorem mapping_staffGraph : staffGraph.mapping = .ok staffRun.mapping := by
  have named : staffGraph.ids.filter staffGraph.isRule = ["teams", "people"] := by
    rw [tells_staffGraph.ids]
    simp only [isRule.eq_unfold, object?, tells_staffGraph.objects]
    decide +kernel
  have rules : staffGraph.rules = .ok [teamsRule, peopleRule] := by
    change (staffGraph.ids.filter staffGraph.isRule).mapM staffGraph.rule = _
    rw [named, List.mapM_cons, List.mapM_cons, List.mapM_nil, rule_staffGraph.1,
      rule_staffGraph.2]
    rfl
  exact bind_eq_ok.mpr ⟨_, rules, Mapping.ofRules_eq_ok_iff.mpr rfl⟩

/-- The graph is accepted, the call with a call inside is made once, and then the run fails at the
join. -/
theorem records_staffRun :
    staffGraph.mapping = .ok staffRun.mapping ∧ staffRun.registry.FailsAsFunction ∧
      (staffRun.records [] 0).1 = .error (.invalidSelector "$[" "unclosed '['") ∧
      (staffRun.records [] 0).2.2 = 1 ∧
      FailsWithin IsRunError (staffRun.records [] 0).1 :=
  ⟨mapping_staffGraph, failsAsFunction_staffRun, by decide +kernel, by decide +kernel,
    staffRun.records_failsWithin_of_graph mapping_staffGraph failsAsFunction_staffRun [] 0⟩

end Run

end RdfMapping
