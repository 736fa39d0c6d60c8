import RdfMapping.Proofs.Evaluation.Alike
import RdfMapping.Proofs.Evaluation.Given
import RdfMapping.Proofs.Evaluation.Memo
import RdfMapping.Proofs.Mapping.Distributed
/-!
Evaluation of predicate-object maps that are taken apart. An object is asked once for every
predicate then, and not once for all of them, but it answers the same; the records are the
same, and their joins change their places only between different predicates.
-/

namespace RdfMapping

open Outcome

/-! ### Drafts -/

theorem RowScope.predicates_constants (scope : RowScope) (predicates : List String) :
    scope.predicates (predicates.map .constant) = .ok predicates := by
  have each : (predicates.map TextMap.constant).mapM (scope.texts false) =
      .ok (predicates.map fun predicate => [predicate]) := by
    rw [mapM_eq_ok, List.forall₂_map_left_iff, List.forall₂_map_right_iff, List.forall₂_same]
    exact fun _ _ => rfl
  rw [RowScope.predicates, each]
  exact congrArg Except.ok (List.flatMap_singleton' predicates)

/-- The join that an object gives under a predicate. A value gives none. -/
def Resolved.joins (resolved : Resolved) (predicate : String) : List PendingJoin :=
  match resolved with
  | .values _ => []
  | .join parent conditions => [⟨predicate, parent, conditions⟩]

theorem Resolved.predicate_of_mem_joins {resolved : Resolved} {predicate : String}
    {pending : PendingJoin} (member : pending ∈ resolved.joins predicate) :
    pending.predicate = predicate := by
  cases resolved with
  | values values => cases member
  | join parent conditions => rw [List.mem_singleton.mp member]

namespace Draft

theorem pending_add (draft : Draft) (predicates : List String) (resolved : Resolved) :
    (draft.add predicates resolved).pending =
      draft.pending ++ predicates.flatMap resolved.joins := by
  cases resolved with
  | values values =>
      have none : predicates.flatMap (Resolved.values values).joins = [] :=
        List.flatMap_eq_nil_iff.mpr fun _ _ => rfl
      rw [none, List.append_nil]
      apply pending_foldl
      intro draft predicate
      exact pending_foldl (pending_addValue predicate) values draft
  | join parent conditions => exact congrArg (draft.pending ++ ·) List.map_eq_flatMap

theorem pending_foldl_append {α : Type} {step : Draft → α → Draft}
    {joins : α → List PendingJoin}
    (each : ∀ draft a, (step draft a).pending = draft.pending ++ joins a) (items : List α)
    (draft : Draft) : (items.foldl step draft).pending = draft.pending ++ items.flatMap joins := by
  induction items generalizing draft with
  | nil => exact (List.append_nil _).symm
  | cons a rest ih => rw [List.foldl_cons, ih, each, List.flatMap_cons, List.append_assoc]

/-- Drafts of one record, with the same joins under every predicate. -/
structure Rearranged (left right : Draft) : Prop where
  record : left.record = right.record
  pending : SameByKey PendingJoin.predicate left.pending right.pending

theorem Rearranged.refl (draft : Draft) : Rearranged draft draft := ⟨rfl, .refl _ _⟩

theorem Rearranged.add {left right : Draft} (rearranged : Rearranged left right)
    (predicates : List String) (resolved : Resolved) :
    Rearranged (left.add predicates resolved) (right.add predicates resolved) := by
  constructor
  · rw [record_add, record_add, rearranged.record]
  · rw [pending_add, pending_add]
    exact rearranged.pending.append (.refl _ _)

/-- Objects under several predicates give what they give under each of them. -/
theorem Rearranged.distribute {left right : Draft} (rearranged : Rearranged left right)
    {predicates : List String} {objects : List ObjectMap} {pairs : List (String × ObjectMap)}
    (distributes : Distributes predicates objects pairs) (answer : ObjectMap → Resolved) :
    Rearranged (objects.foldl (fun draft object => draft.add predicates (answer object)) left)
      (pairs.foldl (fun draft pair => draft.add [pair.1] (answer pair.2)) right) := by
  constructor
  · rw [record_foldl (fun draft object => record_add predicates draft (answer object)),
      record_foldl (fun draft pair => record_add [pair.1] draft (answer pair.2)),
      rearranged.record]
    simp only [Resolved.statements, List.flatMap_singleton]
    apply Record.foldl_state_of_sameByKey
    apply distributes.sameByKey fun predicate object =>
      (answer object).atOnce.map fun value => (predicate, value)
    intro predicate object statement member
    obtain ⟨value, _, rfl⟩ := List.mem_map.mp member
    rfl
  · rw [pending_foldl_append (fun draft object => pending_add draft predicates (answer object)),
      pending_foldl_append (fun draft pair => pending_add draft [pair.1] (answer pair.2))]
    simp only [List.flatMap_singleton]
    apply rearranged.pending.append
    apply distributes.sameByKey fun predicate object => (answer object).joins predicate
    exact fun _ _ _ => Resolved.predicate_of_mem_joins

end Draft

/-! ### Rows -/

/-- Records that differ only in the order of their joins under different predicates. -/
structure EvaluatedRecord.Rearranged (left right : EvaluatedRecord) : Prop where
  record : left.record = right.record
  values : ∀ path, left.valuesOf path = right.valuesOf path
  joins : left.pending.Perm right.pending
  order : SameByKey PendingJoin.predicate left.pending right.pending

theorem EvaluatedRecord.Rearranged.interchangeable {left right : EvaluatedRecord}
    (rearranged : left.Rearranged right) : left.Interchangeable right :=
  ⟨rearranged.record, rearranged.values⟩

namespace Run

variable {σ : Type} {run : Run σ} {other : Mapping} {world : σ}
  {known knownOther : Nat → Outcome RuleOutput}

theorem extend_constants (scope : RowScope) (draft : Draft) {predicates : List String}
    (nonempty : predicates ≠ []) (objects : List ObjectMap) :
    extend (run.knowingHost world known) scope draft ⟨predicates.map .constant, objects⟩ =
      addObjects (run.knowingHost world known) scope predicates draft objects := by
  unfold extend
  simp only [RowScope.predicates_constants]
  change (if predicates.isEmpty = true then _ else _) = _
  rw [if_neg (mt List.isEmpty_iff.mp nonempty)]

theorem extend_single (scope : RowScope) (draft : Draft) (pair : String × ObjectMap) :
    extend (run.knowingHost world known) scope draft (.single pair) = (do
      return draft.add [pair.1] (← resolve (run.knowingHost world known) scope pair.2)) := by
  have whole : extend (run.knowingHost world known) scope draft (.single pair) =
      addObjects (run.knowingHost world known) scope [pair.1] draft [pair.2] :=
    extend_constants scope draft (List.cons_ne_nil pair.1 []) [pair.2]
  rw [addObjects, List.foldlM_cons] at whole
  exact whole.trans (bind_pure _)

section

variable (distributed : List.Forall₂ Rule.Distributed run.mapping.rules other.rules)
  (answers : AnswersInterchangeable Eq known knownOther)
include distributed

theorem requireIndex_matches (iri : String) :
    Matches Eq (run.mapping.requireIndex iri) (other.requireIndex iri) := by
  rw [Mapping.requireIndex_of_distributed distributed]
  exact .refl _

include answers

theorem resolve_matches (scope : RowScope) (object : ObjectMap) :
    Matches Eq (resolve (run.knowingHost world known) scope object)
      (resolve ((run.withMapping other).knowingHost world knownOther) scope object) := by
  apply (resolve_alike (requireIndex_matches distributed) answers scope object).mono
  intro resolved further alike
  cases alike with
  | values values => rfl
  | join conditions same => rw [same]

theorem extend_rearranged (scope : RowScope) (pom : PredicateObjectMap) {left right : Draft}
    (rearranged : Draft.Rearranged left right) :
    Matches Draft.Rearranged (extend (run.knowingHost world known) scope left pom)
      (extend ((run.withMapping other).knowingHost world knownOther) scope right pom) := by
  apply (Matches.refl (scope.predicates pom.predicates)).bind
  rintro predicates _ rfl
  cases predicates.isEmpty with
  | true => exact .ok rearranged
  | false =>
      refine Matches.foldlM ?_ pom.objects rearranged
      intro left right object rearranged
      apply (resolve_matches distributed answers scope object).bind
      rintro resolved _ rfl
      exact .ok (rearranged.add predicates resolved)

/-- A map and the maps that it is taken apart into both fail, if one of the objects does, or
give the same statements and joins under each predicate. -/
theorem extend_apart (scope : RowScope) {predicates : List String} {objects : List ObjectMap}
    {pairs : List (String × ObjectMap)} (distributes : Distributes predicates objects pairs)
    {left right : Draft} (rearranged : Draft.Rearranged left right) :
    Matches Draft.Rearranged
      (extend (run.knowingHost world known) scope left ⟨predicates.map .constant, objects⟩)
      ((pairs.map PredicateObjectMap.single).foldlM
        (extend ((run.withMapping other).knowingHost world knownOther) scope) right) := by
  have : Nonempty Resolved := ⟨.values []⟩
  rw [extend_constants scope left distributes.nonempty, addObjects, List.foldlM_map]
  simp only [extend_single]
  exact Matches.foldlM_answers
    (fun pair : String × ObjectMap => resolve_matches distributed answers scope pair.2)
    (fun _ => distributes.exists_pair_iff) fun answer => rearranged.distribute distributes answer

theorem foldlM_extend_rearranged (scope : RowScope) {maps others : List PredicateObjectMap}
    (apart : MapsDistributed maps others) {left right : Draft}
    (rearranged : Draft.Rearranged left right) :
    Matches Draft.Rearranged (maps.foldlM (extend (run.knowingHost world known) scope) left)
      (others.foldlM (extend ((run.withMapping other).knowingHost world knownOther) scope)
        right) := by
  induction apart generalizing left right with
  | nil => exact .ok rearranged
  | same pom _ ih =>
      rw [List.foldlM_cons, List.foldlM_cons]
      exact (extend_rearranged distributed answers scope pom rearranged).bind fun _ _ => ih
  | apart distributes _ ih =>
      rw [List.foldlM_cons, List.foldlM_append]
      exact (extend_apart distributed answers scope distributes rearranged).bind fun _ _ => ih

/-- A row gives the same records, and their joins in another order at most. -/
theorem evaluateRow_rearranged (scope : RowScope) {rule further : Rule}
    (apart : rule.Distributed further) {paths others : List String}
    (members : ∀ path, path ∈ paths ↔ path ∈ others) :
    Matches (List.Forall₂ EvaluatedRecord.Rearranged)
      (evaluateRow (run.knowingHost world known) scope rule paths)
      (evaluateRow ((run.withMapping other).knowingHost world knownOther) scope further
        others) := by
  cases apart with
  | of_maps maps =>
      apply evaluateRow_matches (requireIndex_matches distributed) answers scope rule ?_ ?_ members
      · exact Draft.Rearranged
      · intro draft _
        exact foldlM_extend_rearranged distributed answers scope maps (.refl draft)
      · intro left right drafted id entries further found
        refine ⟨?_, fun path => congrArg (Option.getD · []) (found path), drafted.pending.perm,
          drafted.pending⟩
        rw [drafted.record]

end

/-! ### Rules -/

theorem run_evaluate (run : Run σ) (stateless : run.registry.Stateless) (cache : Cache)
    (world first : σ) (index : Nat) :
    ((run.evaluate index).run.run (run.start cache first)).1 =
      run.plain cache world run.mapping.rules.length [] index :=
  (run.evaluate_follows cache world stateless index _
    (run.start_consistent cache world first)).result

section

variable (distributed : List.Forall₂ Rule.Distributed run.mapping.rules other.rules)
include distributed

/-- The plain recursion comes to the same rules in the same order. -/
theorem plain_rearranged (cache : Cache) (world : σ) (depth : Nat) (openRules : List Nat)
    (index : Nat) :
    Matches (List.Forall₂ EvaluatedRecord.Rearranged)
      (run.plain cache world depth openRules index)
      ((run.withMapping other).plain cache world depth openRules index) := by
  have both := rel_getElem? distributed index
  unfold plain
  change Option.Rel _ _ ((run.withMapping other).mapping.rules[index]?) at both
  generalize run.mapping.rules[index]? = found at both
  generalize (run.withMapping other).mapping.rules[index]? = foundOther at both
  cases both with
  | none => exact .error _ _
  | @some rule further apart =>
      dsimp only
      by_cases member : index ∈ openRules
      · rw [if_pos member, if_pos member]
        exact .error _ _
      · rw [if_neg member, if_neg member]
        cases depth with
        | zero => exact .error _ _
        | succ depth =>
            dsimp only
            rw [outputGiven_eq, outputGiven_eq]
            have sameRows : (run.withMapping other).rowsFrom cache further =
                run.rowsFrom cache rule := by
              cases apart
              rfl
            rw [sameRows]
            apply (Matches.refl (run.rowsFrom cache rule)).bind
            rintro rows _ rfl
            have answers : AnswersInterchangeable Eq
                (run.plain cache world depth (index :: openRules))
                ((run.withMapping other).plain cache world depth (index :: openRules)) := by
              rintro parent _ rfl
              apply (plain_rearranged cache world depth (index :: openRules) parent).mono
              intro output others records
              exact records.imp fun _ _ same => same.interchangeable
            apply evaluateRule_matches
            intro row
            exact evaluateRow_rearranged distributed answers _ apart
              (Mapping.mem_parentPaths_of_distributed distributed index)

theorem evaluate_rearranged (stateless : run.registry.Stateless) (cache : Cache)
    (first second : σ) (index : Nat) :
    Matches (List.Forall₂ EvaluatedRecord.Rearranged)
      ((run.evaluate index).run.run (run.start cache first)).1
      (((run.withMapping other).evaluate index).run.run
        ((run.withMapping other).start cache second)).1 := by
  have same : run.mapping.rules.length = other.rules.length := distributed.length_eq
  rw [run_evaluate run stateless cache first first,
    run_evaluate (run.withMapping other) stateless cache first second]
  change Matches _ (run.plain cache first run.mapping.rules.length [] index)
    ((run.withMapping other).plain cache first other.rules.length [] index)
  rw [← same]
  exact plain_rearranged distributed cache first _ [] index

end

/-- A predicate-object map of fixed predicates may be taken apart: either the rule fails with
both mappings, or it has the same records, and every record the same joins under each
predicate. -/
theorem evaluate_of_distributes (run : Run σ) {index : Nat} {rule : Rule}
    (ruleAt : run.mapping.rules[index]? = some rule)
    {predicates : List String} {objects : List ObjectMap} {pairs : List (String × ObjectMap)}
    (distributes : Distributes predicates objects pairs) {before after : List PredicateObjectMap}
    (maps : rule.predicateObjectMaps = before ++ ⟨predicates.map .constant, objects⟩ :: after)
    (stateless : run.registry.Stateless) (cache : Cache) (first second : σ) :
    ∃ other,
      Mapping.ofRules (run.mapping.rules.set index
        { rule with
          predicateObjectMaps := before ++ pairs.map PredicateObjectMap.single ++ after }) =
        .ok other ∧
      Matches (List.Forall₂ EvaluatedRecord.Rearranged)
        ((run.evaluate index).run.run (run.start cache first)).1
        (((run.withMapping other).evaluate index).run.run
          ((run.withMapping other).start cache second)).1 := by
  have apart : rule.Distributed { rule with
      predicateObjectMaps := before ++ pairs.map PredicateObjectMap.single ++ after } := by
    apply Rule.Distributed.of_maps
    rw [maps]
    exact .of_split distributes before after
  have distributed := forall₂_set Rule.Distributed.refl ruleAt apart
  obtain ⟨other, accepted⟩ := Mapping.exists_ofRules_of_distributed distributed
  refine ⟨other, accepted, ?_⟩
  rw [← Mapping.ofRules_eq_ok_iff.mp accepted] at distributed
  exact evaluate_rearranged distributed stateless cache first second index

def clientObjects : List ObjectMap :=
  [.ofKind (.function ⟨"call",
      [⟨[.constant Vocabulary.executes], [.ofKind (.constant (.iri "first"))]⟩,
        ⟨[.constant "of"], [.ofKind (.reference "client")]⟩]⟩),
    .ofKind (.parent ⟨"clients", [⟨"client", "name"⟩]⟩)]

/-- Orders with their clients under two predicates. -/
def clientsRun : Run Nat where
  mapping :=
    { rules :=
        [tableRule "orders" "rows" [⟨[.constant "by", .constant "for"], clientObjects⟩],
          tableRule "clients" "rows" []]
      distinct := by decide
      closed := by decide }
  registry := mutualRun.registry
  options := {}
  sources := [("rows", "id,name,client\n1,a,b\n2,b,b\n")]

def clientPairs : List (String × ObjectMap) :=
  clientObjects.map (("for", ·)) ++ clientObjects.map (("by", ·))

theorem evaluate_clientsRun_apart :
    Distributes ["by", "for"] clientObjects clientPairs ∧ clientsRun.registry.Stateless ∧
      ∃ other output others,
        Mapping.ofRules [tableRule "orders" "rows" (clientPairs.map PredicateObjectMap.single),
          tableRule "clients" "rows" []] = .ok other ∧
        ((clientsRun.evaluate 0).run.run (clientsRun.start [] 0)).1 = .ok output ∧
        (((clientsRun.withMapping other).evaluate 0).run.run
          ((clientsRun.withMapping other).start [] 1)).1 = .ok others ∧
        output.map (·.pending.map PendingJoin.predicate) = [["by", "for"], ["by", "for"]] ∧
        List.Forall₂ EvaluatedRecord.Rearranged output others := by
  have distributes : Distributes ["by", "for"] clientObjects clientPairs := by
    refine ⟨by decide, by decide, by decide, ?_⟩
    exact List.forall_mem_cons.mpr ⟨rfl, List.forall_mem_singleton.mpr rfl⟩
  have stateless : clientsRun.registry.Stateless :=
    Registry.stateless_standard.register _ fun _ _ _ => rfl
  have success : ∃ output, ((clientsRun.evaluate 0).run.run (clientsRun.start [] 0)).1 =
      .ok output ∧ output.map (·.pending.map PendingJoin.predicate) =
        [["by", "for"], ["by", "for"]] := by
    apply Outcome.map_eq_ok.mp
    decide +kernel
  obtain ⟨output, evaluated, joins⟩ := success
  let pom : PredicateObjectMap := ⟨["by", "for"].map .constant, clientObjects⟩
  have ruleAt : clientsRun.mapping.rules[0]? = some (tableRule "orders" "rows" [pom]) := rfl
  have alone : [pom] = [] ++ pom :: [] := rfl
  obtain ⟨other, accepted, same⟩ :=
    clientsRun.evaluate_of_distributes ruleAt distributes alone stateless [] 0 1
  rw [evaluated] at same
  generalize given : (((clientsRun.withMapping other).evaluate 0).run.run
    ((clientsRun.withMapping other).start [] 1)).1 = result at same
  cases same with
  | ok rearranged =>
      exact ⟨distributes, stateless, other, output, _, accepted, evaluated, given, joins,
        rearranged⟩

end Run

end RdfMapping
