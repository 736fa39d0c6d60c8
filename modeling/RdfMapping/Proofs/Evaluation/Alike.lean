import RdfMapping.Proofs.Evaluation.Plain
import RdfMapping.Proofs.Join.Order
import RdfMapping.Proofs.Mapping.Order
/-!
The evaluation of one rule in two mappings of the same rules. A rule is evaluated alike
at corresponding positions: with rows, names, classes and values the same, with joins that
correspond, and with the values for other rules listed in any order. Errors may differ,
since a mapping that lists selectors in another order may come upon another one first.
-/

namespace RdfMapping

open Outcome

variable {same : Nat → Nat → Prop}

inductive Resolved.Alike (same : Nat → Nat → Prop) : Resolved → Resolved → Prop
  | values (values : List ObjectValue) : Resolved.Alike same (.values values) (.values values)
  | join {parent other : Nat} (conditions : List PendingCondition) :
      same parent other → Resolved.Alike same (.join parent conditions) (.join other conditions)

namespace Draft

structure Alike (same : Nat → Nat → Prop) (left right : Draft) : Prop where
  record : left.record = right.record
  pending : List.Forall₂ (PendingJoin.Alike same) left.pending right.pending

theorem Alike.addValue {left right : Draft} (alike : Alike same left right) (predicate : String)
    (value : ObjectValue) :
    Alike same (Draft.addValue predicate left value) (Draft.addValue predicate right value) := by
  unfold Draft.addValue
  rw [alike.record]
  split
  · exact ⟨rfl, alike.pending⟩
  · exact ⟨rfl, alike.pending⟩

private theorem Alike.foldl {α : Type} {step : Draft → α → Draft}
    (each : ∀ left right a, Alike same left right → Alike same (step left a) (step right a))
    (items : List α) {left right : Draft} (alike : Alike same left right) :
    Alike same (items.foldl step left) (items.foldl step right) := by
  induction items generalizing left right with
  | nil => exact alike
  | cons a rest ih => exact ih (each left right a alike)

theorem Alike.add {left right : Draft} (alike : Alike same left right) (predicates : List String)
    {resolved other : Resolved} (given : Resolved.Alike same resolved other) :
    Alike same (left.add predicates resolved) (right.add predicates other) := by
  cases given with
  | values values =>
      refine Alike.foldl ?_ predicates alike
      intro left right predicate alike
      refine Alike.foldl ?_ values alike
      intro left right value alike
      exact alike.addValue predicate value
  | join conditions corresponds =>
      refine ⟨alike.record, List.rel_append alike.pending ?_⟩
      rw [List.forall₂_map_left_iff, List.forall₂_map_right_iff, List.forall₂_same]
      intro predicate _
      exact ⟨rfl, corresponds, rfl⟩

end Draft

/-! ### Values for other rules -/

theorem lookup_of_mapM {values : String → Outcome (List Json)} {paths : List String}
    {entries : List (String × List Json)}
    (success : (paths.mapM fun path => (values path).map fun found => (path, found)) = .ok entries)
    (path : String) :
    entries.lookup path = if path ∈ paths then (values path).toOption else none := by
  have each := mapM_eq_ok.mp success
  clear success
  induction each with
  | nil => rfl
  | @cons first entry paths entries given _ ih =>
      obtain ⟨found, read, rfl⟩ := map_eq_ok.mp given
      rw [List.lookup_cons]
      by_cases here : path = first
      · subst here
        simp [read, Except.toOption]
      · rw [beq_false_of_ne here, ih]
        simp [here]

theorem matches_values {values : String → Outcome (List Json)} {paths others : List String}
    (members : ∀ path, path ∈ paths ↔ path ∈ others) :
    Matches (fun entries further : List (String × List Json) =>
        ∀ path, entries.lookup path = further.lookup path)
      (paths.mapM fun path => (values path).map fun found => (path, found))
      (others.mapM fun path => (values path).map fun found => (path, found)) := by
  apply Matches.of_exists_iff
  · rw [exists_mapM_eq_ok_iff, exists_mapM_eq_ok_iff]
    simp only [members]
  · intro entries further success successOther path
    rw [lookup_of_mapM success, lookup_of_mapM successOther]
    simp only [members]

/-! ### Hosts that know all outputs -/

def matching : Simulation Outcome Outcome where
  Rel x y := Matches Eq x y
  pure := fun _ => .ok rfl
  bind := by
    intro α β x y f g first next
    apply first.bind
    rintro a _ rfl
    exact next a

def AnswersAlike (same : Nat → Nat → Prop) (known knownOther : Nat → Outcome RuleOutput) : Prop :=
  ∀ index position, same index position →
    Matches (List.Forall₂ (EvaluatedRecord.Alike same)) (known index) (knownOther position)

/-- Corresponding rules have outputs that other rules cannot tell apart, or none. -/
def AnswersInterchangeable (same : Nat → Nat → Prop) (known knownOther : Nat → Outcome RuleOutput) :
    Prop :=
  ∀ index position, same index position →
    Matches (List.Forall₂ EvaluatedRecord.Interchangeable) (known index) (knownOther position)

theorem AnswersAlike.interchangeable {known knownOther : Nat → Outcome RuleOutput}
    (answers : AnswersAlike same known knownOther) :
    AnswersInterchangeable same known knownOther := by
  intro index position corresponds
  apply (answers index position corresponds).mono
  intro output other alike
  exact alike.imp fun _ _ records => records.interchangeable

namespace Run

variable {σ : Type} (run : Run σ)

def knowingHost (world : σ) (known : Nat → Outcome RuleOutput) : Host Outcome where
  lift := fun outcome => outcome
  function? := fun iri => (run.registry.find? iri).map fun function arguments =>
    (function arguments world).1
  position := run.mapping.requireIndex
  output := known

/-- The computation that is left when every question is answered. -/
def answeredBy (known : Nat → Outcome RuleOutput) : Simulation Asking Outcome where
  Rel x y := x known = y
  pure := fun _ => rfl
  bind := by
    rintro α β x _ f g rfl next
    change (x known >>= fun a => f a known) = _
    exact congrArg (x known >>= ·) (funext next)

theorem mapM_answers (known : Nat → Outcome RuleOutput) (positions : List Nat) :
    (positions.mapM fun index known => known index : Asking (List RuleOutput)) known =
      positions.mapM known :=
  (answeredBy known).mapM (fun _ => rfl) positions

theorem outputGiven_eq (cache : Cache) (world : σ) (index : Nat) (rule : Rule)
    (known : Nat → Outcome RuleOutput) :
    run.outputGiven cache world index rule known = (do
      let rows ← run.rowsFrom cache rule
      evaluateRule (run.knowingHost world known) run.options rows rule
        (run.mapping.parentPaths index)) := by
  have related : (run.askingHost world).Related (answeredBy known)
      (run.knowingHost world known) := by
    refine ⟨fun _ => rfl, ?_, rfl, fun _ => rfl⟩
    intro iri
    change Option.Rel _ ((run.registry.find? iri).map _) ((run.registry.find? iri).map _)
    cases run.registry.find? iri with
    | none => exact .none
    | some function => exact .some fun _ => rfl
  exact (answeredBy known).bind rfl fun rows => evaluateRule_related related _ rows rule _

def withMapping (mapping : Mapping) : Run σ := { run with mapping }

section

variable {run} {other : Mapping} {world : σ} {known knownOther : Nat → Outcome RuleOutput}
  (named : ∀ iri, Matches same (run.mapping.requireIndex iri) (other.requireIndex iri))
  (answers : AnswersInterchangeable same known knownOther)

include named answers

theorem knowingHost_linked (world : σ) (asked : ParentReference → Prop) :
    (run.knowingHost world known).Linked matching (fun _ => True) asked
      ((run.withMapping other).knowingHost world knownOther) where
  admits := fun _ _ => trivial
  lift := fun outcome _ => .refl outcome
  function := by
    intro iri
    change Option.Rel _ ((run.registry.find? iri).map _) ((run.registry.find? iri).map _)
    cases run.registry.find? iri with
    | none => exact .none
    | some function => exact .some fun _ => .refl _
  records := by
    intro scope reference _
    apply (named reference.parent).bind
    intro parent position corresponds
    apply (answers parent position corresponds).bind
    intro output outputOther alike
    apply (Matches.refl (scope.pendingConditions reference.conditions)).bind
    rintro conditions _ rfl
    apply Matches.ok
    apply congrArg Json.array
    apply map_filter_of_alike alike
    · intro left right alikeRecords
      unfold EvaluatedRecord.admits
      simp only [alikeRecords.values]
    · intro left right alikeRecords
      rw [alikeRecords.record]

theorem resolve_alike (scope : RowScope) (object : ObjectMap) :
    Matches (Resolved.Alike same)
      (resolve (run.knowingHost world known) scope object)
      (resolve ((run.withMapping other).knowingHost world knownOther) scope object) := by
  unfold resolve
  cases object.kind with
  | constant value =>
      cases value with
      | iri iri => exact .ok (.values _)
      | literal text datatype language =>
          apply (Matches.refl (scope.language object)).bind
          rintro given _ rfl
          exact .ok (.values _)
  | reference selector =>
      apply (Matches.refl (scope.language object)).bind
      rintro language _ rfl
      apply (Matches.refl (scope.values selector object.datatype)).bind
      rintro values _ rfl
      exact .ok (.values _)
  | template template =>
      apply (Matches.refl (scope.language object)).bind
      rintro language _ rfl
      apply (Matches.refl (scope.expand _ template)).bind
      rintro texts _ rfl
      exact .ok (.values _)
  | function call =>
      apply (invoke_linked (knowingHost_linked named answers world fun _ => True) scope call
        fun _ _ => trivial).bind
      rintro result _ rfl
      apply (Matches.refl (scope.language object)).bind
      rintro language _ rfl
      exact .ok (.values _)
  | parent reference =>
      apply (named reference.parent).bind
      intro parent position corresponds
      apply (Matches.refl (scope.pendingConditions reference.conditions)).bind
      rintro conditions _ rfl
      exact .ok (.join conditions corresponds)

theorem extend_alike (scope : RowScope) (pom : PredicateObjectMap) {left right : Draft}
    (alike : Draft.Alike same left right) :
    Matches (Draft.Alike same) (extend (run.knowingHost world known) scope left pom)
      (extend ((run.withMapping other).knowingHost world knownOther) scope right pom) := by
  apply (Matches.refl (scope.predicates pom.predicates)).bind
  rintro predicates _ rfl
  cases predicates.isEmpty with
  | true => exact .ok alike
  | false =>
      refine Matches.foldlM ?_ pom.objects alike
      intro left right object alike
      apply (resolve_alike named answers scope object).bind
      intro resolved resolvedOther given
      exact .ok (alike.add predicates given)

theorem evaluateRow_matches (scope : RowScope) (rule : Rule) {maps : List PredicateObjectMap}
    {drafts : Draft → Draft → Prop} {related : EvaluatedRecord → EvaluatedRecord → Prop}
    (drafted : ∀ draft : Draft, draft.pending = [] → Matches drafts
      (rule.predicateObjectMaps.foldlM (extend (run.knowingHost world known) scope) draft)
      (maps.foldlM (extend ((run.withMapping other).knowingHost world knownOther) scope) draft))
    (records : ∀ left right, drafts left right → ∀ id entries further,
      (∀ path, entries.lookup path = further.lookup path) →
      related ⟨{ left.record with id }, entries, left.pending⟩
        ⟨{ right.record with id }, further, right.pending⟩)
    {paths others : List String} (members : ∀ path, path ∈ paths ↔ path ∈ others) :
    Matches (List.Forall₂ related)
      (evaluateRow (run.knowingHost world known) scope rule paths)
      (evaluateRow ((run.withMapping other).knowingHost world knownOther) scope
        { rule with predicateObjectMaps := maps } others) := by
  have linked := knowingHost_linked named answers world rule.Needs
  apply (classes_linked scope linked).bind
  rintro types _ rfl
  apply (subjects_linked scope linked fun _ _ => trivial).bind
  rintro ids _ rfl
  cases ids.isEmpty with
  | true => exact .ok .nil
  | false =>
      apply (drafted ⟨_, []⟩ rfl).bind
      intro left right matching
      apply (matches_values members).bind
      intro entries further found
      apply Matches.ok
      rw [List.forall₂_map_left_iff, List.forall₂_map_right_iff, List.forall₂_same]
      intro id _
      exact records left right matching id entries further found

theorem evaluateRow_alike (scope : RowScope) (rule : Rule) {paths others : List String}
    (members : ∀ path, path ∈ paths ↔ path ∈ others) :
    Matches (List.Forall₂ (EvaluatedRecord.Alike same))
      (evaluateRow (run.knowingHost world known) scope rule paths)
      (evaluateRow ((run.withMapping other).knowingHost world knownOther) scope rule others) := by
  apply evaluateRow_matches named answers scope rule ?_ ?_ members
  · exact Draft.Alike same
  · intro draft empty
    have begun : Draft.Alike same draft draft := by
      refine ⟨rfl, ?_⟩
      rw [empty]
      exact .nil
    exact Matches.foldlM (fun left right pom alike =>
      extend_alike named answers scope pom alike) rule.predicateObjectMaps begun
  · intro left right drafted id entries further found
    refine ⟨?_, fun path => congrArg (Option.getD · []) (found path), drafted.pending⟩
    rw [drafted.record]

omit named answers in
theorem evaluateRule_matches {related : EvaluatedRecord → EvaluatedRecord → Prop}
    {options : Options} {rows : Rows} {host hostOther : Host Outcome} {rule ruleOther : Rule}
    {paths others : List String}
    (each : ∀ row, Matches (List.Forall₂ related)
      (evaluateRow host ⟨rows, row, options⟩ rule paths)
      (evaluateRow hostOther ⟨rows, row, options⟩ ruleOther others)) :
    Matches (List.Forall₂ related) (evaluateRule host options rows rule paths)
      (evaluateRule hostOther options rows ruleOther others) := by
  have eachRow : List.Forall₂ (fun row rowOther => Matches (List.Forall₂ related)
      (evaluateRow host ⟨rows, row, options⟩ rule paths)
      (evaluateRow hostOther ⟨rows, rowOther, options⟩ ruleOther others))
      (List.range rows.count) (List.range rows.count) := by
    rw [List.forall₂_same]
    exact fun row _ => each row
  apply (Matches.mapM eachRow).bind
  intro parts partsOther related
  exact .ok (List.rel_flatten related)

end

/-! ### The recursion between rules -/

section

variable {run} {other : Mapping}

/-- The plain recursion gives alike outputs at corresponding positions, if the open rules
correspond as well. -/
theorem plain_alike (sameRules : run.mapping.SameRules other) (cache : Cache) (world : σ)
    {depth : Nat} {openRules openOther : List Nat}
    (opened : List.Forall₂ (run.mapping.Corresponds other) openRules openOther) :
    AnswersAlike (run.mapping.Corresponds other) (run.plain cache world depth openRules)
      ((run.withMapping other).plain cache world depth openOther) := by
  intro index position corresponds
  obtain ⟨rule, ruleAt, ruleAtOther⟩ := id corresponds
  have sameOpen : index ∈ openRules ↔ position ∈ openOther :=
    List.rel_mem Mapping.biUnique_corresponds corresponds opened
  change (run.withMapping other).mapping.rules[position]? = some rule at ruleAtOther
  unfold plain
  simp only [ruleAt, ruleAtOther]
  by_cases member : index ∈ openRules
  · rw [if_pos member, if_pos (sameOpen.mp member)]
    exact .error _ _
  · rw [if_neg member, if_neg (mt sameOpen.mpr member)]
    cases depth with
    | zero => exact .error _ _
    | succ depth =>
        dsimp only
        rw [outputGiven_eq, outputGiven_eq]
        apply (Matches.refl (run.rowsFrom cache rule)).bind
        rintro rows _ rfl
        -- one more open rule on either side, and one step less to go
        have answers : AnswersAlike (run.mapping.Corresponds other)
            (run.plain cache world depth (index :: openRules))
            ((run.withMapping other).plain cache world depth (position :: openOther)) :=
          plain_alike sameRules cache world (.cons corresponds opened)
        apply evaluateRule_matches
        intro row
        exact evaluateRow_alike sameRules.requireIndex answers.interchangeable _ rule
          (sameRules.mem_parentPaths_iff corresponds)

end

end Run

end RdfMapping
