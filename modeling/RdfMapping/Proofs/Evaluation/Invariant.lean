import RdfMapping.Proofs.Evaluation.Simulation
import RdfMapping.Proofs.Evaluation.Steps
import RdfMapping.Proofs.Function.Failure
/-!
Invariants of a run. What holds of the states of a run is stated together with the rules
whose sources are known to have been opened: the evaluation of a rule adds the rule to
them if it succeeds. An invariant speaks only of what a run remembers, and it is enough to
look at the opening of a source and at the marks of the rules. Along with it goes what a
run can fail with. The rules that are referred to are all there, so that no rule is ever
unknown.
-/

namespace RdfMapping

open Outcome

namespace Run

variable {σ : Type} (run : Run σ)

/-- A property of the states of a run in which the sources of some rules have been opened. -/
structure Invariant (Holds : List Nat → RunState σ → Prop) : Prop where
  size : ∀ {opened state}, Holds opened state → state.rules.size = run.mapping.rules.length
  world : ∀ {opened state} next, Holds opened state → Holds opened { state with world := next }
  opens : ∀ {opened state index rule}, run.mapping.rules[index]? = some rule →
    Holds opened state →
      Holds opened ((run.rowsOf index rule).run.run state).2 ∧
        ∀ rows, ((run.rowsOf index rule).run.run state).1 = .ok rows →
          Holds (index :: opened) ((run.rowsOf index rule).run.run state).2
  mark : ∀ {opened state} index ruleState, ruleState.output? = none →
    Holds opened state → Holds opened (state.mark index ruleState)
  complete : ∀ {opened state} index output,
    Holds (index :: opened) state → Holds (index :: opened) (state.mark index (.done output))
  remembered : ∀ {opened state index output}, state.output? index = some output →
    Holds opened state → Holds (index :: opened) state
  drop : ∀ {opened state index}, Holds (index :: opened) state → Holds opened state

/-- Errors among which are all those that the evaluation of a rule can end in. -/
structure Tolerates (admitted : MappingError → Prop) : Prop where
  ofLocal : ∀ e, e.IsLocal → admitted e
  ofSource : ∀ e, e.IsSource → admitted e
  cycle : ∀ iri, admitted (.cyclicDependency iri)
  functions : run.registry.FailsWithin admitted
  subjects : ∀ rule ∈ run.mapping.rules, rule.subject.resolvedTermType = .literal →
    ∀ detail, admitted (.invalidTermType detail)

theorem tolerates_any : run.Tolerates fun _ => True where
  ofLocal := fun _ _ => trivial
  ofSource := fun _ _ => trivial
  cycle := fun _ => trivial
  functions := fun _ _ _ _ _ _ _ => trivial
  subjects := fun _ _ _ _ => trivial

section

variable {α : Type} (Holds : List Nat → RunState σ → Prop) (admitted : MappingError → Prop)

/-- A step after which the invariant holds as before, and which fails with an admitted
error if it fails. -/
def Maintains (opened : List Nat) (x : RunM σ α) : Prop :=
  ∀ state, Holds opened state →
    Holds opened (x.run.run state).2 ∧ FailsWithin admitted (x.run.run state).1

/-- Steps that maintain an invariant, as a relation that does not look at its right side. -/
def maintaining (opened : List Nat) : Simulation (RunM σ) (RunM σ) where
  Rel x _ := Maintains Holds admitted opened x
  pure a := fun _ holds => ⟨holds, failsWithin_ok a⟩
  bind := by
    intro α β x y f g first next state holds
    obtain ⟨kept, fails⟩ := first state holds
    rw [RunM.run_bind]
    rcases ran : x.run.run state with ⟨result, between⟩
    rw [ran] at kept fails
    cases result with
    | error e => exact ⟨kept, failsWithin_error (fails e rfl)⟩
    | ok a => exact next a between kept

/-- What an evaluation leaves: the invariant, with the sources of some more rules open if
it succeeds, and otherwise an admitted error. -/
structure Leaves (opened more : List Nat) (step : Outcome α × RunState σ) : Prop where
  holds : Holds opened step.2
  fails : FailsWithin admitted step.1
  opens : ∀ a, step.1 = .ok a → Holds (more ++ opened) step.2

end

section

variable {run} {Holds : List Nat → RunState σ → Prop} {admitted : MappingError → Prop}
  (invariant : run.Invariant Holds) (tolerates : run.Tolerates admitted)
  {opened : List Nat}

theorem lift_maintains {α : Type} {outcome : Outcome α} (fails : FailsWithin admitted outcome) :
    Maintains Holds admitted opened (ExceptT.mk (pure outcome) : RunM σ α) :=
  fun _ holds => ⟨holds, fails⟩

include invariant tolerates

theorem host_maintains {output : Nat → RunM σ RuleOutput} {rule : Rule}
    (member : rule ∈ run.mapping.rules)
    (outputs : ∀ parent, parent < run.mapping.rules.length →
      Maintains Holds admitted opened (output parent)) :
    (run.host output).LinkedFor (maintaining Holds admitted opened) admitted rule
      (run.host output) where
  admits := tolerates.ofLocal
  lift := fun _ fails => lift_maintains fails
  function := by
    intro iri
    change Option.Rel _ ((run.registry.find? iri).map _) ((run.registry.find? iri).map _)
    cases found : run.registry.find? iri with
    | none => exact .none
    | some function =>
        refine .some fun arguments state holds => ?_
        exact ⟨invariant.world _ holds,
          tolerates.functions iri function found arguments state.world⟩
  records := by
    intro scope reference needs
    obtain ⟨parent, found⟩ := Mapping.exists_indexOf?_of_mentions member needs.mentions
    obtain ⟨_, ruleAt, _⟩ := Mapping.indexOf?_eq_some_iff.mp found
    unfold parentRecords
    change (maintaining Holds admitted opened).Rel
      (ExceptT.mk (pure (run.mapping.requireIndex reference.parent)) >>= _)
      (ExceptT.mk (pure (run.mapping.requireIndex reference.parent)) >>= _)
    rw [Mapping.requireIndex_eq_ok_iff.mpr found]
    apply (maintaining Holds admitted opened).bind (outputs parent ?_)
    · intro output
      apply (maintaining Holds admitted opened).bind (lift_maintains
        ((scope.pendingConditions_local reference.conditions).mono tolerates.ofLocal))
      intro conditions
      exact (maintaining Holds admitted opened).pure _
    · exact (List.getElem?_eq_some_iff.mp ruleAt).1
  position := rfl
  joins := by
    intro reference joined
    obtain ⟨pom, pomOf, object, objectOf, kind⟩ := Rule.mem_joinReferences_iff.mp joined
    obtain ⟨parent, found⟩ :=
      Mapping.exists_indexOf?_of_mentions member (.join pomOf objectOf kind)
    change FailsWithin admitted (run.mapping.requireIndex reference.parent)
    rw [Mapping.requireIndex_eq_ok_iff.mpr found]
    exact failsWithin_ok parent
  subject := tolerates.subjects rule member

/-! ### Rules -/

theorem outputOpened_leaves {output : Nat → RunM σ RuleOutput} {index : Nat} {rule : Rule}
    (ruleAt : run.mapping.rules[index]? = some rule)
    (outputs : ∀ parent, parent < run.mapping.rules.length →
      Maintains Holds admitted (index :: opened) (output parent))
    {state : RunState σ} (holds : Holds opened state) :
    Leaves Holds admitted opened [index] ((run.outputOpened output index rule).run.run state) := by
  obtain ⟨kept, opens⟩ := invariant.opens ruleAt holds
  have fails := (run.rowsOf_source index rule state).mono tolerates.ofSource
  unfold outputOpened
  rw [RunM.run_bind]
  rcases ran : (run.rowsOf index rule).run.run state with ⟨result, next⟩
  rw [ran] at kept opens fails
  cases result with
  | error e => exact ⟨kept, failsWithin_error (fails e rfl), nofun⟩
  | ok rows =>
      have linked := host_maintains invariant tolerates (List.mem_of_getElem? ruleAt) outputs
      obtain ⟨held, failsLater⟩ := evaluateRule_linked linked run.options rows
        (run.mapping.parentPaths index) next (opens rows rfl)
      exact ⟨invariant.drop held, failsLater, fun _ _ => held⟩

theorem evaluateNew_leaves {output : Nat → RunM σ RuleOutput} {index : Nat} {rule : Rule}
    (ruleAt : run.mapping.rules[index]? = some rule)
    (outputs : ∀ parent, parent < run.mapping.rules.length →
      Maintains Holds admitted (index :: opened) (output parent))
    {state : RunState σ} (holds : Holds opened state) :
    Leaves Holds admitted opened [index] ((run.evaluateNew output index rule).run.run state) := by
  have begun := outputOpened_leaves invariant tolerates ruleAt outputs
    (invariant.mark index .inProgress rfl holds)
  rw [run_evaluateNew]
  rcases ran : (run.outputOpened output index rule).run.run (state.mark index .inProgress) with
    ⟨result, next⟩
  rw [ran] at begun
  cases result with
  | error e =>
      exact ⟨invariant.mark index .pending rfl begun.holds, failsWithin_error (begun.fails e rfl),
        nofun⟩
  | ok output =>
      have completed := invariant.complete index output (begun.opens output rfl)
      exact ⟨invariant.drop completed, failsWithin_ok output, fun _ _ => completed⟩

theorem evaluateWithin_leaves_of_pending {depth index : Nat} {state : RunState σ}
    (inside : index < run.mapping.rules.length) (holds : Holds opened state)
    (entered : ∀ rule, run.mapping.rules[index]? = some rule →
      state.rules[index]? = some .pending →
        Leaves Holds admitted opened [index] ((run.evaluateWithin depth index).run.run state)) :
    Leaves Holds admitted opened [index] ((run.evaluateWithin depth index).run.run state) := by
  have ruleAt := List.getElem?_eq_getElem inside
  have known : index < state.rules.size := by
    rw [invariant.size holds]
    exact inside
  have found := Array.getElem?_eq_getElem known
  cases given : state.rules[index] with
  | pending => exact entered _ ruleAt (given ▸ found)
  | inProgress =>
      rw [evaluateWithin_inProgress ruleAt (given ▸ found)]
      exact ⟨holds, failsWithin_error (tolerates.cycle _), nofun⟩
  | done output =>
      have done : state.rules[index]? = some (.done output) := given ▸ found
      rw [evaluateWithin_done ruleAt done]
      exact ⟨holds, failsWithin_ok output,
        fun _ _ => invariant.remembered (RunState.output?_of_rules done) holds⟩

theorem evaluateWithin_leaves (depth : Nat) {opened : List Nat} {index : Nat}
    (inside : index < run.mapping.rules.length) {state : RunState σ} (holds : Holds opened state) :
    Leaves Holds admitted opened [index] ((run.evaluateWithin depth index).run.run state) := by
  induction depth generalizing opened index state with
  | zero =>
      apply evaluateWithin_leaves_of_pending invariant tolerates inside holds
      intro rule ruleAt pending
      rw [evaluateWithin_exhausted ruleAt pending]
      exact ⟨holds, failsWithin_error (tolerates.cycle _), nofun⟩
  | succ depth ih =>
      apply evaluateWithin_leaves_of_pending invariant tolerates inside holds
      intro rule ruleAt pending
      rw [evaluateWithin_pending ruleAt pending]
      -- other rules are evaluated while the source of this one is open
      apply evaluateNew_leaves invariant tolerates ruleAt _ holds
      intro parent parentInside between held
      have evaluated := ih parentInside held
      exact ⟨evaluated.holds, evaluated.fails⟩

/-! ### Whole runs -/

omit invariant tolerates in
theorem checkLanguage_local (options : Options) :
    FailsWithin MappingError.IsLocal (checkLanguage options) := by
  unfold checkLanguage
  cases options.language with
  | none => exact failsWithin_ok ()
  | some tag => exact LanguageTag.check_local tag

theorem mapM_evaluate_leaves {indexes : List Nat}
    (inside : ∀ index ∈ indexes, index < run.mapping.rules.length) {opened : List Nat}
    {state : RunState σ} (holds : Holds opened state) :
    Leaves Holds admitted opened indexes.reverse
      ((indexes.mapM run.evaluate).run.run state) := by
  induction indexes generalizing opened state with
  | nil =>
      rw [List.mapM_nil]
      exact ⟨holds, failsWithin_ok [], fun _ _ => holds⟩
  | cons index rest ih =>
      have first := evaluateWithin_leaves invariant tolerates run.mapping.rules.length
        (inside index List.mem_cons_self) holds
      rw [List.mapM_cons, RunM.run_bind]
      change Leaves Holds admitted opened [index] ((run.evaluate index).run.run state) at first
      rcases ran : (run.evaluate index).run.run state with ⟨result, next⟩
      rw [ran] at first
      cases result with
      | error e => exact ⟨first.holds, failsWithin_error (first.fails e rfl), nofun⟩
      | ok output =>
          have later := ih (fun other member => inside other (List.mem_cons_of_mem _ member))
            (first.opens output rfl)
          simp only
          rw [RunM.run_bind]
          rcases ranLater : (rest.mapM run.evaluate).run.run next with ⟨results, last⟩
          rw [ranLater] at later
          have held := invariant.drop later.holds
          cases results with
          | error e => exact ⟨held, failsWithin_error (later.fails e rfl), nofun⟩
          | ok outputs =>
              refine ⟨held, failsWithin_ok _, fun _ _ => ?_⟩
              rw [List.reverse_cons, List.append_assoc]
              exact later.opens outputs rfl

theorem recordsByRule_leaves {state : RunState σ} (holds : Holds [] state) :
    Leaves Holds admitted [] (List.range run.mapping.rules.length).reverse
      (run.recordsByRule.run.run state) := by
  have evaluated := mapM_evaluate_leaves invariant tolerates
    (fun _ member => List.mem_range.mp member) holds
  unfold recordsByRule
  cases checked : checkLanguage run.options with
  | error e =>
      have fails := checkLanguage_local run.options e checked
      exact ⟨holds, failsWithin_error (tolerates.ofLocal e fails), nofun⟩
  | ok _ =>
      change Leaves Holds admitted [] _ ((run.evaluateAll >>= fun outputs =>
        return Join.resolve outputs : RunM σ _).run.run state)
      change Leaves Holds admitted [] _ (run.evaluateAll.run.run state) at evaluated
      rw [RunM.run_bind]
      rcases ran : run.evaluateAll.run.run state with ⟨result, next⟩
      rw [ran] at evaluated
      cases result with
      | error e => exact ⟨evaluated.holds, failsWithin_error (evaluated.fails e rfl), nofun⟩
      | ok outputs =>
          exact ⟨evaluated.holds, failsWithin_ok _, fun _ _ => evaluated.opens outputs rfl⟩

/-- A whole run ends in a state in which the invariant holds, with the sources of all
rules open if it succeeds, and fails with an admitted error if it fails. -/
theorem records_leaves {cache : Cache} {world : σ} (holds : Holds [] (run.start cache world)) :
    ∃ final, (run.records cache world).2 = (final.cache, final.world) ∧
      Leaves Holds admitted [] (List.range run.mapping.rules.length).reverse
        ((run.records cache world).1, final) := by
  have ended := recordsByRule_leaves invariant tolerates holds
  refine ⟨(run.recordsByRule.run.run (run.start cache world)).2, rfl, ended.holds,
    FailsWithin.map ended.fails List.flatten, ?_⟩
  intro records success
  obtain ⟨groups, given, _⟩ := map_eq_ok.mp success
  exact ended.opens groups given

end

end Run

end RdfMapping
