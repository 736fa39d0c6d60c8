import Mathlib.Data.List.Nodup
import Mathlib.Data.List.Perm.Subperm
import Mathlib.Logic.Relation
import RdfMapping.Proofs.Evaluation.Simulation
import RdfMapping.Proofs.Evaluation.Steps
import RdfMapping.Proofs.Function.Failure
/-!
The marks that an evaluation leaves on the rules. Whatever functions return, and however
an evaluation ends, exactly the rules that were open before are open after it, and no
output is forgotten (`Keeps`). Since every open evaluation is of a rule of its own, no
evaluation is ever asked for beyond the number of rules (`evaluateBeyond_keeps`).

The rules that are open always lead to the one that is asked for: this is why a rule
that is found in progress lies on a cycle.
-/

namespace RdfMapping

namespace Run

variable {σ : Type} (run : Run σ)

structure Marked (openRules : List Nat) (state : RunState σ) : Prop where
  size : state.rules.size = run.mapping.rules.length
  distinct : openRules.Nodup
  inProgress : ∀ index, state.rules[index]? = some .inProgress ↔ index ∈ openRules

theorem start_marked (cache : Cache) (world : σ) : run.Marked [] (run.start cache world) where
  size := Array.size_replicate
  distinct := List.nodup_nil
  inProgress := by
    intro index
    change (Array.replicate run.mapping.rules.length RuleState.pending)[index]? = _ ↔ _
    rw [Array.getElem?_replicate]
    split <;> simp

section

variable {run} {openRules : List Nat} {state : RunState σ} {index : Nat}

theorem Marked.of_rules (marked : run.Marked openRules state) {next : RunState σ}
    (same : next.rules = state.rules) : run.Marked openRules next := by
  refine ⟨?_, marked.distinct, ?_⟩
  · rw [same, marked.size]
  · rw [same]
    exact marked.inProgress

theorem Marked.bound (marked : run.Marked openRules state) (member : index ∈ openRules) :
    index < state.rules.size :=
  (Array.getElem?_eq_some_iff.mp ((marked.inProgress index).mpr member)).1

theorem Marked.closed (marked : run.Marked openRules state)
    (pending : state.rules[index]? = some .pending) : index ∉ openRules := by
  intro member
  have inProgress := (marked.inProgress index).mpr member
  rw [pending] at inProgress
  cases inProgress

theorem Marked.length_lt (marked : run.Marked openRules state)
    (pending : state.rules[index]? = some .pending) :
    openRules.length < run.mapping.rules.length := by
  have distinct : (index :: openRules).Nodup :=
    List.nodup_cons.mpr ⟨marked.closed pending, marked.distinct⟩
  have inside : index :: openRules ⊆ List.range run.mapping.rules.length := by
    intro other member
    rw [List.mem_range, ← marked.size]
    rcases List.mem_cons.mp member with rfl | member
    · exact (Array.getElem?_eq_some_iff.mp pending).1
    · exact marked.bound member
  have bound := (List.subperm_of_subset distinct inside).length_le
  rw [List.length_cons, List.length_range] at bound
  exact bound

theorem Marked.enter (marked : run.Marked openRules state)
    (pending : state.rules[index]? = some .pending) :
    run.Marked (index :: openRules) (state.mark index .inProgress) := by
  have inside := (Array.getElem?_eq_some_iff.mp pending).1
  refine ⟨(Array.size_setIfInBounds ..).trans marked.size,
    List.nodup_cons.mpr ⟨marked.closed pending, marked.distinct⟩, ?_⟩
  intro other
  rw [RunState.rules_mark inside]
  by_cases same : other = index
  · simp [same]
  · rw [if_neg same, marked.inProgress other]
    simp [same]

theorem Marked.leave (marked : run.Marked (index :: openRules) state) {ruleState : RuleState}
    (ended : ruleState ≠ .inProgress) : run.Marked openRules (state.mark index ruleState) := by
  have distinct := List.nodup_cons.mp marked.distinct
  refine ⟨(Array.size_setIfInBounds ..).trans marked.size, distinct.2, ?_⟩
  intro other
  rw [RunState.rules_mark (marked.bound List.mem_cons_self)]
  by_cases same : other = index
  · subst same
    rw [if_pos rfl]
    constructor
    · intro found
      exact False.elim (ended (Option.some.inj found))
    · intro member
      exact False.elim (distinct.1 member)
  · rw [if_neg same, marked.inProgress other]
    simp [same]

end

/-! ### The recursion between rules -/

/-- The records of the rule at a position, at most `depth` evaluations being open at once:
instead of one more, `beyond` is run. -/
def evaluateBeyond (beyond : Nat → Rule → RunM σ RuleOutput) : (depth : Nat) → (index : Nat) →
    RunM σ RuleOutput
  | 0 => run.consult beyond
  | depth + 1 => run.consult (run.evaluateNew (evaluateBeyond beyond depth))

theorem evaluateWithin_eq_evaluateBeyond (depth : Nat) :
    run.evaluateWithin depth =
      run.evaluateBeyond (fun _ rule => throw (.cyclicDependency rule.iri)) depth := by
  induction depth with
  | zero => exact run.evaluateWithin_zero
  | succ depth ih => rw [evaluateWithin_succ, evaluateBeyond, ih]

/-! ### What an evaluation keeps -/

/-- What a step of a run leaves: the rules that are open stay the same, no output is
forgotten, and an error is an admitted one. -/
structure Keeps {α : Type} (openRules : List Nat) (admitted : MappingError → Prop)
    (state : RunState σ) (step : Outcome α × RunState σ) : Prop where
  marked : run.Marked openRules step.2
  kept : ∀ index output, state.output? index = some output → step.2.output? index = some output
  fails : step.1.FailsWithin admitted

/-- Steps that do the same in every state with the given rules open. -/
def keeping (openRules : List Nat) (admitted : MappingError → Prop) :
    Simulation (RunM σ) (RunM σ) where
  Rel x y := ∀ state, run.Marked openRules state →
    x.run.run state = y.run.run state ∧ run.Keeps openRules admitted state (x.run.run state)
  pure := by
    intro α a state marked
    exact ⟨rfl, marked, fun _ _ known => known, Outcome.failsWithin_ok a⟩
  bind := by
    intro α β x y f g first next state marked
    obtain ⟨same, begun⟩ := first state marked
    rw [RunM.run_bind, RunM.run_bind, ← same]
    rcases ran : x.run.run state with ⟨result, between⟩
    rw [ran] at begun
    cases result with
    | error e =>
        exact ⟨rfl, begun.marked, begun.kept, Outcome.failsWithin_error (begun.fails e rfl)⟩
    | ok a =>
        obtain ⟨sameNext, ended⟩ := next a between begun.marked
        refine ⟨sameNext, ended.marked, ?_, ended.fails⟩
        intro index output known
        exact ended.kept index output (begun.kept index output known)

/-- Errors among which are those of the run's own steps, and a cycle for each rule on one
to which the evaluation of a rule may lead. -/
structure Admits (start : Nat) (admitted : MappingError → Prop) : Prop where
  cycle : ∀ index rule, run.mapping.rules[index]? = some rule →
    Relation.ReflTransGen run.mapping.DependsOn start index →
    Relation.TransGen run.mapping.DependsOn index index → admitted (.cyclicDependency rule.iri)
  other : ∀ e, (∀ iri, e ≠ .cyclicDependency iri) → admitted e
  functions : run.registry.FailsWithin admitted

theorem admits_any (start : Nat) : run.Admits start fun _ => True where
  cycle := fun _ _ _ _ _ => trivial
  other := fun _ _ => trivial
  functions := fun _ _ _ _ _ _ _ => trivial

/-- The rule that is asked for is reached from the first one, and from every open one by
at least one step. -/
structure Reached (start : Nat) (openRules : List Nat) (index : Nat) : Prop where
  fromStart : Relation.ReflTransGen run.mapping.DependsOn start index
  fromOpen : ∀ other ∈ openRules, Relation.TransGen run.mapping.DependsOn other index

section

variable {run} {start : Nat} {openRules : List Nat} {admitted : MappingError → Prop} {index : Nat}

theorem Reached.next (reached : run.Reached start openRules index) {parent : Nat}
    (depends : run.mapping.DependsOn index parent) :
    run.Reached start (index :: openRules) parent where
  fromStart := reached.fromStart.tail depends
  fromOpen := by
    intro other member
    rcases List.mem_cons.mp member with rfl | member
    · exact .single depends
    · exact (reached.fromOpen other member).tail depends

theorem Admits.ofLocal (admits : run.Admits start admitted) {e : MappingError}
    (isLocal : e.IsLocal) : admitted e := by
  apply admits.other
  rintro iri rfl
  exact isLocal

theorem Admits.ofSource (admits : run.Admits start admitted) {e : MappingError}
    (isSource : e.IsSource) : admitted e := by
  apply admits.other
  rintro iri rfl
  exact isSource

end

section

variable {start : Nat} {openRules : List Nat} {admitted : MappingError → Prop}

theorem lift_keeps {α : Type} {outcome : Outcome α} (fails : outcome.FailsWithin admitted) :
    (run.keeping openRules admitted).Rel (ExceptT.mk (pure outcome))
      (ExceptT.mk (pure outcome)) :=
  fun _ marked => ⟨rfl, marked, fun _ _ known => known, fails⟩

theorem rowsOf_keeps (admits : run.Admits start admitted) (index : Nat) (rule : Rule) :
    (run.keeping openRules admitted).Rel (run.rowsOf index rule) (run.rowsOf index rule) := by
  intro state marked
  have rules := run.rules_rowsOf index rule state
  refine ⟨rfl, marked.of_rules rules, ?_,
    (run.rowsOf_source index rule state).mono fun _ => admits.ofSource⟩
  intro other output known
  unfold RunState.output? at known ⊢
  rw [rules]
  exact known

theorem parentRecords_keeps (admits : run.Admits start admitted)
    {first second : Nat → RunM σ RuleOutput} (scope : RowScope) {reference : ParentReference}
    (outputs : ∀ parent, run.mapping.indexOf? reference.parent = some parent →
      (run.keeping openRules admitted).Rel (first parent) (second parent)) :
    (run.keeping openRules admitted).Rel (parentRecords (run.host first) scope reference)
      (parentRecords (run.host second) scope reference) := by
  unfold parentRecords
  change (run.keeping openRules admitted).Rel
    (ExceptT.mk (pure (run.mapping.requireIndex reference.parent)) >>= _)
    (ExceptT.mk (pure (run.mapping.requireIndex reference.parent)) >>= _)
  cases found : run.mapping.indexOf? reference.parent with
  | none =>
      have unknown : run.mapping.requireIndex reference.parent =
          .error (.unknownRule reference.parent) := by
        unfold Mapping.requireIndex
        rw [found]
      rw [unknown]
      intro state marked
      exact ⟨rfl, marked, fun _ _ known => known,
        Outcome.failsWithin_error (admits.other _ fun _ => nofun)⟩
  | some parent =>
      rw [Mapping.requireIndex_eq_ok_iff.mpr found]
      apply (run.keeping openRules admitted).bind (outputs parent found)
      intro output
      apply (run.keeping openRules admitted).bind (run.lift_keeps
        ((scope.pendingConditions_local reference.conditions).mono fun _ => admits.ofLocal))
      intro conditions
      exact (run.keeping openRules admitted).pure _

theorem host_keeps (admits : run.Admits start admitted) {first second : Nat → RunM σ RuleOutput}
    {rule : Rule}
    (outputs : ∀ reference, rule.Needs reference → ∀ parent,
      run.mapping.indexOf? reference.parent = some parent →
      (run.keeping openRules admitted).Rel (first parent) (second parent)) :
    (run.host first).LinkedFor (run.keeping openRules admitted) admitted rule
      (run.host second) where
  admits := fun _ => admits.ofLocal
  lift := fun _ fails => run.lift_keeps fails
  function := by
    intro iri
    change Option.Rel _ ((run.registry.find? iri).map _) ((run.registry.find? iri).map _)
    cases found : run.registry.find? iri with
    | none => exact .none
    | some function =>
        apply Option.Rel.some
        intro arguments state marked
        exact ⟨rfl, marked.of_rules rfl, fun _ _ known => known,
          admits.functions iri function found arguments state.world⟩
  records := fun scope reference needs =>
    run.parentRecords_keeps admits scope (outputs reference needs)
  position := rfl
  joins := by
    intro reference _ e failed
    apply admits.other
    rintro iri rfl
    change run.mapping.requireIndex reference.parent = _ at failed
    unfold Mapping.requireIndex at failed
    split at failed <;> cases failed
  subject := fun _ _ => admits.other _ fun _ => nofun

theorem outputOpened_keeps (admits : run.Admits start admitted)
    {first second : Nat → RunM σ RuleOutput} {index : Nat} {rule : Rule}
    (outputs : ∀ reference, rule.Needs reference → ∀ parent,
      run.mapping.indexOf? reference.parent = some parent →
      (run.keeping openRules admitted).Rel (first parent) (second parent)) :
    (run.keeping openRules admitted).Rel (run.outputOpened first index rule)
      (run.outputOpened second index rule) := by
  apply (run.keeping openRules admitted).bind (run.rowsOf_keeps admits index rule)
  intro rows
  exact evaluateRule_linked (run.host_keeps admits outputs) run.options rows _

theorem evaluateNew_keeps {first second : Nat → RunM σ RuleOutput} {index : Nat} {rule : Rule}
    {state : RunState σ} (marked : run.Marked openRules state)
    (pending : state.rules[index]? = some .pending)
    (opened : (run.keeping (index :: openRules) admitted).Rel
      (run.outputOpened first index rule) (run.outputOpened second index rule)) :
    (run.evaluateNew first index rule).run.run state =
        (run.evaluateNew second index rule).run.run state ∧
      run.Keeps openRules admitted state ((run.evaluateNew first index rule).run.run state) := by
  have inside := (Array.getElem?_eq_some_iff.mp pending).1
  obtain ⟨same, begun⟩ := opened _ (marked.enter pending)
  rw [run_evaluateNew, run_evaluateNew, ← same]
  rcases ran : (run.outputOpened first index rule).run.run (state.mark index .inProgress) with
    ⟨result, next⟩
  rw [ran] at begun
  have nextInside := begun.marked.bound List.mem_cons_self
  -- a rule that is remembered is another one than the pending rule
  have kept (ruleState : RuleState) (other : Nat) (output : RuleOutput)
      (known : state.output? other = some output) :
      (next.mark index ruleState).output? other = some output := by
    have different : other ≠ index := by
      rintro rfl
      rw [RunState.output?_of_rules pending] at known
      cases known
    rw [RunState.output?_mark nextInside, if_neg different]
    apply begun.kept
    rw [RunState.output?_mark inside, if_neg different]
    exact known
  cases result with
  | error e =>
      exact ⟨rfl, begun.marked.leave (by simp), kept .pending,
        Outcome.failsWithin_error (begun.fails e rfl)⟩
  | ok output =>
      exact ⟨rfl, begun.marked.leave (by simp), kept (.done output),
        Outcome.failsWithin_ok output⟩

theorem consult_keeps (admits : run.Admits start admitted) {index : Nat}
    (reached : run.Reached start openRules index) {first second : Nat → Rule → RunM σ RuleOutput}
    {state : RunState σ} (marked : run.Marked openRules state)
    (entered : ∀ rule, run.mapping.rules[index]? = some rule →
      state.rules[index]? = some .pending →
      (first index rule).run.run state = (second index rule).run.run state ∧
        run.Keeps openRules admitted state ((first index rule).run.run state)) :
    (run.consult first index).run.run state = (run.consult second index).run.run state ∧
      run.Keeps openRules admitted state ((run.consult first index).run.run state) := by
  cases ruleAt : run.mapping.rules[index]? with
  | none =>
      rw [consult_outside ruleAt, consult_outside ruleAt]
      exact ⟨rfl, marked, fun _ _ known => known,
        Outcome.failsWithin_error (admits.other _ fun _ => nofun)⟩
  | some rule =>
      have inside : index < state.rules.size := by
        rw [marked.size]
        exact (List.getElem?_eq_some_iff.mp ruleAt).1
      have found := Array.getElem?_eq_getElem inside
      cases given : state.rules[index] with
      | pending =>
          rw [given] at found
          rw [consult_pending ruleAt found, consult_pending ruleAt found]
          exact entered rule ruleAt found
      | inProgress =>
          rw [given] at found
          rw [consult_inProgress ruleAt found, consult_inProgress ruleAt found]
          have onCycle := reached.fromOpen index ((marked.inProgress index).mp found)
          exact ⟨rfl, marked, fun _ _ known => known,
            Outcome.failsWithin_error (admits.cycle index rule ruleAt reached.fromStart onCycle)⟩
      | done output =>
          rw [given] at found
          rw [consult_done ruleAt found, consult_done ruleAt found]
          exact ⟨rfl, marked, fun _ _ known => known, Outcome.failsWithin_ok output⟩

theorem evaluateBeyond_keeps (admits : run.Admits start admitted)
    {first second : Nat → Rule → RunM σ RuleOutput} {depth other : Nat}
    (room : run.mapping.rules.length ≤ depth + openRules.length)
    (otherRoom : run.mapping.rules.length ≤ other + openRules.length) {index : Nat}
    (reached : run.Reached start openRules index) :
    (run.keeping openRules admitted).Rel (run.evaluateBeyond first depth index)
      (run.evaluateBeyond second other index) := by
  induction depth generalizing openRules other index with
  | zero =>
      intro state marked
      have full (pending : state.rules[index]? = some .pending) : False := by
        have bound := marked.length_lt pending
        omega
      cases other with
      | zero => exact run.consult_keeps admits reached marked fun _ _ pending => (full pending).elim
      | succ other =>
          exact run.consult_keeps admits reached marked fun _ _ pending => (full pending).elim
  | succ depth ih =>
      intro state marked
      cases other with
      | zero =>
          apply run.consult_keeps admits reached marked
          intro rule _ pending
          have bound := marked.length_lt pending
          omega
      | succ other =>
          apply run.consult_keeps admits reached marked
          intro rule ruleAt pending
          apply run.evaluateNew_keeps marked pending
          apply run.outputOpened_keeps admits
          intro reference needs parent found
          apply ih
          · rw [List.length_cons]
            omega
          · rw [List.length_cons]
            omega
          · exact reached.next ⟨rule, ruleAt, reference, needs, found⟩

end

section

variable {run} {start : Nat} {admitted : MappingError → Prop}

/-- Nothing is run beyond the number of rules, however far the recursion could go. -/
theorem evaluateBeyond_keeps_evaluate (admits : run.Admits start admitted)
    (beyond : Nat → Rule → RunM σ RuleOutput) {depth : Nat}
    (room : run.mapping.rules.length ≤ depth) :
    (run.keeping [] admitted).Rel (run.evaluateBeyond beyond depth start)
      (run.evaluate start) := by
  unfold evaluate
  rw [evaluateWithin_eq_evaluateBeyond]
  exact run.evaluateBeyond_keeps admits room (Nat.le_refl _) ⟨.refl, nofun⟩

theorem evaluate_keeps (admits : run.Admits start admitted) {state : RunState σ}
    (marked : run.Marked [] state) :
    run.Keeps [] admitted state ((run.evaluate start).run.run state) := by
  obtain ⟨same, keeps⟩ := evaluateBeyond_keeps_evaluate admits
    (fun _ rule => throw (.cyclicDependency rule.iri)) (Nat.le_refl _) state marked
  rw [same] at keeps
  exact keeps

end

end Run

end RdfMapping
