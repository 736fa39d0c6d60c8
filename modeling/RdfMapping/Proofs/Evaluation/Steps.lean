import RdfMapping.Evaluation.Run
import RdfMapping.Proofs.Evaluation.Failure
/-!
What each step of a run does to what the run remembers: one equation for every way in
which an evaluation can begin.
-/

namespace RdfMapping

variable {σ : Type}

namespace RunM

variable {α β : Type}

theorem run_bind (x : RunM σ α) (f : α → RunM σ β) (state : RunState σ) :
    (x >>= f).run.run state =
      match x.run.run state with
      | (.ok a, next) => (f a).run.run next
      | (.error e, next) => (.error e, next) := by
  change (match x.run.run state with
    | (result, next) => (ExceptT.bindCont f result).run next) = _
  rcases x.run.run state with ⟨result, next⟩
  cases result with
  | ok a => rfl
  | error e => rfl

theorem run_get (state : RunState σ) :
    (get : RunM σ (RunState σ)).run.run state = (.ok state, state) := rfl

theorem run_tryCatch (x : RunM σ α) (handle : MappingError → RunM σ α) (state : RunState σ) :
    (tryCatch x handle).run.run state =
      match x.run.run state with
      | (.ok a, next) => (.ok a, next)
      | (.error e, next) => (handle e).run.run next := by
  change (ExceptT.tryCatch x handle).run.run state = _
  simp only [ExceptT.tryCatch, ExceptT.run, ExceptT.mk, StateT.run, bind, StateT.bind]
  rcases x state with ⟨result, next⟩
  cases result with
  | ok a => rfl
  | error e => rfl

end RunM

/-! ### Remembered outputs -/

def RuleState.output? : RuleState → Option RuleOutput
  | .done output => some output
  | _ => none

namespace RunState

variable {state : RunState σ} {index other : Nat}

def output? (state : RunState σ) (index : Nat) : Option RuleOutput :=
  state.rules[index]?.bind RuleState.output?

def mark (state : RunState σ) (index : Nat) (ruleState : RuleState) : RunState σ :=
  { state with rules := state.rules.setIfInBounds index ruleState }

theorem rules_mark {ruleState : RuleState} (inside : index < state.rules.size) :
    (state.mark index ruleState).rules[other]? =
      if other = index then some ruleState else state.rules[other]? := by
  unfold mark
  rw [Array.getElem?_setIfInBounds]
  by_cases same : index = other
  · subst same
    simp only [if_true, if_pos inside]
  · simp only [if_neg same, if_neg (Ne.symm same)]

theorem output?_mark {ruleState : RuleState} (inside : index < state.rules.size) :
    (state.mark index ruleState).output? other =
      if other = index then ruleState.output? else state.output? other := by
  unfold output?
  rw [rules_mark inside]
  by_cases same : other = index
  · rw [if_pos same, if_pos same]
    rfl
  · rw [if_neg same, if_neg same]

theorem output?_of_rules {ruleState : RuleState} (found : state.rules[index]? = some ruleState) :
    state.output? index = ruleState.output? := by
  unfold output?
  rw [found]
  rfl

theorem rules_of_output? {output : RuleOutput} (known : state.output? index = some output) :
    state.rules[index]? = some (.done output) := by
  obtain ⟨ruleState, found, given⟩ := Option.bind_eq_some_iff.mp known
  cases ruleState with
  | pending => cases given
  | inProgress => cases given
  | done output =>
      cases given
      exact found

end RunState

namespace Run

variable (run : Run σ)

theorem output?_start (cache : Cache) (world : σ) (index : Nat) :
    (run.start cache world).output? index = none := by
  change (Array.replicate run.mapping.rules.length RuleState.pending)[index]?.bind _ = none
  rw [Array.getElem?_replicate]
  split
  · rfl
  · rfl

theorem run_rowsOf_viewed {index : Nat} {rule : Rule} {state : RunState σ} {rows : Rows}
    (viewed : state.views.lookup index = some rows) :
    (run.rowsOf index rule).run.run state = (.ok rows, state) := by
  unfold rowsOf
  rw [RunM.run_bind, RunM.run_get]
  simp only [viewed]
  rfl

theorem run_rowsOf_unviewed {index : Nat} {rule : Rule} {state : RunState σ}
    (unviewed : state.views.lookup index = none) :
    (run.rowsOf index rule).run.run state =
      match state.cache.openRows rule.source (Table.get? rule.source.id run.sources)
        run.options with
      | (.ok rows, cache) =>
          (.ok rows, { state with cache, views := (index, rows) :: state.views })
      | (.error e, cache) => (.error e, { state with cache }) := by
  unfold rowsOf
  rw [RunM.run_bind, RunM.run_get]
  simp only [unviewed]
  rcases state.cache.openRows rule.source (Table.get? rule.source.id run.sources) run.options with
    ⟨opened, cache⟩
  cases opened with
  | ok rows => rfl
  | error e => rfl

theorem rules_rowsOf (index : Nat) (rule : Rule) (state : RunState σ) :
    ((run.rowsOf index rule).run.run state).2.rules = state.rules := by
  cases viewed : state.views.lookup index with
  | some rows => rw [run.run_rowsOf_viewed viewed]
  | none =>
      rw [run.run_rowsOf_unviewed viewed]
      rcases state.cache.openRows rule.source (Table.get? rule.source.id run.sources)
        run.options with ⟨opened, cache⟩
      cases opened with
      | ok rows => rfl
      | error e => rfl

theorem rowsOf_source (index : Nat) (rule : Rule) (state : RunState σ) :
    Outcome.FailsWithin MappingError.IsSource ((run.rowsOf index rule).run.run state).1 := by
  cases viewed : state.views.lookup index with
  | some rows =>
      rw [run.run_rowsOf_viewed viewed]
      exact Outcome.failsWithin_ok rows
  | none =>
      have fails := state.cache.openRows_source rule.source
        (Table.get? rule.source.id run.sources) run.options
      rw [run.run_rowsOf_unviewed viewed]
      rcases opening : state.cache.openRows rule.source (Table.get? rule.source.id run.sources)
        run.options with ⟨opened, cache⟩
      rw [opening] at fails
      cases opened with
      | ok rows => exact Outcome.failsWithin_ok rows
      | error e => exact Outcome.failsWithin_error (fails e rfl)

def outputOpened (output : Nat → RunM σ RuleOutput) (index : Nat) (rule : Rule) :
    RunM σ RuleOutput := do
  let rows ← run.rowsOf index rule
  evaluateRule (run.host output) run.options rows rule (run.mapping.parentPaths index)

theorem run_evaluateNew (output : Nat → RunM σ RuleOutput) (index : Nat) (rule : Rule)
    (state : RunState σ) :
    (run.evaluateNew output index rule).run.run state =
      match (run.outputOpened output index rule).run.run (state.mark index .inProgress) with
      | (.ok result, next) => (.ok result, next.mark index (.done result))
      | (.error e, next) => (.error e, next.mark index .pending) := by
  have opened : (do
      let rows ← run.rowsOf index rule
      let output ← evaluateRule (run.host output) run.options rows rule
        (run.mapping.parentPaths index)
      setRule index (.done output)
      return output : RunM σ RuleOutput) =
      run.outputOpened output index rule >>= fun result => do
        setRule index (.done result)
        return result := by
    unfold outputOpened
    rw [bind_assoc]
  unfold evaluateNew
  rw [opened, RunM.run_bind]
  change (tryCatch (_ : RunM σ RuleOutput) _).run.run (state.mark index .inProgress) = _
  rw [RunM.run_tryCatch, RunM.run_bind]
  rcases (run.outputOpened output index rule).run.run (state.mark index .inProgress) with
    ⟨result, next⟩
  cases result with
  | ok result => rfl
  | error e => rfl

/-! ### The recursion between rules -/

/-- The records of the rule at a position as they are remembered. A rule that has not
been evaluated, and is not in progress, is left to `enter`. -/
def consult (enter : Nat → Rule → RunM σ RuleOutput) (index : Nat) : RunM σ RuleOutput := do
  match run.mapping.rules[index]?, (← get).rules[index]? with
  | some _, some (.done output) => return output
  | some rule, some .inProgress => throw (.cyclicDependency rule.iri)
  | some rule, some .pending => enter index rule
  | _, _ => throw (.unknownRule ("at position " ++ toString index))

theorem evaluateWithin_zero :
    run.evaluateWithin 0 = run.consult fun _ rule => throw (.cyclicDependency rule.iri) := by
  funext index
  rw [evaluateWithin.eq_def]
  rfl

theorem evaluateWithin_succ (depth : Nat) :
    run.evaluateWithin (depth + 1) = run.consult (run.evaluateNew (run.evaluateWithin depth)) := by
  funext index
  rw [evaluateWithin.eq_def]
  rfl

theorem exists_evaluateWithin_eq_consult (depth : Nat) :
    ∃ enter, run.evaluateWithin depth = run.consult enter := by
  cases depth with
  | zero => exact ⟨_, run.evaluateWithin_zero⟩
  | succ depth => exact ⟨_, run.evaluateWithin_succ depth⟩

section

variable {run} {enter : Nat → Rule → RunM σ RuleOutput} {depth index : Nat} {rule : Rule}
  {state : RunState σ}

private theorem run_consult (enter : Nat → Rule → RunM σ RuleOutput) (index : Nat)
    (state : RunState σ) :
    (run.consult enter index).run.run state =
      (match run.mapping.rules[index]?, state.rules[index]? with
        | some _, some (.done output) => return output
        | some rule, some .inProgress => throw (.cyclicDependency rule.iri)
        | some rule, some .pending => enter index rule
        | _, _ => throw (.unknownRule ("at position " ++ toString index)) :
          RunM σ RuleOutput).run.run state := rfl

theorem consult_outside (outside : run.mapping.rules[index]? = none) :
    (run.consult enter index).run.run state =
      (.error (.unknownRule ("at position " ++ toString index)), state) := by
  rw [run_consult, outside]
  rfl

theorem consult_done (ruleAt : run.mapping.rules[index]? = some rule) {output : RuleOutput}
    (done : state.rules[index]? = some (.done output)) :
    (run.consult enter index).run.run state = (.ok output, state) := by
  rw [run_consult, ruleAt, done]
  rfl

theorem consult_inProgress (ruleAt : run.mapping.rules[index]? = some rule)
    (inProgress : state.rules[index]? = some .inProgress) :
    (run.consult enter index).run.run state = (.error (.cyclicDependency rule.iri), state) := by
  rw [run_consult, ruleAt, inProgress]
  rfl

theorem consult_pending (ruleAt : run.mapping.rules[index]? = some rule)
    (pending : state.rules[index]? = some .pending) :
    (run.consult enter index).run.run state = (enter index rule).run.run state := by
  rw [run_consult, ruleAt, pending]

theorem evaluateWithin_outside (outside : run.mapping.rules[index]? = none) :
    (run.evaluateWithin depth index).run.run state =
      (.error (.unknownRule ("at position " ++ toString index)), state) := by
  obtain ⟨enter, same⟩ := run.exists_evaluateWithin_eq_consult depth
  rw [same, consult_outside outside]

theorem evaluateWithin_done (ruleAt : run.mapping.rules[index]? = some rule) {output : RuleOutput}
    (done : state.rules[index]? = some (.done output)) :
    (run.evaluateWithin depth index).run.run state = (.ok output, state) := by
  obtain ⟨enter, same⟩ := run.exists_evaluateWithin_eq_consult depth
  rw [same, consult_done ruleAt done]

theorem evaluateWithin_inProgress (ruleAt : run.mapping.rules[index]? = some rule)
    (inProgress : state.rules[index]? = some .inProgress) :
    (run.evaluateWithin depth index).run.run state =
      (.error (.cyclicDependency rule.iri), state) := by
  obtain ⟨enter, same⟩ := run.exists_evaluateWithin_eq_consult depth
  rw [same, consult_inProgress ruleAt inProgress]

theorem evaluateWithin_exhausted (ruleAt : run.mapping.rules[index]? = some rule)
    (pending : state.rules[index]? = some .pending) :
    (run.evaluateWithin 0 index).run.run state = (.error (.cyclicDependency rule.iri), state) := by
  rw [evaluateWithin_zero, consult_pending ruleAt pending]
  rfl

theorem evaluateWithin_pending (ruleAt : run.mapping.rules[index]? = some rule)
    (pending : state.rules[index]? = some .pending) :
    (run.evaluateWithin (depth + 1) index).run.run state =
      (run.evaluateNew (run.evaluateWithin depth) index rule).run.run state := by
  rw [evaluateWithin_succ, consult_pending ruleAt pending]

end

/-! ### Whole runs -/

variable (run : Run σ)

theorem run_recordsByRule (state : RunState σ) :
    (run.recordsByRule.run.run state).1 = (do
      checkLanguage run.options
      let outputs ← (run.evaluateAll.run.run state).1
      return Join.resolve outputs) := by
  unfold recordsByRule
  cases checkLanguage run.options with
  | error e => rfl
  | ok _ =>
      change ((run.evaluateAll >>= fun outputs =>
        return Join.resolve outputs : RunM σ _).run.run state).1 = _
      rw [RunM.run_bind]
      rcases run.evaluateAll.run.run state with ⟨result, next⟩
      cases result with
      | error e => rfl
      | ok outputs => rfl

theorem records_eq (cache : Cache) (world : σ) :
    (run.records cache world).1 =
      (run.recordsByRule.run.run (run.start cache world)).1.map List.flatten := rfl

theorem records_eq_ok_iff {cache : Cache} {world : σ} {records : List Record} :
    (run.records cache world).1 = .ok records ↔
      checkLanguage run.options = .ok () ∧
        ∃ outputs, (run.evaluateAll.run.run (run.start cache world)).1 = .ok outputs ∧
          (Join.resolve outputs).flatten = records := by
  rw [records_eq, run_recordsByRule, Outcome.map_eq_ok]
  constructor
  · intro success
    obtain ⟨byRule, evaluated, same⟩ := success
    obtain ⟨_, checked, later⟩ := Outcome.bind_eq_ok.mp evaluated
    obtain ⟨outputs, given, resolved⟩ := Outcome.bind_eq_ok.mp later
    refine ⟨checked, outputs, given, ?_⟩
    rw [← same, ← Except.ok.inj resolved]
  · intro success
    obtain ⟨checked, outputs, given, same⟩ := success
    refine ⟨Join.resolve outputs, ?_, same⟩
    rw [checked, given]
    rfl

end Run

end RdfMapping
