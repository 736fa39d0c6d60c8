import Mathlib.Data.List.Nodup
import Mathlib.Data.List.Perm.Subperm
import RdfMapping.Proofs.Evaluation.History
import RdfMapping.Proofs.Evaluation.Marks
import RdfMapping.Proofs.Evaluation.Plain
import RdfMapping.Proofs.Function.Stateless
/-!
The memory of a run against the plain recursion. A state is consistent with a list of
open rules if exactly these are in progress, and if everything it remembers is what the
plain recursion would find again. Every evaluation keeps the state consistent and
answers as the plain recursion does (`evaluateWithin_follows`); hence what was asked
before makes no difference.
-/

namespace RdfMapping

namespace Run

variable {σ : Type} (run : Run σ) (cache : Cache) (world : σ)

structure Consistent (openRules : List Nat) (state : RunState σ) : Prop where
  size : state.rules.size = run.mapping.rules.length
  distinct : openRules.Nodup
  inProgress : ∀ index, state.rules[index]? = some .inProgress ↔ index ∈ openRules
  remembers : ∃ finished, run.Completed cache world finished ∧
    ∀ index, state.output? index = finished.lookup index
  opens : run.OpensFrom cache state

theorem start_consistent (first : σ) :
    run.Consistent cache world [] (run.start cache first) := by
  have marked := run.start_marked cache first
  exact ⟨marked.size, marked.distinct, marked.inProgress,
    ⟨[], .nil, run.output?_start cache first⟩, run.start_opensFrom cache first⟩

variable {run cache world} in
/-- The functions' state has no part in what is consistent. -/
theorem Consistent.withWorld {openRules : List Nat} {state : RunState σ}
    (consistent : run.Consistent cache world openRules state) (next : σ) :
    run.Consistent cache world openRules { state with world := next } :=
  ⟨consistent.size, consistent.distinct, consistent.inProgress, consistent.remembers,
    consistent.opens.views, consistent.opens.cache⟩

section

variable {run cache world} {openRules : List Nat} {state : RunState σ} {index : Nat}

theorem Consistent.marked (consistent : run.Consistent cache world openRules state) :
    run.Marked openRules state :=
  ⟨consistent.size, consistent.distinct, consistent.inProgress⟩

theorem Consistent.not_open (consistent : run.Consistent cache world openRules state)
    {output : RuleOutput} (known : state.output? index = some output) : index ∉ openRules := by
  intro member
  have inProgress := (consistent.inProgress index).mpr member
  rw [RunState.rules_of_output? known] at inProgress
  cases inProgress

theorem Consistent.length_le (consistent : run.Consistent cache world openRules state)
    {finished : List (Nat × RuleOutput)} (completed : run.Completed cache world finished)
    (same : ∀ index, state.output? index = finished.lookup index) :
    finished.length + openRules.length ≤ run.mapping.rules.length := by
  have apart : ∀ index ∈ finished.map Prod.fst, index ∉ openRules := by
    intro index member
    obtain ⟨entry, entryMember, rfl⟩ := List.mem_map.mp member
    cases known : finished.lookup entry.1 with
    | none =>
        have different := List.lookup_eq_none_iff.mp known entry entryMember
        simp at different
    | some output => exact consistent.not_open ((same entry.1).trans known)
  have distinct : (finished.map Prod.fst ++ openRules).Nodup :=
    List.Nodup.append completed.positions.1 consistent.distinct apart
  have inside : finished.map Prod.fst ++ openRules ⊆ List.range run.mapping.rules.length := by
    intro index member
    rw [List.mem_range]
    rcases List.mem_append.mp member with member | member
    · exact completed.positions.2 index member
    · rw [← consistent.size]
      exact consistent.marked.bound member
  have bound := (List.subperm_of_subset distinct inside).length_le
  rw [List.length_append, List.length_map, List.length_range] at bound
  exact bound

theorem Consistent.enter (consistent : run.Consistent cache world openRules state)
    (pending : state.rules[index]? = some .pending) :
    run.Consistent cache world (index :: openRules) (state.mark index .inProgress) := by
  have inside := (Array.getElem?_eq_some_iff.mp pending).1
  have entered := consistent.marked.enter pending
  refine ⟨entered.size, entered.distinct, entered.inProgress, ?_, consistent.opens.views,
    consistent.opens.cache⟩
  obtain ⟨finished, completed, known⟩ := consistent.remembers
  refine ⟨finished, completed, ?_⟩
  intro other
  rw [RunState.output?_mark inside]
  by_cases same : other = index
  · subst same
    rw [if_pos rfl, ← known other, RunState.output?_of_rules pending]
    rfl
  · rw [if_neg same, known other]

/-- What a rule is marked with at its end decides whether it joins the completed ones. -/
theorem Consistent.leave (consistent : run.Consistent cache world (index :: openRules) state)
    {ruleState : RuleState} (ended : ruleState ≠ .inProgress)
    (remembers : ∃ finished, run.Completed cache world finished ∧
      ∀ other, (state.mark index ruleState).output? other = finished.lookup other) :
    run.Consistent cache world openRules (state.mark index ruleState) := by
  have left := consistent.marked.leave ended
  exact ⟨left.size, left.distinct, left.inProgress, remembers, consistent.opens.views,
    consistent.opens.cache⟩

theorem Consistent.missing (consistent : run.Consistent cache world (index :: openRules) state)
    {finished : List (Nat × RuleOutput)}
    (same : ∀ other, state.output? other = finished.lookup other) :
    finished.lookup index = none := by
  rw [← same index, Option.eq_none_iff_forall_ne_some]
  intro output known
  exact consistent.not_open known List.mem_cons_self

theorem Consistent.fail (consistent : run.Consistent cache world (index :: openRules) state) :
    run.Consistent cache world openRules (state.mark index .pending) := by
  obtain ⟨finished, completed, known⟩ := consistent.remembers
  refine consistent.leave (by simp) ⟨finished, completed, ?_⟩
  intro other
  rw [RunState.output?_mark (consistent.marked.bound List.mem_cons_self)]
  by_cases same : other = index
  · rw [if_pos same, same, consistent.missing known]
    rfl
  · rw [if_neg same, known other]

theorem Consistent.complete (consistent : run.Consistent cache world (index :: openRules) state)
    {rule : Rule} (ruleAt : run.mapping.rules[index]? = some rule) {output : RuleOutput}
    (justified : ∀ known : Nat → Outcome RuleOutput,
      (∀ other result, state.output? other = some result → known other = .ok result) →
      run.outputGiven cache world index rule known = .ok output) :
    run.Consistent cache world openRules (state.mark index (.done output)) := by
  obtain ⟨finished, completed, known⟩ := consistent.remembers
  have fromFinished : run.outputGiven cache world index rule (recorded finished) = .ok output := by
    apply justified
    intro other result remembered
    exact recorded_eq_ok.mpr ((known other).symm.trans remembered)
  refine consistent.leave (by simp) ⟨(index, output) :: finished,
    .cons completed (consistent.missing known) ruleAt fromFinished, ?_⟩
  intro other
  rw [RunState.output?_mark (consistent.marked.bound List.mem_cons_self), List.lookup_cons]
  by_cases same : other = index
  · subst same
    simp [RuleState.output?]
  · rw [if_neg same, beq_false_of_ne same, known other]

end

/-! ### The simulation -/

/-- What an evaluation does that starts in `state`, measured by a computation that asks
for the outputs of other rules. A success needs nothing beyond the outputs that are
remembered at its end. -/
structure Follows {α : Type} (depth : Nat) (openRules : List Nat) (state : RunState σ)
    (step : Outcome α × RunState σ) (asking : Asking α) : Prop where
  result : step.1 = asking (run.plain cache world depth openRules)
  consistent : run.Consistent cache world openRules step.2
  kept : ∀ index output, state.output? index = some output → step.2.output? index = some output
  justified : ∀ a, step.1 = .ok a → ∀ known : Nat → Outcome RuleOutput,
    (∀ index output, step.2.output? index = some output → known index = .ok output) →
    asking known = .ok a

def memo (depth : Nat) (openRules : List Nat) : Simulation (RunM σ) Asking where
  Rel x y := ∀ state, run.Consistent cache world openRules state →
    run.Follows cache world depth openRules state (x.run.run state) y
  pure := by
    intro α a state consistent
    exact ⟨rfl, consistent, fun _ _ known => known, fun _ success _ _ => success⟩
  bind := by
    intro α β x y f g first next state consistent
    have begun := first state consistent
    rw [RunM.run_bind]
    rcases ran : x.run.run state with ⟨result, between⟩
    rw [ran] at begun
    cases result with
    | error e =>
        refine ⟨?_, begun.consistent, begun.kept, ?_⟩
        · change _ = (y _ >>= fun a => g a _)
          rw [← begun.result]
          rfl
        · intro b success
          cases success
    | ok a =>
        have ended := next a between begun.consistent
        refine ⟨?_, ended.consistent, ?_, ?_⟩
        · change _ = (y _ >>= fun a => g a _)
          rw [← begun.result, ended.result]
          rfl
        · intro index output known
          exact ended.kept index output (begun.kept index output known)
        · intro b success known answers
          change (y known >>= fun a => g a known) = .ok b
          have answered := begun.justified a rfl known fun index output remembered =>
            answers index output (ended.kept index output remembered)
          rw [answered]
          exact ended.justified b success known answers

section

variable (depth : Nat) (openRules : List Nat)

theorem lift_follows {α : Type} (outcome : Outcome α) :
    (run.memo cache world depth openRules).Rel (ExceptT.mk (pure outcome)) (fun _ => outcome) := by
  intro state consistent
  exact ⟨rfl, consistent, fun _ _ known => known, fun _ success _ _ => success⟩

theorem call_follows (stateless : run.registry.Stateless) {iri : String} {function : Callable σ}
    (found : run.registry.find? iri = some function) (arguments : Arguments) :
    (run.memo cache world depth openRules).Rel (call function arguments)
      (fun _ => (function arguments world).1) := by
  intro state consistent
  have same := stateless iri function found arguments state.world world
  refine ⟨same, consistent.withWorld _, fun _ _ known => known, ?_⟩
  intro a success known answers
  exact same.symm.trans success

theorem rowsOf_follows {index : Nat} {rule : Rule}
    (ruleAt : run.mapping.rules[index]? = some rule) :
    (run.memo cache world depth openRules).Rel (run.rowsOf index rule)
      (fun _ => run.rowsFrom cache rule) := by
  intro state consistent
  obtain ⟨same, unchanged, opens⟩ := consistent.opens.rowsOf ruleAt
  have sameOutput (other : Nat) :
      ((run.rowsOf index rule).run.run state).2.output? other = state.output? other := by
    unfold RunState.output?
    rw [unchanged]
  obtain ⟨finished, completed, known⟩ := consistent.remembers
  refine ⟨same, ⟨?_, consistent.distinct, ?_, ⟨finished, completed, ?_⟩, opens⟩, ?_, ?_⟩
  · rw [unchanged]
    exact consistent.size
  · rw [unchanged]
    exact consistent.inProgress
  · intro other
    rw [sameOutput, known other]
  · intro other output remembered
    rw [sameOutput]
    exact remembered
  · intro rows success _ _
    exact same.symm.trans success

theorem host_related (stateless : run.registry.Stateless) {output : Nat → RunM σ RuleOutput}
    (follows : ∀ index, (run.memo cache world depth openRules).Rel (output index)
      (fun known => known index)) :
    (run.host output).Related (run.memo cache world depth openRules) (run.askingHost world) where
  lift := fun outcome => run.lift_follows cache world depth openRules outcome
  function := by
    intro iri
    change Option.Rel _ ((run.registry.find? iri).map _) ((run.registry.find? iri).map _)
    cases found : run.registry.find? iri with
    | none => exact .none
    | some function =>
        exact .some (run.call_follows cache world depth openRules stateless found)
  position := rfl
  output := follows

theorem outputOpened_follows (stateless : run.registry.Stateless)
    {output : Nat → RunM σ RuleOutput}
    (follows : ∀ index, (run.memo cache world depth openRules).Rel (output index)
      (fun known => known index))
    {index : Nat} {rule : Rule} (ruleAt : run.mapping.rules[index]? = some rule) :
    (run.memo cache world depth openRules).Rel (run.outputOpened output index rule)
      (run.outputGiven cache world index rule) := by
  apply (run.memo cache world depth openRules).bind
  · exact run.rowsOf_follows cache world depth openRules ruleAt
  · intro rows
    exact evaluateRule_related (run.host_related cache world depth openRules stateless follows) _
      rows rule _

end

theorem evaluateNew_follows {depth : Nat} {openRules : List Nat}
    {output : Nat → RunM σ RuleOutput} {index : Nat} {rule : Rule} {state : RunState σ}
    (opened : (run.memo cache world depth (index :: openRules)).Rel
      (run.outputOpened output index rule) (run.outputGiven cache world index rule))
    (ruleAt : run.mapping.rules[index]? = some rule)
    (pending : state.rules[index]? = some .pending)
    (consistent : run.Consistent cache world openRules state) :
    run.Follows cache world (depth + 1) openRules state
      ((run.evaluateNew output index rule).run.run state) (fun known => known index) := by
  have inside := (Array.getElem?_eq_some_iff.mp pending).1
  have plainly : run.plain cache world (depth + 1) openRules index =
      run.outputGiven cache world index rule
        (run.plain cache world depth (index :: openRules)) := by
    unfold plain
    simp only [ruleAt, if_neg (consistent.marked.closed pending)]
  have begun := opened (state.mark index .inProgress) (consistent.enter pending)
  rw [run_evaluateNew]
  rcases ran : (run.outputOpened output index rule).run.run (state.mark index .inProgress) with
    ⟨result, next⟩
  rw [ran] at begun
  have nextInside := begun.consistent.marked.bound List.mem_cons_self
  -- what was remembered before is remembered of another rule than this one
  have kept (ruleState : RuleState) (other : Nat) (known : RuleOutput)
      (remembered : state.output? other = some known) :
      (next.mark index ruleState).output? other = some known := by
    have different : other ≠ index := by
      rintro rfl
      rw [RunState.output?_of_rules pending] at remembered
      cases remembered
    rw [RunState.output?_mark nextInside, if_neg different]
    apply begun.kept
    rw [RunState.output?_mark inside, if_neg different]
    exact remembered
  cases result with
  | error e =>
      refine ⟨begun.result.trans plainly.symm, begun.consistent.fail, kept .pending, ?_⟩
      intro output success
      cases success
  | ok output =>
      refine ⟨begun.result.trans plainly.symm,
        begun.consistent.complete ruleAt (begun.justified output rfl), kept (.done output), ?_⟩
      intro found success further answers
      cases success
      apply answers
      rw [RunState.output?_mark nextInside, if_pos rfl]
      rfl

theorem settled_follows {depth : Nat} {openRules : List Nat} {index : Nat} {state : RunState σ}
    (room : depth + openRules.length = run.mapping.rules.length)
    (consistent : run.Consistent cache world openRules state)
    (settled : state.rules[index]? ≠ some .pending) :
    run.Follows cache world depth openRules state
      ((run.evaluateWithin depth index).run.run state) (fun known => known index) := by
  cases ruleAt : run.mapping.rules[index]? with
  | none =>
      rw [evaluateWithin_outside ruleAt]
      refine ⟨?_, consistent, fun _ _ known => known, ?_⟩
      · unfold plain
        rw [ruleAt]
      · intro output success
        cases success
  | some rule =>
      have inside : index < state.rules.size := by
        rw [consistent.size]
        exact (List.getElem?_eq_some_iff.mp ruleAt).1
      cases found : state.rules[index] with
      | pending => exact absurd (Array.getElem?_eq_some_iff.mpr ⟨inside, found⟩) settled
      | inProgress =>
          have inProgress := Array.getElem?_eq_some_iff.mpr ⟨inside, found⟩
          rw [evaluateWithin_inProgress ruleAt inProgress]
          refine ⟨?_, consistent, fun _ _ known => known, ?_⟩
          · have member := (consistent.inProgress index).mp inProgress
            unfold plain
            simp only [ruleAt, if_pos member]
          · intro output success
            cases success
      | done output =>
          have done := Array.getElem?_eq_some_iff.mpr ⟨inside, found⟩
          have remembered : state.output? index = some output := RunState.output?_of_rules done
          rw [evaluateWithin_done ruleAt done]
          refine ⟨?_, consistent, fun _ _ known => known, ?_⟩
          · obtain ⟨finished, completed, same⟩ := consistent.remembers
            have bound := consistent.length_le completed same
            refine (run.plain_of_completed completed (by omega) ?_ ?_).symm
            · intro other member
              rw [← same other]
              cases known : state.output? other with
              | none => rfl
              | some otherOutput => exact absurd member (consistent.not_open known)
            · exact (same index).symm.trans remembered
          · intro known success further answers
            cases success
            exact answers index output remembered

theorem evaluateWithin_follows (stateless : run.registry.Stateless) {depth : Nat}
    {openRules : List Nat} (room : depth + openRules.length = run.mapping.rules.length)
    (index : Nat) :
    (run.memo cache world depth openRules).Rel (run.evaluateWithin depth index)
      (fun known => known index) := by
  induction depth generalizing openRules index with
  | zero =>
      intro state consistent
      apply run.settled_follows cache world room consistent
      intro pending
      obtain ⟨finished, completed, same⟩ := (consistent.enter pending).remembers
      have bound := (consistent.enter pending).length_le completed same
      rw [List.length_cons] at bound
      omega
  | succ depth ih =>
      intro state consistent
      by_cases pending : state.rules[index]? = some .pending
      · have inside := (Array.getElem?_eq_some_iff.mp pending).1
        rw [consistent.size] at inside
        have ruleAt := List.getElem?_eq_getElem inside
        rw [evaluateWithin_pending ruleAt pending]
        apply run.evaluateNew_follows cache world _ ruleAt pending consistent
        apply run.outputOpened_follows cache world depth (index :: openRules) stateless _ ruleAt
        intro other
        apply ih
        rw [List.length_cons]
        omega
      · exact run.settled_follows cache world room consistent pending

/-! ### Requests -/

theorem evaluate_follows (stateless : run.registry.Stateless) (index : Nat) :
    (run.memo cache world run.mapping.rules.length []).Rel (run.evaluate index)
      (fun known => known index) :=
  run.evaluateWithin_follows cache world stateless rfl index

theorem answer_consistent (stateless : run.registry.Stateless) (request : Request)
    {state : RunState σ} (consistent : run.Consistent cache world [] state) :
    run.Consistent cache world [] ((run.answer request).run.run state).2 := by
  cases request with
  | position index =>
      exact (run.evaluate_follows cache world stateless index state consistent).consistent
  | name iri =>
      have related : (run.memo cache world run.mapping.rules.length []).Rel (run.evaluateNamed iri)
          (do
            let index ← (fun _ => run.mapping.requireIndex iri : Asking Nat)
            fun known => known index) := by
        apply (run.memo cache world run.mapping.rules.length []).bind
        · exact run.lift_follows cache world _ _ _
        · exact run.evaluate_follows cache world stateless
      exact (related state consistent).consistent

theorem after_consistent (stateless : run.registry.Stateless) (requests : List Request)
    (first : σ) : run.Consistent cache world [] (run.after requests (run.start cache first)) := by
  apply run.after_of_step
  · intro request state consistent
    exact run.answer_consistent cache world stateless request consistent
  · exact run.start_consistent cache world first

/-- Earlier requests of a run, failed ones included, change no answer. -/
theorem evaluate_after_eq_evaluate_start (stateless : run.registry.Stateless)
    (requests : List Request) (first second : σ) (index : Nat) :
    ((run.evaluate index).run.run (run.after requests (run.start [] first))).1 =
      ((run.evaluate index).run.run (run.start [] second)).1 := by
  have later := run.evaluate_follows [] second stateless index _
    (run.after_consistent [] second stateless requests first)
  have fresh := run.evaluate_follows [] second stateless index _
    (run.start_consistent [] second second)
  exact later.result.trans fresh.result.symm

def needing (iri other : String) : Rule where
  iri := iri
  source := ⟨"rows", none, .csv⟩
  subject :=
    { kind := .function ⟨"call",
        [⟨[.constant Vocabulary.executes], [.ofKind (.constant (.iri "first"))]⟩,
          ⟨[.constant "of"], [.ofKind (.parent ⟨other, []⟩)]⟩]⟩
      termType := none
      classes := []
      classFunction := none }
  predicateObjectMaps := []

/-- Two rules that need each other, and a function that counts its calls. -/
def mutualRun : Run Nat where
  mapping :=
    { rules := [needing "left" "right", needing "right" "left"]
      distinct := by decide
      closed := by decide }
  registry := Registry.standard.register "first" fun arguments calls =>
    (.ok (arguments.valueAt 0), calls + 1)
  options := {}
  sources := [("rows", "key\n1\n2\n")]

theorem evaluate_mutualRun_after_failures :
    mutualRun.registry.Stateless ∧
      ((mutualRun.evaluate 1).run.run
          (mutualRun.after [.position 0, .name "right", .name "nowhere"]
            (mutualRun.start [] 0))).1 =
        ((mutualRun.evaluate 1).run.run (mutualRun.start [] 0)).1 := by
  have stateless : mutualRun.registry.Stateless :=
    Registry.stateless_standard.register _ fun _ _ _ => rfl
  exact ⟨stateless, mutualRun.evaluate_after_eq_evaluate_start stateless _ 0 0 1⟩

end Run

end RdfMapping
