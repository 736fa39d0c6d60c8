import RdfMapping.Proofs.Evaluation.History
import RdfMapping.Proofs.Evaluation.Marks
/-!
What a run remembers from one request to the next. Functions may keep a state here, and
may answer differently when they are called again; an output that is remembered is given
as it is, and asks nobody.
-/

namespace RdfMapping

def Request.target? (mapping : Mapping) : Request → Option Nat
  | .position index => some index
  | .name iri => mapping.indexOf? iri

namespace Run

variable {σ : Type} (run : Run σ)

/-- How a run stands between two requests. -/
structure Settled (state : RunState σ) : Prop where
  idle : ∀ index : Nat, state.rules[index]? ≠ some .inProgress
  /-- A request, answered or not, forgets no output. -/
  kept : ∀ request index output, state.output? index = some output →
    ((run.answer request).run.run state).2.output? index = some output
  /-- A request that fails leaves its rule unevaluated. -/
  failure : ∀ request e, ((run.answer request).run.run state).1 = .error e →
    ∀ index ∈ request.target? run.mapping,
      isEvaluated ((run.answer request).run.run state).2 index = false
  /-- The output that a request gives is remembered for its rule. -/
  success : ∀ request output, ((run.answer request).run.run state).1 = .ok output →
    ∃ index ∈ request.target? run.mapping,
      ((run.answer request).run.run state).2.output? index = some output
  /-- A rule that is evaluated stays so, and every later evaluation gives its output and
  changes nothing, whatever the functions, the options and the sources are by then. -/
  evaluated : ∀ index, isEvaluated state index = true →
    ∃ output, state.output? index = some output ∧ ∀ requests,
      isEvaluated (run.after requests state) index = true ∧
        ∀ later : Run σ, later.mapping = run.mapping →
          (later.evaluate index).run.run (run.after requests state) =
            (.ok output, run.after requests state)

theorem isEvaluated_eq (state : RunState σ) (index : Nat) :
    isEvaluated state index = (state.output? index).isSome := by
  unfold isEvaluated RunState.output?
  cases state.rules[index]? with
  | none => rfl
  | some ruleState => cases ruleState <;> rfl

/-! ### One request -/

section

variable {run} {state : RunState σ}

theorem output?_evaluate (marked : run.Marked [] state) (index : Nat) :
    ((run.evaluate index).run.run state).2.output? index =
      ((run.evaluate index).run.run state).1.toOption := by
  have size := (evaluate_keeps (run.admits_any index) marked).marked.size
  cases ruleAt : run.mapping.rules[index]? with
  | none =>
      have outside : state.rules[index]? = none := by
        rw [Array.getElem?_eq_none_iff, marked.size]
        exact List.getElem?_eq_none_iff.mp ruleAt
      unfold evaluate
      rw [evaluateWithin_outside ruleAt]
      unfold RunState.output?
      rw [outside]
      rfl
  | some rule =>
      have bound := (List.getElem?_eq_some_iff.mp ruleAt).1
      have inside : index < state.rules.size := by
        rw [marked.size]
        exact bound
      have found := Array.getElem?_eq_getElem inside
      cases given : state.rules[index] with
      | inProgress =>
          rw [given] at found
          cases (marked.inProgress index).mp found
      | done output =>
          rw [given] at found
          unfold evaluate
          rw [evaluateWithin_done ruleAt found]
          exact RunState.output?_of_rules found
      | pending =>
          rw [given] at found
          obtain ⟨depth, enough⟩ := Nat.exists_eq_add_one_of_ne_zero (Nat.ne_zero_of_lt bound)
          unfold evaluate at size ⊢
          rw [enough, evaluateWithin_pending ruleAt found, run_evaluateNew] at size ⊢
          rcases ran : (run.outputOpened (run.evaluateWithin depth) index rule).run.run
            (state.mark index .inProgress) with ⟨result, next⟩
          rw [ran] at size
          cases result with
          | error e =>
              have same := (Array.size_setIfInBounds ..).symm.trans size
              rw [RunState.output?_mark (by omega), if_pos rfl]
              rfl
          | ok output =>
              have same := (Array.size_setIfInBounds ..).symm.trans size
              rw [RunState.output?_mark (by omega), if_pos rfl]
              rfl

theorem run_answer_of_target {request : Request} {index : Nat}
    (target : request.target? run.mapping = some index) :
    (run.answer request).run.run state = (run.evaluate index).run.run state := by
  cases request with
  | position position =>
      cases target
      rfl
  | name iri =>
      unfold answer evaluateNamed
      rw [RunM.run_bind, Mapping.requireIndex_eq_ok_iff.mpr target]
      rfl

theorem run_answer_of_no_target {request : Request}
    (target : request.target? run.mapping = none) (state : RunState σ) :
    ∃ e, (run.answer request).run.run state = (.error e, state) := by
  cases request with
  | position position => cases target
  | name iri =>
      have unknown : run.mapping.requireIndex iri = .error (.unknownRule iri) := by
        change run.mapping.indexOf? iri = none at target
        unfold Mapping.requireIndex
        rw [target]
      unfold answer evaluateNamed
      rw [RunM.run_bind, unknown]
      exact ⟨_, rfl⟩

theorem answer_keeps (marked : run.Marked [] state) (request : Request) :
    run.Keeps [] (fun _ => True) state ((run.answer request).run.run state) := by
  cases target : request.target? run.mapping with
  | none =>
      obtain ⟨e, same⟩ := run_answer_of_no_target target state
      rw [same]
      exact ⟨marked, fun _ _ known => known, fun _ _ => trivial⟩
  | some index =>
      rw [run_answer_of_target target]
      exact evaluate_keeps (run.admits_any index) marked

/-! ### Sequences of requests -/

theorem after_marked (requests : List Request) (marked : run.Marked [] state) :
    run.Marked [] (run.after requests state) := by
  have step (request : Request) (state : RunState σ) (holds : run.Marked [] state) :
      run.Marked [] ((run.answer request).run.run state).2 :=
    (answer_keeps holds request).marked
  exact run.after_of_step step requests marked

theorem after_kept (requests : List Request) (marked : run.Marked [] state) {index : Nat}
    {output : RuleOutput} (known : state.output? index = some output) :
    (run.after requests state).output? index = some output := by
  have step (request : Request) (state : RunState σ)
      (holds : run.Marked [] state ∧ state.output? index = some output) :
      run.Marked [] ((run.answer request).run.run state).2 ∧
        ((run.answer request).run.run state).2.output? index = some output :=
    have keeps := answer_keeps holds.1 request
    ⟨keeps.marked, keeps.kept index output holds.2⟩
  exact (run.after_of_step step requests ⟨marked, known⟩).2

theorem Marked.settled (marked : run.Marked [] state) : run.Settled state where
  idle := by
    intro index found
    cases (marked.inProgress index).mp found
  kept := fun request => (answer_keeps marked request).kept
  failure := by
    intro request e failed index target
    rw [run_answer_of_target target] at failed ⊢
    rw [isEvaluated_eq, output?_evaluate marked, failed]
    rfl
  success := by
    intro request output success
    cases target : request.target? run.mapping with
    | none =>
        obtain ⟨e, same⟩ := run_answer_of_no_target target state
        rw [same] at success
        cases success
    | some index =>
        rw [run_answer_of_target target] at success ⊢
        refine ⟨index, rfl, ?_⟩
        rw [output?_evaluate marked, success]
        rfl
  evaluated := by
    intro index isDone
    rw [isEvaluated_eq, Option.isSome_iff_exists] at isDone
    obtain ⟨output, known⟩ := isDone
    refine ⟨output, known, ?_⟩
    intro requests
    have still := after_kept requests marked known
    have done := RunState.rules_of_output? still
    have bound := (Array.getElem?_eq_some_iff.mp done).1
    rw [(after_marked requests marked).size] at bound
    refine ⟨?_, ?_⟩
    · rw [isEvaluated_eq, still]
      rfl
    · intro later sameMapping
      rw [← sameMapping] at bound
      unfold evaluate
      exact evaluateWithin_done (List.getElem?_eq_getElem bound) done

end

/-- Between requests no rule is in progress, and no failure takes back what the run
remembers. -/
theorem after_settled (cache : Cache) (world : σ) (requests : List Request) :
    run.Settled (run.after requests (run.start cache world)) :=
  (after_marked requests (run.start_marked cache world)).settled

/-- The subject of the first rule is given by a function of the records of the second one,
and the function fails when it is called for the first time. -/
def hesitantRun : Run Nat where
  mapping :=
    { rules :=
        [{ iri := "left"
           source := ⟨"rows", none, .csv⟩
           subject :=
            { kind := .function ⟨"call",
                [⟨[.constant Vocabulary.executes], [.ofKind (.constant (.iri "hesitate"))]⟩,
                  ⟨[.constant "of"], [.ofKind (.parent ⟨"right", []⟩)]⟩]⟩
              termType := none
              classes := []
              classFunction := none }
           predicateObjectMaps := [] },
          { iri := "right"
            source := ⟨"rows", none, .csv⟩
            subject := ⟨.reference "key", none, [], none⟩
            predicateObjectMaps := [] }]
      distinct := by decide
      closed := by decide }
  registry := Registry.standard.register "hesitate" fun arguments calls =>
    (if calls = 0 then .error (.function "not yet") else .ok (arguments.valueAt 0), calls + 1)
  options := {}
  sources := [("rows", "key\n1\n2\n")]

theorem hesitantRun_settled_after_failure :
    isEvaluated (hesitantRun.after [.position 0] (hesitantRun.start [] 0)) 0 = false ∧
      isEvaluated (hesitantRun.after [.position 0] (hesitantRun.start [] 0)) 1 = true ∧
      isEvaluated (hesitantRun.after [.position 0, .name "left"] (hesitantRun.start [] 0)) 0 =
        true ∧
      hesitantRun.Settled
        (hesitantRun.after [.position 0, .name "left"] (hesitantRun.start [] 0)) := by
  refine ⟨?_, ?_, ?_, hesitantRun.after_settled [] 0 _⟩
  · decide +kernel
  · decide +kernel
  · decide +kernel

end Run

end RdfMapping
