import Mathlib.Data.List.Forall2
import Mathlib.Data.Set.Functor
import RdfMapping.Proofs.Evaluation.History
import RdfMapping.Proofs.Evaluation.Opened
import RdfMapping.Proofs.Evaluation.Simulation
/-!
What the evaluation of a rule may yield, whatever functions return and other rules give.
Nothing is assumed of the functions here: two calls with the same arguments may have
different results. Every output that a run remembers or answers with is a possible one.
-/

namespace RdfMapping

namespace SetM

variable {α β : Type}

theorem mem_pure {a b : α} : b ∈ (pure a : SetM α).run ↔ b = a := Iff.rfl

theorem mem_bind {x : SetM α} {f : α → SetM β} {b : β} :
    b ∈ (x >>= f).run ↔ ∃ a ∈ x.run, b ∈ (f a).run := by
  change b ∈ ⋃ a ∈ x.run, (f a).run ↔ _
  simp

theorem mem_mapM {f : α → SetM β} {items : List α} {results : List β} :
    results ∈ (items.mapM f).run ↔ List.Forall₂ (fun a b => b ∈ (f a).run) items results := by
  induction items generalizing results with
  | nil =>
      rw [List.mapM_nil, mem_pure, List.forall₂_nil_left_iff]
  | cons a rest ih =>
      rw [List.mapM_cons, mem_bind, List.forall₂_cons_left_iff]
      constructor
      · rintro ⟨b, member, later⟩
        obtain ⟨bs, restMember, same⟩ := mem_bind.mp later
        exact ⟨b, bs, member, ih.mp restMember, same⟩
      · rintro ⟨b, bs, member, restMember, same⟩
        exact ⟨b, member, mem_bind.mpr ⟨bs, ih.mpr restMember, same⟩⟩

theorem mem_mapM_range {f : Nat → SetM β} {count : Nat} {results : List β}
    (member : results ∈ ((List.range count).mapM f).run) :
    results.length = count ∧
      ∀ (index : Nat) (result : β), results[index]? = some result → result ∈ (f index).run :=
  Outcome.of_forall₂_range (mem_mapM.mp member)

theorem view_foldlM {γ : Type} (view : β → List γ) (added : α → List γ) {f : β → α → SetM β}
    (step : ∀ b a next, next ∈ (f b a).run → view next = view b ++ added a)
    (items : List α) {b result : β} (member : result ∈ (items.foldlM f b).run) :
    view result = view b ++ items.flatMap added := by
  induction items generalizing b with
  | nil =>
      rw [mem_pure.mp member, List.flatMap_nil, List.append_nil]
  | cons a rest ih =>
      rw [List.foldlM_cons, mem_bind] at member
      obtain ⟨next, nextMember, later⟩ := member
      rw [ih later, step b a next nextMember, List.append_assoc, List.flatMap_cons]

end SetM

namespace Run

variable {σ : Type} (run : Run σ)

/-- The host whose functions and rules may give anything. -/
def looseHost : Host SetM where
  lift := fun outcome => {a | outcome = .ok a}
  function? := fun iri => (run.registry.find? iri).map fun _ _ => Set.univ
  position := run.mapping.requireIndex
  output := fun _ => Set.univ

/-- The outputs that a rule may have if its rows are opened with a cache. -/
def possibleOutputs (cache : Cache) (index : Nat) : SetM RuleOutput :=
  {output | ∃ rule rows, run.mapping.rules[index]? = some rule ∧
    run.rowsFrom cache rule = .ok rows ∧
    output ∈ (evaluateRule run.looseHost run.options rows rule
      (run.mapping.parentPaths index)).run}

structure Sound (cache : Cache) (state : RunState σ) : Prop where
  size : state.rules.size = run.mapping.rules.length
  remembers : ∀ index output, state.output? index = some output →
    output ∈ (run.possibleOutputs cache index).run
  opens : run.OpensFrom cache state

theorem start_sound (cache : Cache) (world : σ) : run.Sound cache (run.start cache world) where
  size := Array.size_replicate
  remembers := by
    intro index output known
    rw [output?_start] at known
    cases known
  opens := run.start_opensFrom cache world

variable {run} in
theorem Sound.mark {cache : Cache} {state : RunState σ} (sound : run.Sound cache state)
    {index : Nat} (inside : index < state.rules.size) {ruleState : RuleState}
    (possible : ∀ output, ruleState.output? = some output →
      output ∈ (run.possibleOutputs cache index).run) :
    run.Sound cache (state.mark index ruleState) where
  size := (Array.size_setIfInBounds ..).trans sound.size
  remembers := by
    intro other output known
    rw [RunState.output?_mark inside] at known
    by_cases same : other = index
    · rw [if_pos same] at known
      rw [same]
      exact possible output known
    · rw [if_neg same] at known
      exact sound.remembers other output known
  opens := ⟨sound.opens.views, sound.opens.cache⟩

def possible (cache : Cache) : Simulation (RunM σ) SetM where
  Rel x y := ∀ state, run.Sound cache state →
    run.Sound cache (x.run.run state).2 ∧ ∀ a, (x.run.run state).1 = .ok a → a ∈ y.run
  pure := by
    intro α a state sound
    refine ⟨sound, ?_⟩
    rintro _ ⟨⟩
    exact SetM.mem_pure.mpr rfl
  bind := by
    intro α β x y f g first next state sound
    obtain ⟨between, yielded⟩ := first state sound
    rw [RunM.run_bind]
    rcases ran : x.run.run state with ⟨result, middle⟩
    rw [ran] at between yielded
    cases result with
    | error e =>
        refine ⟨between, ?_⟩
        intro b success
        cases success
    | ok a =>
        obtain ⟨after, ended⟩ := next a middle between
        refine ⟨after, ?_⟩
        intro b success
        exact SetM.mem_bind.mpr ⟨a, yielded a rfl, ended b success⟩

section

variable (cache : Cache)

theorem lift_possible {α : Type} (outcome : Outcome α) :
    (run.possible cache).Rel (ExceptT.mk (pure outcome)) (run.looseHost.lift outcome) := by
  intro state sound
  exact ⟨sound, fun a success => success⟩

theorem host_possible {output : Nat → RunM σ RuleOutput}
    (outputs : ∀ index, (run.possible cache).Rel (output index) (run.possibleOutputs cache index)) :
    (run.host output).Related (run.possible cache) run.looseHost where
  lift := fun outcome => run.lift_possible cache outcome
  function := by
    intro iri
    change Option.Rel _ ((run.registry.find? iri).map _) ((run.registry.find? iri).map _)
    cases run.registry.find? iri with
    | none => exact .none
    | some function =>
        apply Option.Rel.some
        intro arguments state sound
        exact ⟨⟨sound.size, sound.remembers, ⟨sound.opens.views, sound.opens.cache⟩⟩,
          fun _ _ => trivial⟩
  position := rfl
  output := by
    intro index state sound
    exact ⟨(outputs index state sound).1, fun _ _ => trivial⟩

theorem rowsOf_possible {index : Nat} {rule : Rule}
    (ruleAt : run.mapping.rules[index]? = some rule) :
    (run.possible cache).Rel (run.rowsOf index rule)
      (run.looseHost.lift (run.rowsFrom cache rule)) := by
  intro state sound
  obtain ⟨same, unchanged, opens⟩ := sound.opens.rowsOf ruleAt
  refine ⟨⟨?_, ?_, opens⟩, ?_⟩
  · rw [unchanged]
    exact sound.size
  · intro other output known
    unfold RunState.output? at known
    rw [unchanged] at known
    exact sound.remembers other output known
  · intro rows success
    exact same.symm.trans success

theorem outputOpened_possible {output : Nat → RunM σ RuleOutput}
    (outputs : ∀ index, (run.possible cache).Rel (output index) (run.possibleOutputs cache index))
    {index : Nat} {rule : Rule} (ruleAt : run.mapping.rules[index]? = some rule) :
    (run.possible cache).Rel (run.outputOpened output index rule)
      (run.possibleOutputs cache index) := by
  intro state sound
  have related := (run.possible cache).bind (run.rowsOf_possible cache ruleAt) fun rows =>
    evaluateRule_related (run.host_possible cache outputs) run.options rows rule
      (run.mapping.parentPaths index)
  obtain ⟨after, yielded⟩ := related state sound
  refine ⟨after, ?_⟩
  intro result success
  obtain ⟨rows, opened, member⟩ := SetM.mem_bind.mp (yielded result success)
  exact ⟨rule, rows, ruleAt, opened, member⟩

theorem evaluateNew_possible {output : Nat → RunM σ RuleOutput}
    (outputs : ∀ index, (run.possible cache).Rel (output index) (run.possibleOutputs cache index))
    {index : Nat} {rule : Rule} (ruleAt : run.mapping.rules[index]? = some rule) :
    (run.possible cache).Rel (run.evaluateNew output index rule)
      (run.possibleOutputs cache index) := by
  intro state sound
  have bound := (List.getElem?_eq_some_iff.mp ruleAt).1
  have entered : run.Sound cache (state.mark index .inProgress) := by
    apply sound.mark (by rw [sound.size]; exact bound)
    intro result known
    cases known
  obtain ⟨opened, yielded⟩ := run.outputOpened_possible cache outputs ruleAt _ entered
  rw [run_evaluateNew]
  rcases ran : (run.outputOpened output index rule).run.run (state.mark index .inProgress) with
    ⟨result, next⟩
  rw [ran] at opened yielded
  have inside : index < next.rules.size := by
    rw [opened.size]
    exact bound
  cases result with
  | error e =>
      refine ⟨opened.mark inside ?_, ?_⟩
      · intro other known
        cases known
      · intro other success
        cases success
  | ok result =>
      have member := yielded result rfl
      refine ⟨opened.mark inside ?_, ?_⟩
      · intro other known
        cases known
        exact member
      · intro other success
        cases success
        exact member

theorem evaluateWithin_possible (depth index : Nat) :
    (run.possible cache).Rel (run.evaluateWithin depth index)
      (run.possibleOutputs cache index) := by
  intro state sound
  have failed (e : MappingError) : run.Sound cache state ∧
      ∀ output, (.error e : Outcome RuleOutput) = .ok output →
        output ∈ (run.possibleOutputs cache index).run := by
    refine ⟨sound, ?_⟩
    intro output success
    cases success
  cases ruleAt : run.mapping.rules[index]? with
  | none =>
      rw [evaluateWithin_outside ruleAt]
      exact failed _
  | some rule =>
      have inside : index < state.rules.size := by
        rw [sound.size]
        exact (List.getElem?_eq_some_iff.mp ruleAt).1
      have found := Array.getElem?_eq_getElem inside
      cases marked : state.rules[index] with
      | inProgress =>
          rw [marked] at found
          rw [evaluateWithin_inProgress ruleAt found]
          exact failed _
      | done known =>
          rw [marked] at found
          rw [evaluateWithin_done ruleAt found]
          refine ⟨sound, ?_⟩
          rintro output ⟨⟩
          exact sound.remembers index known (RunState.output?_of_rules found)
      | pending =>
          rw [marked] at found
          cases depth with
          | zero =>
              rw [evaluateWithin_exhausted ruleAt found]
              exact failed _
          | succ depth =>
              rw [evaluateWithin_pending ruleAt found]
              exact run.evaluateNew_possible cache (evaluateWithin_possible depth) ruleAt state
                sound

/-! ### Requests -/

theorem evaluate_possible (index : Nat) :
    (run.possible cache).Rel (run.evaluate index) (run.possibleOutputs cache index) :=
  run.evaluateWithin_possible cache run.mapping.rules.length index

theorem answer_sound (request : Request) {state : RunState σ} (sound : run.Sound cache state) :
    run.Sound cache ((run.answer request).run.run state).2 := by
  cases request with
  | position index => exact (run.evaluate_possible cache index state sound).1
  | name iri =>
      exact ((run.possible cache).bind (run.lift_possible cache (run.mapping.requireIndex iri))
        (run.evaluate_possible cache) state sound).1

theorem after_sound (requests : List Request) (world : σ) :
    run.Sound cache (run.after requests (run.start cache world)) := by
  apply run.after_of_step
  · intro request state sound
    exact run.answer_sound cache request sound
  · exact run.start_sound cache world

end

end Run

end RdfMapping
