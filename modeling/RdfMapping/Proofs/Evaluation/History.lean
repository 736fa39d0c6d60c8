import RdfMapping.Evaluation.Run
/-!
Sequences of evaluations in one run. Rules are asked for by position or by name, and
an evaluation that fails is followed by the next one like any other.
-/

namespace RdfMapping

inductive Request where
  | position (index : Nat)
  | name (iri : String)

namespace Run

variable {σ : Type} (run : Run σ)

def answer : Request → RunM σ RuleOutput
  | .position index => run.evaluate index
  | .name iri => run.evaluateNamed iri

def after (requests : List Request) (state : RunState σ) : RunState σ :=
  requests.foldl (fun state request => ((run.answer request).run.run state).2) state

theorem after_of_step {Holds : RunState σ → Prop}
    (step : ∀ request state, Holds state → Holds ((run.answer request).run.run state).2)
    (requests : List Request) {state : RunState σ} (holds : Holds state) :
    Holds (run.after requests state) := by
  induction requests generalizing state with
  | nil => exact holds
  | cons request rest ih => exact ih (step request state holds)

end Run

end RdfMapping
