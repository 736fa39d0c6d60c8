import RdfMapping.Proofs.Evaluation.Failure
import RdfMapping.Proofs.Function.Stateless
/-!
The errors of functions. Those of the library fail as functions only; what the functions
of a caller fail with is up to the caller.
-/

namespace RdfMapping

open MappingError Outcome

namespace Library

theorem require_local (arguments : Arguments) (function key : String) (position : Nat) :
    FailsWithin IsLocal (require arguments function key position) := by
  unfold require
  split
  · exact failsWithin_ok _
  · exact failsWithin_error trivial

theorem round_local (arguments : Arguments) : FailsWithin IsLocal (round arguments) := by
  unfold round
  apply (require_local _ _ _ _).bind
  intro value
  dsimp only
  split
  · exact failsWithin_ok _
  · split
    · exact failsWithin_ok _
    · exact failsWithin_error trivial

theorem find?_local {iri : String} {function : Arguments → Outcome Json}
    (found : find? iri = some function) (arguments : Arguments) :
    FailsWithin IsLocal (function arguments) := by
  have text {f : String → Json} (name key : String) :
      FailsWithin IsLocal (do return f (← require arguments name key 0)) :=
    (require_local _ _ _ _).bind fun _ => failsWithin_ok _
  have ofEach (entry : String × (Arguments → Outcome Json)) (member : entry ∈ functions) :
      FailsWithin IsLocal (entry.2 arguments) := by
    simp only [functions, List.mem_cons, List.not_mem_nil, or_false] at member
    rcases member with rfl | rfl | rfl | rfl | rfl | rfl | rfl | rfl | rfl | rfl | rfl
    · exact text _ _
    · exact text _ _
    · exact text _ _
    · exact text _ _
    · exact (require_local _ _ _ _).bind fun _ => (require_local _ _ _ _).bind fun _ =>
        (require_local _ _ _ _).bind fun _ => failsWithin_ok _
    · exact (require_local _ _ _ _).bind fun _ => (require_local _ _ _ _).bind fun _ =>
        failsWithin_ok _
    · exact text _ _
    · exact failsWithin_ok _
    · exact failsWithin_ok _
    · exact failsWithin_ok _
    · exact round_local arguments
  obtain ⟨entry, known, rfl⟩ := Option.map_eq_some_iff.mp found
  exact ofEach entry (List.mem_of_find?_eq_some known)

end Library

namespace Registry

variable {σ : Type}

/-- Every error of a function is an admitted one. -/
def FailsWithin (registry : Registry σ) (admitted : MappingError → Prop) : Prop :=
  ∀ iri function, registry.find? iri = some function →
    ∀ arguments world, Outcome.FailsWithin admitted (function arguments world).1

variable {admitted : MappingError → Prop}

theorem failsWithin_standard (admits : ∀ e, e.IsLocal → admitted e) :
    (standard : Registry σ).FailsWithin admitted := by
  intro iri function found arguments world
  obtain ⟨known, inLibrary, rfl⟩ := Option.map_eq_some_iff.mp found
  exact (Library.find?_local inLibrary arguments).mono admits

theorem FailsWithin.register {registry : Registry σ} (fails : registry.FailsWithin admitted)
    (iri : String) {function : Callable σ}
    (admits : ∀ arguments world, Outcome.FailsWithin admitted (function arguments world).1) :
    (registry.register iri function).FailsWithin admitted := by
  intro other known found
  rw [find?_register] at found
  split at found
  · cases found
    exact admits
  · exact fails other known found

end Registry

end RdfMapping
