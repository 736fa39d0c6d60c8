import RdfMapping.Function.Registry
/-!
Registries whose functions answer by their arguments alone. The functions may change
the state of their caller, as a counter of calls does, but do not show it.
-/

namespace RdfMapping.Registry

variable {σ : Type}

theorem find?_register (registry : Registry σ) (iri other : String) (function : Callable σ) :
    (registry.register iri function).find? other =
      if iri = other then some function else registry.find? other := by
  unfold find? register
  by_cases same : iri = other
  · simp only [List.find?_cons, same, decide_true, if_true]
  · simp only [List.find?_cons, same, decide_false, if_false]

def Stateless (registry : Registry σ) : Prop :=
  ∀ iri function, registry.find? iri = some function →
    ∀ arguments left right, (function arguments left).1 = (function arguments right).1

theorem stateless_standard : (standard : Registry σ).Stateless := by
  intro iri function found arguments left right
  obtain ⟨known, _, rfl⟩ := Option.map_eq_some_iff.mp found
  rfl

theorem Stateless.register {registry : Registry σ} (stateless : registry.Stateless) (iri : String)
    {function : Callable σ}
    (same : ∀ arguments left right, (function arguments left).1 = (function arguments right).1) :
    (registry.register iri function).Stateless := by
  intro other known found
  rw [find?_register] at found
  split at found
  · cases found
    exact same
  · exact stateless other known found

end RdfMapping.Registry
