import RdfMapping.Function.Library
/-!
The functions that a mapping can call: those of its caller, and behind them those of
the library. The functions of a caller may keep a state between calls.
-/

namespace RdfMapping

abbrev Callable (σ : Type) := Arguments → σ → Outcome Json × σ

structure Registry (σ : Type) where
  /-- The functions of the caller by their IRIs, the latest one first. -/
  callers : List (String × Callable σ)
  /-- Whether the functions of the library are available. -/
  library : Bool

namespace Registry

variable {σ : Type}

def standard : Registry σ := ⟨[], true⟩

def empty : Registry σ := ⟨[], false⟩

/-- The registry with a function under an IRI, in front of any other there. -/
def register (registry : Registry σ) (iri : String) (function : Callable σ) : Registry σ :=
  { registry with callers := (iri, function) :: registry.callers }

def find? (registry : Registry σ) (iri : String) : Option (Callable σ) :=
  match registry.callers.find? (·.1 = iri) with
  | some entry => some entry.2
  | none =>
      if registry.library then
        (Library.find? iri).map fun function arguments state => (function arguments, state)
      else none

def contains (registry : Registry σ) (iri : String) : Bool := (registry.find? iri).isSome

end Registry

end RdfMapping
