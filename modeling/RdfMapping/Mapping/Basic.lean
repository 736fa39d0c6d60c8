import RdfMapping.Mapping.Rule
/-!
A mapping: rules with distinct names, none of which refers to a rule that is not
there. For every rule the mapping knows the selectors by which other rules join
with it, so that the values which these joins compare can be recorded while the
rule is evaluated.
-/

namespace RdfMapping

structure Mapping where
  rules : List Rule
  /-- No two rules have one name. -/
  distinct : (rules.map Rule.iri).Nodup
  /-- Every rule that is referred to is there. -/
  closed : ∀ reference ∈ rules.flatMap Rule.parentReferences,
    reference.parent ∈ rules.map Rule.iri

namespace Mapping

def firstRepeated? : (seen rest : List String) → Option String
  | _, [] => none
  | seen, text :: rest =>
      if text ∈ seen then some text else firstRepeated? (text :: seen) rest

theorem firstRepeated?_eq_none_iff {seen rest : List String} :
    firstRepeated? seen rest = none ↔ rest.Nodup ∧ ∀ text ∈ rest, text ∉ seen := by
  induction rest generalizing seen with
  | nil => simp [firstRepeated?]
  | cons text rest ih =>
      unfold firstRepeated?
      by_cases known : text ∈ seen
      · simp [known]
      · rw [if_neg known, ih]
        simp only [List.nodup_cons, List.mem_cons, not_or]
        constructor
        · rintro ⟨unique, apart⟩
          refine ⟨⟨fun again => (apart text again).1 rfl, unique⟩, ?_⟩
          rintro other (rfl | member)
          · exact known
          · exact (apart other member).2
        · rintro ⟨⟨first, unique⟩, apart⟩
          refine ⟨unique, fun other member => ⟨?_, apart other (Or.inr member)⟩⟩
          rintro rfl
          exact first member

def ofRules (rules : List Rule) : Outcome Mapping :=
  match unique : firstRepeated? [] (rules.map Rule.iri) with
  | some iri => .error (.invalidValue "rr:TriplesMap" ("duplicate TriplesMap " ++ iri))
  | none =>
      match found : (rules.flatMap Rule.parentReferences).find?
          (fun reference => reference.parent ∉ rules.map Rule.iri) with
      | some reference => .error (.unknownRule reference.parent)
      | none =>
          .ok
            { rules
              distinct := (firstRepeated?_eq_none_iff.1 unique).1
              closed := fun reference member => by
                have refuted := List.find?_eq_none.1 found reference member
                simpa using refuted }

def indexOf? (mapping : Mapping) (iri : String) : Option Nat :=
  mapping.rules.findIdx? (·.iri = iri)

def requireIndex (mapping : Mapping) (iri : String) : Outcome Nat :=
  match mapping.indexOf? iri with
  | some index => .ok index
  | none => .error (.unknownRule iri)

def rule? (mapping : Mapping) (iri : String) : Option Rule :=
  mapping.rules.find? (·.iri = iri)

/-- The selectors by which any rule joins with the rule of a name, each once, in
the order in which they are written. -/
def pathsOf (mapping : Mapping) (iri : String) : List String :=
  (((mapping.rules.flatMap Rule.parentReferences).filter (·.parent = iri)).flatMap
    ParentReference.paths).eraseDups

/-- The selectors by which any rule joins with the rule at a position. -/
def parentPaths (mapping : Mapping) (index : Nat) : List String :=
  match mapping.rules[index]? with
  | some rule => mapping.pathsOf rule.iri
  | none => []

end Mapping

end RdfMapping
