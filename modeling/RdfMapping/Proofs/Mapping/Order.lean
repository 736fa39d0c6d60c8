import Mathlib.Data.List.Forall2
import RdfMapping.Proofs.Mapping.References
import RdfMapping.Proofs.Outcome
/-!
Mappings of the same rules in another order. Names decide which positions of the two
mappings correspond; whatever a mapping tells of a position, the other one tells of the
corresponding one, but for the order in which selectors are listed.
-/

namespace RdfMapping

namespace Mapping

def Corresponds (mapping other : Mapping) (index position : Nat) : Prop :=
  ∃ rule, mapping.rules[index]? = some rule ∧ other.rules[position]? = some rule

def SameRules (mapping other : Mapping) : Prop :=
  ∀ rule, rule ∈ mapping.rules ↔ rule ∈ other.rules

section

variable {mapping other : Mapping} {index position : Nat}

theorem Corresponds.symm (corresponds : mapping.Corresponds other index position) :
    other.Corresponds mapping position index := by
  obtain ⟨rule, ruleAt, ruleAtOther⟩ := corresponds
  exact ⟨rule, ruleAtOther, ruleAt⟩

theorem SameRules.symm (same : mapping.SameRules other) : other.SameRules mapping :=
  fun rule => (same rule).symm

theorem SameRules.exists_corresponds (same : mapping.SameRules other) {rule : Rule}
    (ruleAt : mapping.rules[index]? = some rule) :
    ∃ position, other.rules[position]? = some rule ∧ mapping.Corresponds other index position := by
  obtain ⟨position, ruleAtOther⟩ :=
    List.getElem?_of_mem ((same rule).mp (List.mem_of_getElem? ruleAt))
  exact ⟨position, ruleAtOther, rule, ruleAt, ruleAtOther⟩

theorem Corresponds.indexOf? (corresponds : mapping.Corresponds other index position)
    {iri : String} (found : mapping.indexOf? iri = some index) :
    other.indexOf? iri = some position := by
  obtain ⟨rule, ruleAt, ruleAtOther⟩ := corresponds
  obtain ⟨named, namedAt, same⟩ := indexOf?_eq_some_iff.mp found
  cases ruleAt.symm.trans namedAt
  exact indexOf?_eq_some_iff.mpr ⟨rule, ruleAtOther, same⟩

/-- Names tell the rules of a mapping apart, hence also their positions. -/
theorem Corresponds.position_eq (corresponds : mapping.Corresponds other index position)
    {further : Nat} (again : mapping.Corresponds other index further) : position = further := by
  have ⟨rule, ruleAt, _⟩ := corresponds
  have found := indexOf?_iri ruleAt
  exact Option.some.inj
    ((corresponds.indexOf? found).symm.trans (again.indexOf? found))

theorem biUnique_corresponds : Relator.BiUnique (mapping.Corresponds other) := by
  constructor
  · intro first second position corresponds again
    exact corresponds.symm.position_eq again.symm
  · intro index first second corresponds again
    exact corresponds.position_eq again

theorem SameRules.requireIndex (same : mapping.SameRules other) (iri : String) :
    Outcome.Matches (mapping.Corresponds other) (mapping.requireIndex iri)
      (other.requireIndex iri) := by
  have found (mapping other : Mapping) (same : mapping.SameRules other) {index : Nat}
      (given : mapping.requireIndex iri = .ok index) :
      ∃ position, other.requireIndex iri = .ok position := by
    rw [requireIndex_eq_ok_iff] at given
    obtain ⟨rule, ruleAt, _⟩ := indexOf?_eq_some_iff.mp given
    obtain ⟨position, _, corresponds⟩ := same.exists_corresponds ruleAt
    exact ⟨position, requireIndex_eq_ok_iff.mpr (corresponds.indexOf? given)⟩
  apply Outcome.Matches.of_exists_iff
  · constructor
    · rintro ⟨index, given⟩
      exact found mapping other same given
    · rintro ⟨position, given⟩
      exact found other mapping same.symm given
  · intro index position given givenOther
    rw [requireIndex_eq_ok_iff] at given givenOther
    obtain ⟨rule, ruleAt, _⟩ := indexOf?_eq_some_iff.mp given
    obtain ⟨further, _, corresponds⟩ := same.exists_corresponds ruleAt
    cases (corresponds.indexOf? given).symm.trans givenOther
    exact corresponds

theorem SameRules.asks (same : mapping.SameRules other)
    (corresponds : mapping.Corresponds other index position) {path : String}
    (asks : mapping.Asks index path) : other.Asks position path := by
  obtain ⟨rule, member, reference, mentions, found, inPaths⟩ := asks
  exact ⟨rule, (same rule).mp member, reference, mentions, corresponds.indexOf? found, inPaths⟩

theorem SameRules.mem_parentPaths_iff (same : mapping.SameRules other)
    (corresponds : mapping.Corresponds other index position) (path : String) :
    path ∈ mapping.parentPaths index ↔ path ∈ other.parentPaths position := by
  rw [Mapping.mem_parentPaths_iff, Mapping.mem_parentPaths_iff]
  exact ⟨same.asks corresponds, same.symm.asks corresponds.symm⟩

end

theorem exists_ofRules_of_perm {mapping : Mapping} {rules : List Rule}
    (rearranged : mapping.rules.Perm rules) :
    ∃ other, Mapping.ofRules rules = .ok other ∧ mapping.SameRules other := by
  have names := rearranged.map Rule.iri
  have references := rearranged.flatMap_right Rule.parentReferences
  let other : Mapping :=
    { rules
      distinct := names.nodup_iff.mp mapping.distinct
      closed := by
        intro reference member
        exact names.mem_iff.mp (mapping.closed reference (references.mem_iff.mpr member)) }
  exact ⟨other, ofRules_eq_ok_iff.mpr rfl, fun rule => rearranged.mem_iff⟩

/-- What two mappings have at corresponding positions is a function of the rules. -/
theorem SameRules.exists_eq_map {α : Type} {mapping other : Mapping}
    (same : mapping.SameRules other) {groups others : List (List α)}
    (length : groups.length = mapping.rules.length)
    (lengthOther : others.length = other.rules.length)
    (each : ∀ index position, mapping.Corresponds other index position →
      groups[index]? = others[position]?) :
    ∃ groupOf : Rule → List α,
      groups = mapping.rules.map groupOf ∧ others = other.rules.map groupOf := by
  let groupOf (rule : Rule) : List α :=
    ((mapping.indexOf? rule.iri).bind fun index => groups[index]?).getD []
  have here {index : Nat} {rule : Rule} (ruleAt : mapping.rules[index]? = some rule) :
      groups[index]? = some (groupOf rule) := by
    have bound := (List.getElem?_eq_some_iff.mp ruleAt).1
    have inside := List.getElem?_eq_getElem (length ▸ bound)
    simp only [groupOf, indexOf?_iri ruleAt, Option.bind_some, inside, Option.getD_some]
  refine ⟨groupOf, ?_, ?_⟩
  · apply List.ext_getElem?
    intro index
    rw [List.getElem?_map]
    cases ruleAt : mapping.rules[index]? with
    | none =>
        rw [List.getElem?_eq_none_iff, ← length] at ruleAt
        exact List.getElem?_eq_none_iff.mpr ruleAt
    | some rule => exact here ruleAt
  · apply List.ext_getElem?
    intro position
    rw [List.getElem?_map]
    cases ruleAt : other.rules[position]? with
    | none =>
        rw [List.getElem?_eq_none_iff, ← lengthOther] at ruleAt
        exact List.getElem?_eq_none_iff.mpr ruleAt
    | some rule =>
        obtain ⟨index, ruleAtFirst, corresponds⟩ := same.symm.exists_corresponds ruleAt
        rw [← each index position corresponds.symm]
        exact here ruleAtFirst

end Mapping

end RdfMapping
