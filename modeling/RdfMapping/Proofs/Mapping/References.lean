import RdfMapping.Evaluation.Call
import RdfMapping.Mapping.Basic
import RdfMapping.Proofs.Repeats
/-!
Where parent references stand in a rule, and what a mapping knows of them. A reference
stands in an object map, or in the members of a call of the subject, the classes or an
object, at any depth. The selectors that a mapping keeps for a rule are exactly those of
the references to this rule, wherever they stand.
-/

namespace RdfMapping

mutual

/-- A parent reference stands in a call, at any depth, in members that count. -/
inductive FunctionCall.Contains (counts : PredicateObjectMap → Prop) :
    FunctionCall → ParentReference → Prop
  | member {call : FunctionCall} {pom : PredicateObjectMap} {object : ObjectMap}
      {reference : ParentReference} :
      pom ∈ call.members → counts pom → object ∈ pom.objects →
      ObjectKind.Contains counts object.kind reference → FunctionCall.Contains counts call reference

inductive ObjectKind.Contains (counts : PredicateObjectMap → Prop) :
    ObjectKind → ParentReference → Prop
  | parent (reference : ParentReference) : ObjectKind.Contains counts (.parent reference) reference
  | function {call : FunctionCall} {reference : ParentReference} :
      FunctionCall.Contains counts call reference →
      ObjectKind.Contains counts (.function call) reference

end

/-- A member that gives parameters, and not the name of the function. -/
def PredicateObjectMap.IsParameter (member : PredicateObjectMap) : Prop :=
  FunctionCall.isExecutes member = false

/-- The calls of a rule: for its subject, for its classes, and for its objects. -/
inductive Rule.Calls (rule : Rule) : FunctionCall → Prop
  | subject {call : FunctionCall} : rule.subject.kind = .function call → rule.Calls call
  | classes {call : FunctionCall} : rule.subject.classFunction = some call → rule.Calls call
  | object {pom : PredicateObjectMap} {object : ObjectMap} {call : FunctionCall} :
      pom ∈ rule.predicateObjectMaps → object ∈ pom.objects → object.kind = .function call →
      rule.Calls call

/-- A parent reference stands in a rule: as an object, or anywhere in a call. -/
inductive Rule.Mentions (rule : Rule) : ParentReference → Prop
  | join {pom : PredicateObjectMap} {object : ObjectMap} {reference : ParentReference} :
      pom ∈ rule.predicateObjectMaps → object ∈ pom.objects → object.kind = .parent reference →
      rule.Mentions reference
  | call {call : FunctionCall} {reference : ParentReference} :
      rule.Calls call → call.Contains (fun _ => True) reference → rule.Mentions reference

/-- A call of a rule has a parent reference as a parameter, by itself or through a call
among its parameters. -/
def Rule.Needs (rule : Rule) (reference : ParentReference) : Prop :=
  ∃ call, rule.Calls call ∧ call.Contains PredicateObjectMap.IsParameter reference

/-- The records of the rule at one position are a parameter of the rule at another. -/
def Mapping.DependsOn (mapping : Mapping) (index parent : Nat) : Prop :=
  ∃ rule, mapping.rules[index]? = some rule ∧
    ∃ reference, rule.Needs reference ∧ mapping.indexOf? reference.parent = some parent

/-- A parent reference to the rule at a position has a condition on a selector. -/
def Mapping.Asks (mapping : Mapping) (index : Nat) (path : String) : Prop :=
  ∃ rule ∈ mapping.rules, ∃ reference, rule.Mentions reference ∧
    mapping.indexOf? reference.parent = some index ∧ path ∈ reference.paths

mutual

theorem FunctionCall.Contains.mono {counts further : PredicateObjectMap → Prop}
    (more : ∀ member, counts member → further member) {reference : ParentReference} :
    ∀ {call : FunctionCall}, call.Contains counts reference → call.Contains further reference
  | _, .member memberOf counted objectOf within =>
      .member memberOf (more _ counted) objectOf (within.mono more)

theorem ObjectKind.Contains.mono {counts further : PredicateObjectMap → Prop}
    (more : ∀ member, counts member → further member) {reference : ParentReference} :
    ∀ {kind : ObjectKind}, kind.Contains counts reference → kind.Contains further reference
  | _, .parent reference => .parent reference
  | _, .function within => .function (within.mono more)

end

theorem Rule.Needs.mentions {rule : Rule} {reference : ParentReference}
    (needs : rule.Needs reference) : rule.Mentions reference := by
  obtain ⟨call, ofRule, within⟩ := needs
  exact .call ofRule (within.mono fun _ _ => trivial)

/-! ### References in calls -/

section

variable {reference : ParentReference}

mutual

theorem FunctionCall.mem_parentReferences_iff : ∀ call : FunctionCall,
    reference ∈ call.parentReferences ↔ call.Contains (fun _ => True) reference
  | ⟨id, members⟩ => by
      rw [FunctionCall.parentReferences, mem_memberReferences_iff members]
      constructor
      · rintro ⟨pom, pomMember, object, objectMember, within⟩
        exact .member pomMember trivial objectMember within
      · rintro ⟨pomMember, _, objectMember, within⟩
        exact ⟨_, pomMember, _, objectMember, within⟩

theorem mem_memberReferences_iff : ∀ members : List PredicateObjectMap,
    reference ∈ memberReferences members ↔
      ∃ pom ∈ members, ∃ object ∈ pom.objects, object.kind.Contains (fun _ => True) reference
  | [] => by simp [memberReferences]
  | ⟨predicates, objects⟩ :: rest => by
      rw [memberReferences, List.mem_append, mem_objectReferences_iff objects,
        mem_memberReferences_iff rest]
      simp

theorem mem_objectReferences_iff : ∀ objects : List ObjectMap,
    reference ∈ objectReferences objects ↔
      ∃ object ∈ objects, object.kind.Contains (fun _ => True) reference
  | [] => by simp [objectReferences]
  | ⟨kind, _, _, _, _⟩ :: rest => by
      rw [objectReferences, List.mem_append, ObjectKind.mem_parentReferences_iff kind,
        mem_objectReferences_iff rest]
      simp

theorem ObjectKind.mem_parentReferences_iff : ∀ kind : ObjectKind,
    reference ∈ kind.parentReferences ↔ kind.Contains (fun _ => True) reference
  | .parent other => by
      rw [ObjectKind.parentReferences, List.mem_singleton]
      constructor
      · rintro rfl
        exact .parent _
      · rintro ⟨⟩
        rfl
  | .function call => by
      rw [ObjectKind.parentReferences, FunctionCall.mem_parentReferences_iff call]
      constructor
      · exact .function
      · intro inCall
        cases inCall with
        | function within => exact within
  | .constant value => by
      constructor
      · intro member
        cases member
      · rintro ⟨⟩
  | .reference selector => by
      constructor
      · intro member
        cases member
      · rintro ⟨⟩
  | .template template => by
      constructor
      · intro member
        cases member
      · rintro ⟨⟩

end

end

/-! ### References in rules -/

namespace Rule

theorem mem_joinReferences_iff {rule : Rule} {reference : ParentReference} :
    reference ∈ rule.joinReferences ↔
      ∃ pom ∈ rule.predicateObjectMaps, ∃ object ∈ pom.objects,
        object.kind = .parent reference := by
  have parent (object : ObjectMap) :
      object.parent? = some reference ↔ object.kind = .parent reference := by
    unfold ObjectMap.parent?
    cases object.kind <;> simp
  unfold joinReferences
  simp only [List.mem_flatMap, List.mem_filterMap, parent]

theorem mem_calls_iff {rule : Rule} {call : FunctionCall} :
    call ∈ rule.calls ↔ rule.Calls call := by
  have given (object : ObjectMap) : object.call? = some call ↔ object.kind = .function call := by
    unfold ObjectMap.call?
    cases object.kind <;> simp
  have ofSubject : call ∈ rule.subject.calls ↔
      rule.subject.kind = .function call ∨ rule.subject.classFunction = some call := by
    unfold SubjectMap.calls
    cases rule.subject.kind <;> simp [eq_comm]
  unfold calls
  simp only [List.mem_append, ofSubject, List.mem_flatMap, List.mem_filterMap, given]
  constructor
  · rintro ((subject | classes) | ⟨pom, pomMember, object, objectMember, kind⟩)
    · exact .subject subject
    · exact .classes classes
    · exact .object pomMember objectMember kind
  · rintro (subject | classes | ⟨pomMember, objectMember, kind⟩)
    · exact .inl (.inl subject)
    · exact .inl (.inr classes)
    · exact .inr ⟨_, pomMember, _, objectMember, kind⟩

theorem mem_parentReferences_iff {rule : Rule} {reference : ParentReference} :
    reference ∈ rule.parentReferences ↔ rule.Mentions reference := by
  unfold parentReferences
  simp only [List.mem_append, mem_joinReferences_iff, List.mem_flatMap, mem_calls_iff,
    FunctionCall.mem_parentReferences_iff]
  constructor
  · rintro (⟨pom, pomMember, object, objectMember, kind⟩ | ⟨call, ofRule, within⟩)
    · exact .join pomMember objectMember kind
    · exact .call ofRule within
  · rintro (⟨pomMember, objectMember, kind⟩ | ⟨ofRule, within⟩)
    · exact .inl ⟨_, pomMember, _, objectMember, kind⟩
    · exact .inr ⟨_, ofRule, within⟩

end Rule

/-! ### Positions and selectors -/

namespace Mapping

variable {mapping : Mapping}

theorem indexOf?_eq_some_iff {iri : String} {index : Nat} :
    mapping.indexOf? iri = some index ↔
      ∃ rule, mapping.rules[index]? = some rule ∧ rule.iri = iri := by
  unfold indexOf?
  rw [List.findIdx?_eq_some_iff_getElem]
  constructor
  · rintro ⟨bound, named, _⟩
    exact ⟨_, List.getElem?_eq_getElem bound, of_decide_eq_true named⟩
  · rintro ⟨rule, ruleAt, rfl⟩
    obtain ⟨bound, same⟩ := List.getElem?_eq_some_iff.mp ruleAt
    refine ⟨bound, by simp [same], ?_⟩
    intro earlier before named
    -- two rules of one name would stand at one position
    have atEarlier : (mapping.rules.map Rule.iri)[earlier]? = some rule.iri := by
      rw [List.getElem?_map, List.getElem?_eq_getElem (by omega)]
      simpa using named
    have atIndex : (mapping.rules.map Rule.iri)[index]? = some rule.iri := by
      rw [List.getElem?_map, ruleAt]
      rfl
    have equal := (List.getElem?_inj (by rw [List.length_map]; omega) mapping.distinct).mp
      (atEarlier.trans atIndex.symm)
    omega

theorem indexOf?_iri {index : Nat} {rule : Rule} (ruleAt : mapping.rules[index]? = some rule) :
    mapping.indexOf? rule.iri = some index :=
  indexOf?_eq_some_iff.mpr ⟨rule, ruleAt, rfl⟩

theorem requireIndex_eq_ok_iff {iri : String} {index : Nat} :
    mapping.requireIndex iri = .ok index ↔ mapping.indexOf? iri = some index := by
  unfold requireIndex
  cases mapping.indexOf? iri with
  | none => simp
  | some known => simp

theorem exists_indexOf?_of_mentions {rule : Rule} (member : rule ∈ mapping.rules)
    {reference : ParentReference} (mentions : rule.Mentions reference) :
    ∃ index, mapping.indexOf? reference.parent = some index := by
  have named := mapping.closed reference
    (List.mem_flatMap.mpr ⟨rule, member, Rule.mem_parentReferences_iff.mpr mentions⟩)
  obtain ⟨parent, parentMember, same⟩ := List.mem_map.mp named
  obtain ⟨index, parentAt⟩ := List.getElem?_of_mem parentMember
  exact ⟨index, indexOf?_eq_some_iff.mpr ⟨parent, parentAt, same⟩⟩

theorem ofRules_eq_ok_iff {rules : List Rule} :
    Mapping.ofRules rules = .ok mapping ↔ mapping.rules = rules := by
  constructor
  · intro accepted
    unfold ofRules at accepted
    split at accepted
    · cases accepted
    · split at accepted
      · cases accepted
      · cases accepted
        rfl
  · rintro rfl
    have unique : firstRepeated? [] (mapping.rules.map Rule.iri) = none :=
      firstRepeated?_eq_none_iff.mpr ⟨mapping.distinct, fun _ _ => List.not_mem_nil⟩
    have known : (mapping.rules.flatMap Rule.parentReferences).find?
        (fun reference => reference.parent ∉ mapping.rules.map Rule.iri) = none := by
      rw [List.find?_eq_none]
      intro reference member
      simpa using mapping.closed reference member
    unfold ofRules
    split
    · next repeated =>
        rw [unique] at repeated
        cases repeated
    · split
      · next unknown =>
          rw [known] at unknown
          cases unknown
      · rfl

theorem nodup_parentPaths (mapping : Mapping) (index : Nat) :
    (mapping.parentPaths index).Nodup := by
  unfold parentPaths
  cases mapping.rules[index]? with
  | none => exact List.nodup_nil
  | some rule => exact nodup_eraseDups _

theorem mem_parentPaths_iff {index : Nat} {path : String} :
    path ∈ mapping.parentPaths index ↔ mapping.Asks index path := by
  unfold Asks parentPaths
  cases ruleAt : mapping.rules[index]? with
  | none =>
      have nowhere (iri : String) : mapping.indexOf? iri ≠ some index := by
        intro found
        obtain ⟨rule, known, _⟩ := indexOf?_eq_some_iff.mp found
        rw [ruleAt] at known
        cases known
      simp [nowhere]
  | some rule =>
      have named (iri : String) : mapping.indexOf? iri = some index ↔ iri = rule.iri := by
        rw [indexOf?_eq_some_iff, ruleAt]
        simp [eq_comm]
      unfold pathsOf
      simp only [List.mem_eraseDups, List.mem_flatMap, List.mem_filter, decide_eq_true_eq,
        Rule.mem_parentReferences_iff, named]
      constructor
      · rintro ⟨reference, ⟨⟨other, member, mentions⟩, parent⟩, asked⟩
        exact ⟨other, member, reference, mentions, parent, asked⟩
      · rintro ⟨other, member, reference, mentions, parent, asked⟩
        exact ⟨reference, ⟨⟨other, member, mentions⟩, parent⟩, asked⟩

end Mapping

end RdfMapping
