import Mathlib.Data.List.Forall2
import RdfMapping.Proofs.Mapping.References
import RdfMapping.Proofs.Outcome
import RdfMapping.Proofs.Record.Rearranged
/-!
Predicate-object maps that are taken apart. A map of several fixed predicates and several
objects may be written as one map for every predicate and every object. The rule then refers to
the same rules as before, by the same selectors, and the mapping has it at the same position.
-/

namespace RdfMapping

/-- Predicates and objects as single pairs, the objects of every predicate in their order. -/
structure Distributes (predicates : List String) (objects : List ObjectMap)
    (pairs : List (String × ObjectMap)) : Prop where
  -- without a predicate there is no pair, and so no reference to the rules of the joins
  nonempty : predicates ≠ []
  distinct : predicates.Nodup
  among : ∀ pair ∈ pairs, pair.1 ∈ predicates
  under : ∀ predicate ∈ predicates, (pairs.filter (·.1 = predicate)).map Prod.snd = objects

theorem flatMap_ite_eq {β : Type} {keys : List String} (distinct : keys.Nodup) (wanted : String)
    (made : String → List β) :
    (keys.flatMap fun key => if key = wanted then made key else []) =
      if wanted ∈ keys then made wanted else [] := by
  induction keys with
  | nil => rfl
  | cons key rest ih =>
      obtain ⟨fresh, later⟩ := List.nodup_cons.mp distinct
      rw [List.flatMap_cons, ih later]
      by_cases here : key = wanted
      · subst here
        rw [if_pos rfl, if_neg fresh, if_pos List.mem_cons_self, List.append_nil]
      · rw [if_neg here, List.nil_append]
        simp only [List.mem_cons, Ne.symm here, false_or]

theorem flatMap_filter_eq {α β : Type} (key : α → String) (wanted : String) (made : α → List β)
    (items : List α) :
    (items.flatMap fun a => if key a = wanted then made a else []) =
      (items.filter (key · = wanted)).flatMap made := by
  induction items with
  | nil => rfl
  | cons a rest ih =>
      rw [List.flatMap_cons, List.filter_cons, ih]
      by_cases here : key a = wanted
      · rw [if_pos here, if_pos (decide_eq_true here), List.flatMap_cons]
      · rw [if_neg here, if_neg (by simpa using here), List.nil_append]

namespace Distributes

variable {predicates : List String} {objects : List ObjectMap} {pairs : List (String × ObjectMap)}
  (distributes : Distributes predicates objects pairs)
include distributes

theorem exists_pair_iff {object : ObjectMap} :
    object ∈ objects ↔ ∃ pair ∈ pairs, pair.2 = object := by
  constructor
  · intro member
    obtain ⟨predicate, first⟩ := List.exists_mem_of_ne_nil predicates distributes.nonempty
    rw [← distributes.under predicate first] at member
    obtain ⟨pair, inside, same⟩ := List.mem_map.mp member
    exact ⟨pair, (List.mem_filter.mp inside).1, same⟩
  · rintro ⟨pair, member, rfl⟩
    rw [← distributes.under pair.1 (distributes.among pair member)]
    exact List.mem_map_of_mem (List.mem_filter.mpr ⟨member, decide_eq_true rfl⟩)

/-- Whatever is made of every predicate with every object, the pairs make the same of each
predicate. -/
theorem sameByKey {β : Type} {key : β → String} (made : String → ObjectMap → List β)
    (keyed : ∀ predicate object, ∀ b ∈ made predicate object, key b = predicate) :
    SameByKey key (objects.flatMap fun object => predicates.flatMap (made · object))
      (pairs.flatMap fun pair => made pair.1 pair.2) := by
  intro wanted
  have kept (predicate : String) (object : ObjectMap) :
      (made predicate object).filter (key · = wanted) =
        if predicate = wanted then made predicate object else [] := by
    split
    · next same =>
        rw [List.filter_eq_self]
        intro b member
        rw [decide_eq_true_eq, keyed predicate object b member, same]
    · next other =>
        rw [List.filter_eq_nil_iff]
        intro b member
        rw [decide_eq_true_eq, keyed predicate object b member]
        exact other
  simp only [List.filter_flatMap, kept, flatMap_ite_eq distributes.distinct]
  rw [flatMap_filter_eq Prod.fst wanted]
  by_cases member : wanted ∈ predicates
  · simp only [if_pos member]
    rw [← distributes.under wanted member, List.flatMap_map]
    refine List.flatMap_congr fun pair inside => ?_
    rw [of_decide_eq_true (List.mem_filter.mp inside).2]
  · have none : pairs.filter (·.1 = wanted) = [] := by
      rw [List.filter_eq_nil_iff]
      intro pair inside same
      exact member (of_decide_eq_true same ▸ distributes.among pair inside)
    rw [none, List.flatMap_nil, List.flatMap_eq_nil_iff]
    intro object _
    exact if_neg member

end Distributes

def PredicateObjectMap.single (pair : String × ObjectMap) : PredicateObjectMap :=
  ⟨[.constant pair.1], [pair.2]⟩

/-- Maps of which some have been taken apart. -/
inductive MapsDistributed : List PredicateObjectMap → List PredicateObjectMap → Prop
  | nil : MapsDistributed [] []
  | same (pom : PredicateObjectMap) {maps others : List PredicateObjectMap} :
      MapsDistributed maps others → MapsDistributed (pom :: maps) (pom :: others)
  | apart {predicates : List String} {objects : List ObjectMap}
      {pairs : List (String × ObjectMap)} {maps others : List PredicateObjectMap} :
      Distributes predicates objects pairs → MapsDistributed maps others →
      MapsDistributed (⟨predicates.map .constant, objects⟩ :: maps)
        (pairs.map PredicateObjectMap.single ++ others)

namespace MapsDistributed

theorem refl (maps : List PredicateObjectMap) : MapsDistributed maps maps := by
  induction maps with
  | nil => exact .nil
  | cons pom rest ih => exact .same pom ih

theorem of_split {predicates : List String} {objects : List ObjectMap}
    {pairs : List (String × ObjectMap)} (distributes : Distributes predicates objects pairs)
    (first last : List PredicateObjectMap) :
    MapsDistributed (first ++ ⟨predicates.map .constant, objects⟩ :: last)
      (first ++ pairs.map PredicateObjectMap.single ++ last) := by
  rw [List.append_assoc]
  induction first with
  | nil => exact .apart distributes (refl last)
  | cons pom rest ih => exact .same pom ih

theorem mem_objects_iff {maps others : List PredicateObjectMap}
    (distributed : MapsDistributed maps others) {object : ObjectMap} :
    object ∈ maps.flatMap PredicateObjectMap.objects ↔
      object ∈ others.flatMap PredicateObjectMap.objects := by
  induction distributed with
  | nil => exact Iff.rfl
  | same pom _ ih => rw [List.flatMap_cons, List.flatMap_cons, List.mem_append, List.mem_append, ih]
  | @apart predicates objects pairs maps others distributes _ ih =>
      have singles : (pairs.map PredicateObjectMap.single).flatMap PredicateObjectMap.objects =
          pairs.map Prod.snd := by
        rw [List.flatMap_map, List.map_eq_flatMap]
        rfl
      rw [List.flatMap_cons, List.flatMap_append, List.mem_append, List.mem_append, ih, singles,
        List.mem_map, distributes.exists_pair_iff]

end MapsDistributed

/-! ### Rules -/

namespace Rule

section

variable {rule other : Rule} (subject : rule.subject = other.subject)
  (more : ∀ object ∈ rule.predicateObjectMaps.flatMap PredicateObjectMap.objects,
    object ∈ other.predicateObjectMaps.flatMap PredicateObjectMap.objects)
include subject more

theorem Calls.of_objects {call : FunctionCall} (calls : rule.Calls call) : other.Calls call := by
  cases calls with
  | subject kind => exact .subject (subject ▸ kind)
  | classes given => exact .classes (subject ▸ given)
  | object pomOf objectOf kind =>
      obtain ⟨pom, pomMember, inside⟩ :=
        List.mem_flatMap.mp (more _ (List.mem_flatMap.mpr ⟨_, pomOf, objectOf⟩))
      exact .object pomMember inside kind

theorem Mentions.of_objects {reference : ParentReference} (mentions : rule.Mentions reference) :
    other.Mentions reference := by
  cases mentions with
  | join pomOf objectOf kind =>
      obtain ⟨pom, pomMember, inside⟩ :=
        List.mem_flatMap.mp (more _ (List.mem_flatMap.mpr ⟨_, pomOf, objectOf⟩))
      exact .join pomMember inside kind
  | call calls within => exact .call (calls.of_objects subject more) within

end

/-- The rule with some of its maps taken apart. -/
inductive Distributed (rule : Rule) : Rule → Prop
  | of_maps {maps : List PredicateObjectMap} :
      MapsDistributed rule.predicateObjectMaps maps →
      rule.Distributed { rule with predicateObjectMaps := maps }

theorem Distributed.refl (rule : Rule) : rule.Distributed rule :=
  .of_maps (.refl rule.predicateObjectMaps)

section

variable {rule other : Rule} (distributed : rule.Distributed other)
include distributed

theorem Distributed.iri_eq : rule.iri = other.iri := by
  cases distributed
  rfl

theorem Distributed.subject_eq : rule.subject = other.subject := by
  cases distributed
  rfl

theorem Distributed.mem_objects_iff {object : ObjectMap} :
    object ∈ rule.predicateObjectMaps.flatMap PredicateObjectMap.objects ↔
      object ∈ other.predicateObjectMaps.flatMap PredicateObjectMap.objects := by
  cases distributed with
  | of_maps maps => exact maps.mem_objects_iff

theorem Distributed.mentions_iff {reference : ParentReference} :
    rule.Mentions reference ↔ other.Mentions reference := by
  constructor
  · exact .of_objects distributed.subject_eq fun _ => distributed.mem_objects_iff.mp
  · exact .of_objects distributed.subject_eq.symm fun _ => distributed.mem_objects_iff.mpr

end

end Rule

/-! ### Mappings -/

namespace Mapping

theorem map_iri_of_distributed {rules others : List Rule}
    (distributed : List.Forall₂ Rule.Distributed rules others) :
    rules.map Rule.iri = others.map Rule.iri := by
  induction distributed with
  | nil => rfl
  | cons first _ ih => rw [List.map_cons, List.map_cons, first.iri_eq, ih]

theorem exists_ofRules_of_distributed {mapping : Mapping} {rules : List Rule}
    (distributed : List.Forall₂ Rule.Distributed mapping.rules rules) :
    ∃ other, Mapping.ofRules rules = .ok other := by
  have names := map_iri_of_distributed distributed
  let other : Mapping :=
    { rules
      distinct := names ▸ mapping.distinct
      closed := by
        intro reference member
        obtain ⟨rule, ruleOf, mentioned⟩ := List.mem_flatMap.mp member
        obtain ⟨former, formerOf, same⟩ := Outcome.exists_of_mem_right distributed ruleOf
        rw [← names]
        apply mapping.closed
        refine List.mem_flatMap.mpr ⟨former, formerOf, ?_⟩
        rw [Rule.mem_parentReferences_iff] at mentioned ⊢
        exact same.mentions_iff.mpr mentioned }
  exact ⟨other, ofRules_eq_ok_iff.mpr rfl⟩

section

variable {mapping other : Mapping}
  (distributed : List.Forall₂ Rule.Distributed mapping.rules other.rules)
include distributed

theorem indexOf?_of_distributed (iri : String) : mapping.indexOf? iri = other.indexOf? iri := by
  have byName (mapping : Mapping) :
      mapping.indexOf? iri = (mapping.rules.map Rule.iri).findIdx? (· = iri) := by
    rw [List.findIdx?_map]
    rfl
  rw [byName, byName, map_iri_of_distributed distributed]

theorem requireIndex_of_distributed (iri : String) :
    mapping.requireIndex iri = other.requireIndex iri := by
  unfold requireIndex
  rw [indexOf?_of_distributed distributed]

theorem mem_parentPaths_of_distributed (index : Nat) (path : String) :
    path ∈ mapping.parentPaths index ↔ path ∈ other.parentPaths index := by
  rw [Mapping.mem_parentPaths_iff, Mapping.mem_parentPaths_iff]
  unfold Asks
  simp only [indexOf?_of_distributed distributed]
  constructor
  · rintro ⟨rule, member, reference, mentions, asked⟩
    obtain ⟨further, furtherOf, same⟩ := Outcome.exists_of_mem_left distributed member
    exact ⟨further, furtherOf, reference, same.mentions_iff.mp mentions, asked⟩
  · rintro ⟨rule, member, reference, mentions, asked⟩
    obtain ⟨former, formerOf, same⟩ := Outcome.exists_of_mem_right distributed member
    exact ⟨former, formerOf, reference, same.mentions_iff.mpr mentions, asked⟩

end

end Mapping

end RdfMapping
