import Mathlib.Data.List.Nodup
import RdfMapping.Proofs.Json.Location
/-!
Document order. A node comes before the nodes below it, and all of them before the next member
or element. Steps that go one link further keep this order, and never come to a location twice.
A descendant step takes such a step at every depth: it keeps locations apart, but what it takes
from a node comes before what it takes from the nodes below.
-/

namespace RdfMapping

/-- One link comes before another one of the same node: members in the order of their names,
elements in that of their positions. -/
def JsonKey.Precedes : JsonKey → JsonKey → Prop
  | .member name, .member other => name < other
  | .index position, .index other => position < other
  | _, _ => False

theorem JsonKey.Precedes.irrefl (key : JsonKey) : ¬ key.Precedes key := by
  cases key with
  | member name => exact String.lt_irrefl name
  | index position => exact Nat.lt_irrefl position

namespace JsonLocation

/-- Locations in document order: the first links that differ decide, and what stands above comes
first. -/
def Before (first second : JsonLocation) : Prop := List.Lex JsonKey.Precedes first second

variable {first second : JsonLocation}

theorem Before.ne (before : first.Before second) : first ≠ second := by
  rintro rfl
  exact List.lex_irrefl JsonKey.Precedes.irrefl first before

theorem Before.asymm (before : first.Before second) : ¬ second.Before first := by
  apply List.lex_asymm ?_ before
  intro key other precedes
  cases key with
  | member name =>
      cases other with
      | member other => exact String.lt_asymm precedes
      | index position => cases precedes
  | index position =>
      cases other with
      | member name => cases precedes
      | index other => exact Nat.lt_asymm precedes

theorem Before.append_left (before : first.Before second) (start : JsonLocation) :
    Before (start ++ first) (start ++ second) := by
  induction start with
  | nil => exact before
  | cons key rest ih => exact .cons ih

theorem before_of_link {key other : JsonKey} (precedes : key.Precedes other)
    (location one two : JsonLocation) :
    Before (location ++ key :: one) (location ++ other :: two) :=
  Before.append_left (.rel precedes) location

theorem before_below (location : JsonLocation) (key : JsonKey) (way : JsonLocation) :
    Before location (location ++ key :: way) := by
  have start : JsonLocation.Before [] (key :: way) := .nil
  have above := start.append_left location
  rw [List.append_nil] at above
  exact above

/-- What stands below nodes of one depth is in the order of these nodes. -/
theorem Before.extend (before : first.Before second) (level : first.length = second.length)
    (one two : JsonLocation) : Before (first ++ one) (second ++ two) := by
  unfold Before at before
  induction before with
  | nil => cases level
  | rel precedes => exact .rel precedes
  | cons _ ih => exact .cons (ih (Nat.succ.inj level))

end JsonLocation

def JsonStep.deep? : JsonStep → Option JsonStep
  | .descendant name => some (.field name)
  | .descendantWildcard => some .wildcard
  | _ => none

namespace JsonHit

open JsonLocation (before_of_link before_below)

def InDocumentOrder (hits : List JsonHit) : Prop :=
  hits.Pairwise fun first second => first.1.Before second.1

def Distinct (hits : List JsonHit) : Prop := (hits.map Prod.fst).Nodup

theorem distinct_iff {hits : List JsonHit} :
    Distinct hits ↔ hits.Pairwise fun first second => first.1 ≠ second.1 := List.pairwise_map

theorem InDocumentOrder.distinct {hits : List JsonHit} (ordered : InDocumentOrder hits) :
    Distinct hits :=
  distinct_iff.mpr (ordered.imp fun before => before.ne)

/-! ### One link further -/

theorem inDocumentOrder_elementsFrom (location : JsonLocation) (start : Nat)
    (elements : List Json) : InDocumentOrder (elementsFrom location start elements) := by
  induction elements generalizing start with
  | nil => exact List.Pairwise.nil
  | cons element rest ih =>
      refine List.pairwise_cons.mpr ⟨?_, ih (start + 1)⟩
      intro found later
      obtain ⟨position, _, located⟩ := of_mem_elementsFrom later
      rw [located]
      apply before_of_link
      change start < start + 1 + position
      omega

theorem inDocumentOrder_children {hit : JsonHit} (tabled : hit.2.Tabled) :
    InDocumentOrder hit.children := by
  obtain ⟨location, value⟩ := hit
  cases tabled with
  | array inside => exact inDocumentOrder_elementsFrom location 0 _
  | object sorted inside =>
      refine List.pairwise_map.mpr (sorted.imp ?_)
      intro left right before
      have precedes : JsonKey.Precedes (.member left.1) (.member right.1) := before
      exact before_of_link precedes location [] []
  | _ => exact List.Pairwise.nil

theorem inDocumentOrder_of_length {hits : List JsonHit} (few : hits.length ≤ 1) :
    InDocumentOrder hits := by
  match hits, few with
  | [], _ => exact List.Pairwise.nil
  | [hit], _ => exact List.pairwise_singleton _ hit

theorem inDocumentOrder_step {step : JsonStep} (plain : step.deep? = none) {hit : JsonHit}
    (tabled : hit.2.Tabled) : InDocumentOrder (hit.step step) := by
  cases step with
  | field name =>
      apply inDocumentOrder_of_length
      change (hit.field name).length ≤ 1
      unfold field
      split
      · exact Nat.le_refl 1
      · exact Nat.zero_le 1
  | index position =>
      apply inDocumentOrder_of_length
      change (hit.element position).length ≤ 1
      unfold element
      split
      · split
        · rw [Option.length_toList]
          split
          · exact Nat.le_refl 1
          · exact Nat.zero_le 1
        · exact Nat.zero_le 1
      · exact Nat.zero_le 1
  | wildcard => exact inDocumentOrder_children tabled
  | descendant name => cases plain
  | descendantWildcard => cases plain

theorem exists_key_of_mem_step {step : JsonStep} (plain : step.deep? = none) {hit found : JsonHit}
    (member : found ∈ hit.step step) : ∃ key, found.1 = hit.1 ++ [key] := by
  cases step with
  | field name =>
      change found ∈ hit.field name at member
      unfold field at member
      split at member
      · rw [List.mem_singleton.mp member]
        exact ⟨_, rfl⟩
      · cases member
  | index position =>
      change found ∈ hit.element position at member
      unfold element at member
      split at member
      · split at member
        · obtain ⟨value, _, rfl⟩ := Option.map_eq_some_iff.mp (Option.mem_toList.mp member)
          exact ⟨_, rfl⟩
        · cases member
      · cases member
  | wildcard =>
      change found ∈ hit.children at member
      unfold children at member
      split at member
      · obtain ⟨entry, _, rfl⟩ := List.mem_map.mp member
        exact ⟨_, rfl⟩
      · obtain ⟨position, _, located⟩ := of_mem_elementsFrom member
        exact ⟨_, located⟩
      · cases member
  | descendant name => cases plain
  | descendantWildcard => cases plain

/-! ### Nodes of one depth -/

theorem InDocumentOrder.flatMap {hits : List JsonHit} (ordered : InDocumentOrder hits)
    {depth : Nat} (level : ∀ hit ∈ hits, hit.1.length = depth) {further : JsonHit → List JsonHit}
    (each : ∀ hit ∈ hits, InDocumentOrder (further hit))
    (below : ∀ hit ∈ hits, ∀ found ∈ further hit, ∃ way, found.1 = hit.1 ++ way) :
    InDocumentOrder (hits.flatMap further) := by
  refine List.pairwise_flatMap.mpr ⟨each, ?_⟩
  refine ordered.imp_of_mem ?_
  intro first second member alsoMember before one oneFound two twoFound
  obtain ⟨way, located⟩ := below first member one oneFound
  obtain ⟨other, alsoLocated⟩ := below second alsoMember two twoFound
  rw [located, alsoLocated]
  exact before.extend ((level first member).trans (level second alsoMember).symm) way other

theorem selectFrom_plain {steps : List JsonStep} (plain : ∀ step ∈ steps, step.deep? = none)
    (hit : JsonHit) (tabled : hit.2.Tabled) :
    InDocumentOrder (JsonPath.selectFrom ⟨steps⟩ hit) ∧
      ∀ found ∈ JsonPath.selectFrom ⟨steps⟩ hit,
        found.1.length = hit.1.length + steps.length := by
  induction steps generalizing hit with
  | nil =>
      refine ⟨List.pairwise_singleton _ hit, ?_⟩
      intro found member
      rw [List.mem_singleton.mp member]
      rfl
  | cons step rest ih =>
      obtain ⟨here, later⟩ := List.forall_mem_cons.mp plain
      have level : ∀ next ∈ hit.step step, next.1.length = hit.1.length + 1 := by
        intro next stepped
        obtain ⟨key, located⟩ := exists_key_of_mem_step here stepped
        rw [located, List.length_append, List.length_singleton]
      have inside : ∀ next ∈ hit.step step, next.2.Tabled := fun next stepped =>
        (below_of_mem_step tabled stepped).tabled tabled
      rw [selectFrom_cons]
      constructor
      · apply (inDocumentOrder_step here tabled).flatMap level
        · exact fun next stepped => (ih later next (inside next stepped)).1
        · intro next stepped found member
          obtain ⟨way, located, _⟩ := below_of_mem_selectFrom (inside next stepped) member
          exact ⟨way, located⟩
      · intro found member
        obtain ⟨next, stepped, further⟩ := List.mem_flatMap.mp member
        rw [(ih later next (inside next stepped)).2 found further, level next stepped,
          List.length_cons]
        omega

/-! ### Nodes at any depth -/

mutual

theorem inDocumentOrder_selfAndDescendants (location : JsonLocation) (value : Json)
    (tabled : value.Tabled) : InDocumentOrder (selfAndDescendants location value) := by
  cases value with
  | array elements =>
      cases tabled with
      | array inside =>
          rw [selfAndDescendants]
          refine List.pairwise_cons.mpr ⟨?_, inDocumentOrder_elements location 0 elements inside⟩
          intro found member
          obtain ⟨position, _, _, way, located, _⟩ :=
            below_of_mem_elements location 0 elements inside member
          rw [located, List.append_assoc]
          exact before_below location _ way
  | object members =>
      cases tabled with
      | object sorted inside =>
          rw [selfAndDescendants]
          refine List.pairwise_cons.mpr
            ⟨?_, inDocumentOrder_members location members sorted inside⟩
          intro found member
          obtain ⟨entry, _, way, located, _⟩ :=
            below_of_mem_members location members inside member
          rw [located, List.append_assoc]
          exact before_below location _ way
  | _ =>
      rw [selfAndDescendants]
      · exact List.pairwise_singleton _ _
      all_goals exact nofun

theorem inDocumentOrder_elements (location : JsonLocation) (start : Nat) (elements : List Json)
    (tabled : ∀ element ∈ elements, element.Tabled) :
    InDocumentOrder (descendantsOfElements location start elements) := by
  cases elements with
  | nil =>
      rw [descendantsOfElements]
      exact List.Pairwise.nil
  | cons element rest =>
      obtain ⟨here, later⟩ := List.forall_mem_cons.mp tabled
      rw [descendantsOfElements]
      refine List.pairwise_append.mpr ⟨inDocumentOrder_selfAndDescendants _ element here,
        inDocumentOrder_elements location (start + 1) rest later, ?_⟩
      intro first member second alsoMember
      obtain ⟨way, located, _⟩ := below_of_mem_selfAndDescendants _ element here member
      obtain ⟨position, _, _, other, alsoLocated, _⟩ :=
        below_of_mem_elements location (start + 1) rest later alsoMember
      rw [located, alsoLocated, List.append_assoc, List.append_assoc]
      apply before_of_link
      change start < start + 1 + position
      omega

theorem inDocumentOrder_members (location : JsonLocation) (members : List (String × Json))
    (sorted : Table.Sorted members) (tabled : ∀ entry ∈ members, entry.2.Tabled) :
    InDocumentOrder (descendantsOfMembers location members) := by
  cases members with
  | nil =>
      rw [descendantsOfMembers]
      exact List.Pairwise.nil
  | cons entry rest =>
      obtain ⟨name, value⟩ := entry
      obtain ⟨here, later⟩ := List.forall_mem_cons.mp tabled
      obtain ⟨before, sortedLater⟩ := List.pairwise_cons.mp sorted
      rw [descendantsOfMembers]
      refine List.pairwise_append.mpr ⟨inDocumentOrder_selfAndDescendants _ value here,
        inDocumentOrder_members location rest sortedLater later, ?_⟩
      intro first member second alsoMember
      obtain ⟨way, located, _⟩ := below_of_mem_selfAndDescendants _ value here member
      obtain ⟨next, inRest, other, alsoLocated, _⟩ :=
        below_of_mem_members location rest later alsoMember
      rw [located, alsoLocated, List.append_assoc, List.append_assoc]
      have precedes : JsonKey.Precedes (.member name) (.member next.1) := before next inRest
      exact before_of_link precedes location way other

end

/-! ### Locations that are kept apart -/

theorem Distinct.flatMap_step {hits : List JsonHit} (distinct : Distinct hits)
    (tabled : ∀ hit ∈ hits, hit.2.Tabled) {step : JsonStep} (plain : step.deep? = none) :
    Distinct (hits.flatMap (·.step step)) := by
  refine distinct_iff.mpr (List.pairwise_flatMap.mpr ⟨?_, ?_⟩)
  · intro hit member
    exact distinct_iff.mp (inDocumentOrder_step plain (tabled hit member)).distinct
  · refine (distinct_iff.mp distinct).imp ?_
    intro first second apart one oneFound two twoFound same
    obtain ⟨key, located⟩ := exists_key_of_mem_step plain oneFound
    obtain ⟨other, alsoLocated⟩ := exists_key_of_mem_step plain twoFound
    rw [located, alsoLocated] at same
    exact apart (List.append_inj' same rfl).1

theorem Distinct.flatMap_selectFrom {hits : List JsonHit} (distinct : Distinct hits)
    (tabled : ∀ hit ∈ hits, hit.2.Tabled) {steps : List JsonStep}
    (plain : ∀ step ∈ steps, step.deep? = none) :
    Distinct (hits.flatMap (JsonPath.selectFrom ⟨steps⟩)) := by
  induction steps generalizing hits with
  | nil =>
      rw [show JsonPath.selectFrom ⟨[]⟩ = fun hit => [hit] from rfl, List.flatMap_singleton']
      exact distinct
  | cons step rest ih =>
      obtain ⟨here, later⟩ := List.forall_mem_cons.mp plain
      have goesOn : JsonPath.selectFrom ⟨step :: rest⟩ =
          fun hit => (hit.step step).flatMap (JsonPath.selectFrom ⟨rest⟩) :=
        funext (selectFrom_cons step rest)
      rw [goesOn, ← List.flatMap_assoc]
      refine ih (distinct.flatMap_step tabled here) ?_ later
      intro found member
      obtain ⟨hit, hitMember, stepped⟩ := List.mem_flatMap.mp member
      exact (below_of_mem_step (tabled hit hitMember) stepped).tabled (tabled hit hitMember)

theorem step_of_deep {step inner : JsonStep} (deep : step.deep? = some inner) (hit : JsonHit) :
    hit.step step = (selfAndDescendants hit.1 hit.2).flatMap (·.step inner) := by
  cases step with
  | descendant name =>
      cases deep
      rfl
  | descendantWildcard =>
      cases deep
      rfl
  | _ => cases deep

theorem plain_of_deep {step inner : JsonStep} (deep : step.deep? = some inner) :
    inner.deep? = none := by
  cases step with
  | descendant name =>
      cases deep
      rfl
  | descendantWildcard =>
      cases deep
      rfl
  | _ => cases deep

/-- One descendant step keeps the locations apart. -/
theorem distinct_select_of_single {root : Json} (tabled : root.Tabled)
    {before after : List JsonStep} {step inner : JsonStep} (deep : step.deep? = some inner)
    (plain : ∀ step ∈ before, step.deep? = none) (plainAfter : ∀ step ∈ after, step.deep? = none) :
    Distinct (JsonPath.select ⟨before ++ step :: after⟩ root) := by
  obtain ⟨ordered, level⟩ := selectFrom_plain plain ([], root) tabled
  have inside : ∀ hit ∈ JsonPath.selectFrom ⟨before⟩ ([], root), hit.2.Tabled :=
    fun hit member => (below_of_mem_selectFrom tabled member).tabled tabled
  have insideNodes : ∀ node ∈ (JsonPath.selectFrom ⟨before⟩ ([], root)).flatMap
      (fun hit => selfAndDescendants hit.1 hit.2), node.2.Tabled := by
    intro node member
    obtain ⟨hit, hitMember, below⟩ := List.mem_flatMap.mp member
    exact (below_of_mem_selfAndDescendants _ _ (inside hit hitMember) below).tabled
      (inside hit hitMember)
  have nodes : InDocumentOrder ((JsonPath.selectFrom ⟨before⟩ ([], root)).flatMap
      (fun hit => selfAndDescendants hit.1 hit.2)) := by
    apply ordered.flatMap level
    · exact fun hit member => inDocumentOrder_selfAndDescendants hit.1 hit.2 (inside hit member)
    · intro hit member found below
      obtain ⟨way, located, _⟩ := below_of_mem_selfAndDescendants _ _ (inside hit member) below
      exact ⟨way, located⟩
  have stepped := nodes.distinct.flatMap_step insideNodes (plain_of_deep deep)
  have goesOn : JsonPath.selectFrom ⟨step :: after⟩ = fun hit =>
      ((selfAndDescendants hit.1 hit.2).flatMap (·.step inner)).flatMap
        (JsonPath.selectFrom ⟨after⟩) := by
    funext hit
    rw [selectFrom_cons, step_of_deep deep]
  rw [JsonPath.select, selectFrom_append, goesOn, ← List.flatMap_assoc, ← List.flatMap_assoc]
  refine stepped.flatMap_selectFrom ?_ plainAfter
  intro found member
  obtain ⟨node, nodeMember, here⟩ := List.mem_flatMap.mp member
  exact (below_of_mem_step (insideNodes node nodeMember) here).tabled (insideNodes node nodeMember)

end JsonHit

end RdfMapping
