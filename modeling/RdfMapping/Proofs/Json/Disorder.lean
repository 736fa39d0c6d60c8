import Mathlib.Data.List.Flatten
import RdfMapping.Proofs.Json.DocumentOrder
import RdfMapping.Proofs.Json.Spelling
/-!
Descendant steps against document order. At each node a descendant step takes what it looks for
among the children before it goes below them, and so there are documents in which a deeper node
comes too late; with a second such step there are documents in which one location comes twice.
Expressions are in document order exactly if they have no descendant step, and never give a
location twice exactly if they have at most one.
-/

namespace RdfMapping

/-! ### Documents in which steps lead to a value -/

namespace JsonStep

def key : JsonStep → JsonKey
  | .field name | .descendant name => .member name
  | .index position => .index position.toNat
  | .wildcard | .descendantWildcard => .member ""

def leadTo (value : Json) : JsonStep → Json
  | .field name | .descendant name => .object [(name, value)]
  | .index position =>
      .array (List.replicate position.toNat .null ++
        value :: List.replicate (-position - 1).toNat .null)
  | .wildcard | .descendantWildcard => .object [("", value)]

/-- A step that takes the member of a name from an object that has one. -/
def Takes (step : JsonStep) (name : String) : Prop := step = .field name ∨ step = .wildcard

end JsonStep

def JsonPath.leadTo (steps : List JsonStep) (value : Json) : Json :=
  steps.foldr (fun step value => step.leadTo value) value

namespace Json

theorem tabled_singleton {name : String} {value : Json} (tabled : value.Tabled) :
    (Json.object [(name, value)]).Tabled :=
  .object (List.pairwise_singleton _ _) (List.forall_mem_singleton.mpr tabled)

theorem Tabled.leadTo_step {value : Json} (tabled : value.Tabled) (step : JsonStep) :
    (step.leadTo value).Tabled := by
  cases step with
  | field name => exact tabled_singleton tabled
  | descendant name => exact tabled_singleton tabled
  | wildcard => exact tabled_singleton tabled
  | descendantWildcard => exact tabled_singleton tabled
  | index position =>
      have nulls (count : Nat) : ∀ element ∈ List.replicate count Json.null, element.Tabled := by
        intro element member
        rw [List.eq_of_mem_replicate member]
        exact .null
      exact .array (List.forall_mem_append.mpr
        ⟨nulls _, List.forall_mem_cons.mpr ⟨tabled, nulls _⟩⟩)

theorem Tabled.leadTo {value : Json} (tabled : value.Tabled) (steps : List JsonStep) :
    (JsonPath.leadTo steps value).Tabled := by
  induction steps with
  | nil => exact tabled
  | cons step rest ih => exact ih.leadTo_step step

end Json

namespace JsonHit

open JsonLocation (before_of_link)

/-! ### Documents out of order -/

theorem mem_step_leadTo (location : JsonLocation) (value : Json) (step : JsonStep) :
    (location ++ [step.key], value) ∈ JsonHit.step (location, step.leadTo value) step := by
  have member (name : String) :
      (location ++ [.member name], value) ∈ field name (location, .object [(name, value)]) := by
    have found : (Json.object [(name, value)]).member? name = some value := by
      rw [Json.member?, Table.get?, if_pos rfl]
    rw [field, found]
    exact List.mem_cons_self
  have itself (value : Json) : (location, value) ∈ selfAndDescendants location value := by
    obtain ⟨deeper, listed⟩ := exists_selfAndDescendants_eq location value
    rw [listed]
    exact List.mem_cons_self
  cases step with
  | field name => exact member name
  | wildcard => exact List.mem_cons_self
  | descendant name => exact List.mem_flatMap.mpr ⟨_, itself _, member name⟩
  | descendantWildcard => exact List.mem_flatMap.mpr ⟨_, itself _, List.mem_cons_self⟩
  | index position =>
      have resolved : resolveIndex? position (List.replicate position.toNat Json.null ++
          value :: List.replicate (-position - 1).toNat Json.null).length =
            some position.toNat := by
        rw [List.length_append, List.length_cons, List.length_replicate, List.length_replicate]
        unfold resolveIndex?
        by_cases negative : position < 0
        · simp only [if_pos negative]
          rw [if_pos (by omega)]
          congr 1
          omega
        · simp only [if_neg negative]
          rw [if_pos (by omega)]
      unfold JsonHit.step element
      simp only [JsonStep.leadTo, resolved]
      rw [List.getElem?_append_right (Nat.le_of_eq List.length_replicate), List.length_replicate,
        Nat.sub_self]
      exact List.mem_cons_self

theorem mem_selectFrom_leadTo (location : JsonLocation) (value : Json) (steps : List JsonStep) :
    (location ++ steps.map JsonStep.key, value) ∈
      JsonPath.selectFrom ⟨steps⟩ (location, JsonPath.leadTo steps value) := by
  induction steps generalizing location with
  | nil =>
      rw [List.map_nil, List.append_nil]
      exact List.mem_cons_self
  | cons step rest ih =>
      rw [selectFrom_cons]
      refine List.mem_flatMap.mpr ⟨_, mem_step_leadTo location _ step, ?_⟩
      have further := ih (location ++ [step.key])
      rw [List.append_assoc] at further
      exact further

theorem mem_step_of_takes {step : JsonStep} {name : String} (takes : step.Takes name)
    {members : List (String × Json)} (sorted : Table.Sorted members) {value : Json}
    (member : (name, value) ∈ members) (location : JsonLocation) :
    (location ++ [.member name], value) ∈ JsonHit.step (location, .object members) step := by
  rcases takes with rfl | rfl
  · have found : (Json.object members).member? name = some value :=
      (Table.get?_eq_some_iff sorted).mpr member
    change _ ∈ field name _
    rw [field, found]
    exact List.mem_cons_self
  · exact List.mem_map.mpr ⟨(name, value), member, rfl⟩

theorem exists_takes_of_deep {step inner : JsonStep} (deep : step.deep? = some inner) :
    ∃ name, inner.Takes name ∧ (step ≠ .descendant "" → name ≠ "") := by
  cases step with
  | descendant name =>
      cases deep
      refine ⟨name, .inl rfl, ?_⟩
      rintro named rfl
      exact named rfl
  | descendantWildcard =>
      cases deep
      exact ⟨"below", .inr rfl, fun _ => by decide⟩
  | _ => cases deep

theorem mem_step_of_deep {step inner : JsonStep} (deep : step.deep? = some inner)
    {hit node found : JsonHit} (tabled : hit.2.Tabled) (below : hit.Below node)
    (taken : found ∈ node.step inner) : found ∈ hit.step step := by
  rw [step_of_deep deep]
  exact List.mem_flatMap.mpr ⟨node, (mem_selfAndDescendants_iff hit.1 tabled).mpr below, taken⟩

theorem sublist_step_of_deep {step inner : JsonStep} (deep : step.deep? = some inner)
    {hit middle first second : JsonHit} (tabled : hit.2.Tabled) (below : hit.Below middle)
    (apart : middle ≠ hit) (taken : first ∈ hit.step inner)
    (alsoTaken : second ∈ middle.step inner) : [first, second].Sublist (hit.step step) := by
  obtain ⟨deeper, listed⟩ := exists_selfAndDescendants_eq hit.1 hit.2
  have inside := (mem_selfAndDescendants_iff hit.1 tabled).mpr below
  rw [listed] at inside
  have later : second ∈ deeper.flatMap (JsonHit.step · inner) :=
    List.mem_flatMap.mpr ⟨middle, (List.mem_cons.mp inside).resolve_left apart, alsoTaken⟩
  rw [step_of_deep deep, listed, List.flatMap_cons]
  exact (List.singleton_sublist.mpr taken).append (List.singleton_sublist.mpr later)

theorem sublist_flatMap {hits : List JsonHit} {further : JsonHit → List JsonHit}
    {first second one two : JsonHit} (sub : [first, second].Sublist hits)
    (goesOn : one ∈ further first) (alsoGoesOn : two ∈ further second) :
    [one, two].Sublist (hits.flatMap further) := by
  have spread := sub.flatMap further
  rw [List.flatMap_cons, List.flatMap_singleton] at spread
  exact ((List.singleton_sublist.mpr goesOn).append (List.singleton_sublist.mpr alsoGoesOn)).trans
    spread

theorem sublist_flatMap_of_mem {hits : List JsonHit} {further : JsonHit → List JsonHit}
    {hit : JsonHit} (member : hit ∈ hits) {found : List JsonHit}
    (sub : found.Sublist (further hit)) : found.Sublist (hits.flatMap further) := by
  have spread := (List.singleton_sublist.mpr member).flatMap further
  rw [List.flatMap_singleton] at spread
  exact sub.trans spread

theorem mem_selectFrom_of_step {before after : List JsonStep} {step : JsonStep} {value : Json}
    {location : JsonLocation} {next found : JsonHit}
    (taken : next ∈ JsonHit.step (location ++ before.map JsonStep.key, value) step)
    (goesOn : found ∈ JsonPath.selectFrom ⟨after⟩ next) :
    found ∈ JsonPath.selectFrom ⟨before ++ step :: after⟩
      (location, JsonPath.leadTo before value) := by
  rw [selectFrom_append]
  refine List.mem_flatMap.mpr ⟨_, mem_selectFrom_leadTo location value before, ?_⟩
  rw [selectFrom_cons]
  exact List.mem_flatMap.mpr ⟨next, taken, goesOn⟩

/-- Two nodes that a descendant step takes after each other lead on to two nodes after each
other. -/
theorem sublist_selectFrom {before after : List JsonStep} {step : JsonStep} {value : Json}
    {first second : JsonHit} (location : JsonLocation)
    (sub : [first, second].Sublist
      (JsonHit.step (location ++ before.map JsonStep.key, value) step))
    {one two : JsonHit} (goesOn : one ∈ JsonPath.selectFrom ⟨after⟩ first)
    (alsoGoesOn : two ∈ JsonPath.selectFrom ⟨after⟩ second) :
    [one, two].Sublist (JsonPath.selectFrom ⟨before ++ step :: after⟩
      (location, JsonPath.leadTo before value)) := by
  rw [selectFrom_append]
  apply sublist_flatMap_of_mem (mem_selectFrom_leadTo location value before)
  rw [selectFrom_cons]
  exact sublist_flatMap sub goesOn alsoGoesOn

/-- With a descendant step, there are documents whose nodes come out of order: what the step
takes from the member without a name comes too late. -/
theorem exists_not_inDocumentOrder {step inner : JsonStep} (deep : step.deep? = some inner)
    (named : step ≠ .descendant "") (before after : List JsonStep) :
    ∃ root : Json, root.Tabled ∧
      ¬ InDocumentOrder (JsonPath.select ⟨before ++ step :: after⟩ root) := by
  obtain ⟨name, takes, proper⟩ := exists_takes_of_deep deep
  have first : "" < name := by
    obtain ⟨c, rest, whole⟩ := List.exists_cons_of_ne_nil
      (fun empty => proper named (String.toList_eq_nil_iff.mp empty) : name.toList ≠ [])
    rw [String.lt_iff, whole]
    exact List.nil_lt_cons c rest
  let last := JsonPath.leadTo after .null
  have tabledLast : last.Tabled := Json.Tabled.null.leadTo after
  let members := [("", Json.object [(name, last)]), (name, last)]
  have sorted : Table.Sorted members :=
    List.pairwise_pair.mpr first
  have tabled : (Json.object members).Tabled := by
    refine .object sorted ?_
    intro entry member
    rcases List.mem_cons.mp member with rfl | later
    · exact Json.tabled_singleton tabledLast
    · rw [List.mem_singleton.mp later]
      exact tabledLast
  let location := before.map JsonStep.key
  refine ⟨JsonPath.leadTo before (.object members), tabled.leadTo before, ?_⟩
  have taken : (location ++ [JsonKey.member name], last) ∈
      JsonHit.step (location, .object members) inner :=
    mem_step_of_takes takes sorted (List.mem_cons_of_mem _ List.mem_cons_self) location
  have alsoTaken : ((location ++ [JsonKey.member ""]) ++ [JsonKey.member name], last) ∈
      JsonHit.step (location ++ [JsonKey.member ""], .object [(name, last)]) inner :=
    mem_step_of_takes takes (List.pairwise_singleton _ _) List.mem_cons_self _
  have below : Below (location, .object members)
      (location ++ [JsonKey.member ""], .object [(name, last)]) :=
    below_of_member sorted List.mem_cons_self
  have apart : (location ++ [JsonKey.member ""], Json.object [(name, last)]) ≠
      (location, .object members) := by
    intro same
    have longer := congrArg (fun hit : JsonHit => hit.1.length) same
    simp at longer
  have sub := sublist_step_of_deep deep tabled below apart taken alsoTaken
  have both := sublist_selectFrom [] sub (mem_selectFrom_leadTo _ _ after)
    (mem_selectFrom_leadTo _ _ after)
  intro ordered
  have wrong := List.pairwise_pair.mp (List.Pairwise.sublist both ordered)
  have precedes : JsonKey.Precedes (.member "") (.member name) := first
  have right := before_of_link precedes location (.member name :: after.map JsonStep.key)
    (after.map JsonStep.key)
  simp only [List.append_assoc, List.singleton_append] at wrong
  exact wrong.asymm right

/-- With two descendant steps, there are documents of which one location comes twice: the first
step may stop at a node or at the next one below, and the second step makes up for it. -/
theorem exists_not_distinct {first inner second other : JsonStep}
    (deep : first.deep? = some inner) (alsoDeep : second.deep? = some other)
    (before between after : List JsonStep) :
    ∃ root : Json, root.Tabled ∧
      ¬ Distinct (JsonPath.select ⟨before ++ first :: (between ++ second :: after)⟩ root) := by
  obtain ⟨name, takes, _⟩ := exists_takes_of_deep deep
  obtain ⟨last, takesLast, _⟩ := exists_takes_of_deep alsoDeep
  let keys := between.map JsonStep.key
  -- three objects below each other, with the links of `between` from one to the next
  let lowest := Json.object [(last, JsonPath.leadTo after .null)]
  let middle := Json.object [(name, JsonPath.leadTo between lowest)]
  let highest := Json.object [(name, JsonPath.leadTo between middle)]
  let location := before.map JsonStep.key
  have tabledLowest : lowest.Tabled := Json.tabled_singleton (Json.Tabled.null.leadTo after)
  have tabledMiddle : middle.Tabled := Json.tabled_singleton (tabledLowest.leadTo between)
  have tabled : highest.Tabled := Json.tabled_singleton (tabledMiddle.leadTo between)
  have taken (place : JsonLocation) (value : Json) : (place ++ [JsonKey.member name], value) ∈
      JsonHit.step (place, .object [(name, value)]) inner :=
    mem_step_of_takes takes (List.pairwise_singleton _ _) List.mem_cons_self place
  have takenLast (place : JsonLocation) (value : Json) : (place ++ [JsonKey.member last], value) ∈
      JsonHit.step (place, .object [(last, value)]) other :=
    mem_step_of_takes takesLast (List.pairwise_singleton _ _) List.mem_cons_self place
  have below (place : JsonLocation) {value : Json} (inside : value.Tabled) :
      Below (place, .object [(name, JsonPath.leadTo between value)])
        (place ++ [JsonKey.member name] ++ keys, value) :=
    (below_of_member (List.pairwise_singleton _ _) List.mem_cons_self).trans
      (below_of_mem_selectFrom (inside.leadTo between) (mem_selectFrom_leadTo _ _ between))
  let there := location ++ [JsonKey.member name] ++ keys
  let found : JsonHit := (there ++ [JsonKey.member name] ++ keys ++ [JsonKey.member last] ++
    after.map JsonStep.key, .null)
  have apart : ((there, middle) : JsonHit) ≠ (location, highest) := by
    intro same
    have longer := congrArg (fun hit : JsonHit => hit.1.length) same
    simp only [there, List.length_append, List.length_singleton] at longer
    omega
  have sub := sublist_step_of_deep deep tabled (below location tabledMiddle) apart
    (taken location _) (taken there _)
  have goesOn : found ∈ JsonPath.selectFrom ⟨between ++ second :: after⟩
      (location ++ [JsonKey.member name], JsonPath.leadTo between middle) :=
    mem_selectFrom_of_step
      (mem_step_of_deep alsoDeep tabledMiddle (below there tabledLowest) (takenLast _ _))
      (mem_selectFrom_leadTo _ _ after)
  have alsoGoesOn : found ∈ JsonPath.selectFrom ⟨between ++ second :: after⟩
      (there ++ [JsonKey.member name], JsonPath.leadTo between lowest) :=
    mem_selectFrom_of_step
      (mem_step_of_deep alsoDeep tabledLowest (.refl _) (takenLast _ _))
      (mem_selectFrom_leadTo _ _ after)
  refine ⟨JsonPath.leadTo before highest, tabled.leadTo before, ?_⟩
  have twice := sublist_selectFrom [] sub goesOn alsoGoesOn
  intro distinct
  exact List.pairwise_pair.mp ((distinct_iff.mp distinct).sublist twice) rfl

end JsonHit

/-! ### Expressions -/

namespace JsonPath

open JsonHit (InDocumentOrder Distinct)

theorem nameStep_ne_descendant (name : List Char) (other : String) :
    nameStep name ≠ .descendant other := by
  unfold nameStep
  split
  · exact nofun
  · exact nofun

theorem descendantStep_ne_unnamed {name : List Char} (proper : name ≠ []) :
    descendantStep name ≠ .descendant "" := by
  unfold descendantStep
  split
  · exact nofun
  · intro same
    have empty := JsonStep.descendant.inj same
    exact proper (String.ofList_eq_empty_iff.mp empty)

theorem bracketStep?_ne_descendant {content : List Char} {step : JsonStep}
    (read : bracketStep? content = some step) (name : String) : step ≠ .descendant name := by
  unfold bracketStep? at read
  split at read
  · cases read
    exact nofun
  · split at read
    · cases read
      exact nofun
    · obtain ⟨position, _, rfl⟩ := Option.map_eq_some_iff.mp read
      exact nofun

theorem named_cons {step : JsonStep} (here : step ≠ .descendant "")
    {rest : Except Fault (List JsonStep)}
    (later : ∀ {steps}, rest = .ok steps → JsonStep.descendant "" ∉ steps)
    {steps : List JsonStep} (read : (do return step :: (← rest)) = Except.ok steps) :
    JsonStep.descendant "" ∉ steps := by
  cases rest with
  | error fault => cases read
  | ok further =>
      cases read
      exact List.not_mem_cons_of_ne_of_not_mem here.symm (later rfl)

theorem named_of_readSteps {text : List Char} {steps : List JsonStep}
    (read : readSteps text = .ok steps) : JsonStep.descendant "" ∉ steps := by
  fun_induction readSteps text generalizing steps
  case case1 =>
    cases read
    exact List.not_mem_nil
  case case3 rest name proper ih =>
    exact named_cons (descendantStep_ne_unnamed (mt List.isEmpty_iff.mpr proper)) ih read
  case case5 rest single name proper ih => exact named_cons (nameStep_ne_descendant _ _) ih read
  case case8 rest content after cut step bracket ih =>
    exact named_cons (bracketStep?_ne_descendant bracket _) ih read
  all_goals cases read

theorem named_of_parse {text : String} {path : JsonPath} (parsed : parse text = .ok path) :
    JsonStep.descendant "" ∉ path.steps := by
  unfold parse at parsed
  split at parsed
  · next steps found =>
      cases parsed
      unfold read at found
      split at found
      · cases found
        exact List.not_mem_nil
      · split at found
        · exact named_of_readSteps found
        · split at found
          · exact named_of_readSteps found
          · exact named_cons (nameStep_ne_descendant _ _) named_of_readSteps found
  · cases parsed

def descents (path : JsonPath) : Nat := path.steps.countP (·.deep?.isSome)

theorem plain_of_countP {steps : List JsonStep}
    (plain : steps.countP (·.deep?.isSome) = 0) : ∀ step ∈ steps, step.deep? = none := by
  intro step member
  exact Option.not_isSome_iff_eq_none.mp (List.countP_eq_zero.mp plain step member)

theorem exists_deep_of_countP {steps : List JsonStep}
    (deep : 0 < steps.countP (·.deep?.isSome)) :
    ∃ before step inner after, steps = before ++ step :: after ∧ step.deep? = some inner ∧
      before.countP (·.deep?.isSome) = 0 := by
  obtain ⟨step, found⟩ := Option.isSome_iff_exists.mp
    (List.find?_isSome.mpr (List.countP_pos_iff.mp deep))
  obtain ⟨isDeep, before, after, split, plain⟩ := List.find?_eq_some_iff_append.mp found
  obtain ⟨inner, goes⟩ := Option.isSome_iff_exists.mp isDeep
  refine ⟨before, step, inner, after, split, goes, List.countP_eq_zero.mpr ?_⟩
  intro other member
  simpa using plain other member

/-- The nodes that an expression selects are in document order for all documents exactly if it
has no descendant step, and they are at different locations for all documents exactly if it has
at most one. -/
theorem select_order_iff {text : String} {path : JsonPath} (parsed : parse text = .ok path) :
    ((∀ root : Json, root.Tabled → InDocumentOrder (path.select root)) ↔ path.descents = 0) ∧
      ((∀ root : Json, root.Tabled → Distinct (path.select root)) ↔ path.descents ≤ 1) := by
  have named := named_of_parse parsed
  obtain ⟨steps⟩ := path
  by_cases plain : steps.countP (·.deep?.isSome) = 0
  · have ordered (root : Json) (tabled : root.Tabled) :=
      (JsonHit.selectFrom_plain (plain_of_countP plain) ([], root) tabled).1
    refine ⟨⟨fun _ => plain, fun _ => ordered⟩, ?_⟩
    exact ⟨fun _ => Nat.le_trans (Nat.le_of_eq plain) (Nat.zero_le 1),
      fun _ root tabled => (ordered root tabled).distinct⟩
  · obtain ⟨before, step, inner, after, rfl, deep, first⟩ :=
      exists_deep_of_countP (Nat.pos_of_ne_zero plain)
    have unnamed : step ≠ .descendant "" := by
      rintro rfl
      exact named (List.mem_append_right _ List.mem_cons_self)
    have counted : descents ⟨before ++ step :: after⟩ = after.countP (·.deep?.isSome) + 1 := by
      rw [descents, List.countP_append, first, List.countP_cons_of_pos (by rw [deep]; rfl),
        Nat.zero_add]
    constructor
    · refine ⟨?_, fun none => absurd none plain⟩
      intro ordered
      obtain ⟨root, tabled, wrong⟩ := JsonHit.exists_not_inDocumentOrder deep unnamed before after
      exact absurd (ordered root tabled) wrong
    · rw [counted]
      by_cases last : after.countP (·.deep?.isSome) = 0
      · refine ⟨fun _ => by omega, fun _ root tabled => ?_⟩
        exact JsonHit.distinct_select_of_single tabled deep (plain_of_countP first)
          (plain_of_countP last)
      · refine ⟨fun distinct => ?_, fun few => absurd few (by omega)⟩
        obtain ⟨between, second, other, later, rfl, alsoDeep, _⟩ :=
          exists_deep_of_countP (Nat.pos_of_ne_zero last)
        obtain ⟨root, tabled, wrong⟩ :=
          JsonHit.exists_not_distinct deep alsoDeep before between later
        exact absurd (distinct root tabled) wrong

theorem select_order_named :
    parse "$.rows[*]..name" = .ok ⟨[.field "rows", .wildcard, .descendant "name"]⟩ ∧
      (¬ ∀ root : Json, root.Tabled →
        InDocumentOrder (select ⟨[.field "rows", .wildcard, .descendant "name"]⟩ root)) ∧
      ∀ root : Json, root.Tabled →
        Distinct (select ⟨[.field "rows", .wildcard, .descendant "name"]⟩ root) := by
  have written : PathText [.field "rows", .wildcard, .descendant "name"]
      "$.rows[*]..name".toList :=
    .rooted (.inl rfl) <| .cons (.dotted (.of_plain (by decide))) <| .cons .bracketedWildcard <|
      .cons (.descendant (.of_plain (by decide))) .nil
  have parsed : parse "$.rows[*]..name" =
      .ok ⟨[.field "rows", .wildcard, .descendant "name"]⟩ := by
    rw [parse, written.trim_eq, read_of_written written]
  obtain ⟨ordered, distinct⟩ := select_order_iff parsed
  exact ⟨parsed, fun always => absurd (ordered.mp always) (by decide), distinct.mpr (by decide)⟩

/-- An object with a member `b`, below an object with a member of the same name. -/
def nestedMembers : Json :=
  .object [("a", .object [("a", .object [("b", .number (.integer 1))]),
    ("b", .number (.integer 2))])]

/-- The upper `b` comes before the lower one, and the lower one comes twice. -/
theorem select_nestedMembers :
    parse "$..a..b" = .ok ⟨[.descendant "a", .descendant "b"]⟩ ∧ nestedMembers.Tabled ∧
      select ⟨[.descendant "a", .descendant "b"]⟩ nestedMembers =
        [([.member "a", .member "b"], .number (.integer 2)),
          ([.member "a", .member "a", .member "b"], .number (.integer 1)),
          ([.member "a", .member "a", .member "b"], .number (.integer 1))] ∧
      ¬ InDocumentOrder (select ⟨[.descendant "a", .descendant "b"]⟩ nestedMembers) ∧
      ¬ Distinct (select ⟨[.descendant "a", .descendant "b"]⟩ nestedMembers) := by
  have inner : (Json.object [("b", .number (.integer 1))]).Tabled :=
    Json.tabled_singleton (.number _)
  have outer : (Json.object [("a", .object [("b", .number (.integer 1))]),
      ("b", .number (.integer 2))]).Tabled :=
    .object (by decide) (List.forall_mem_cons.mpr
      ⟨inner, List.forall_mem_singleton.mpr (.number _)⟩)
  have written : PathText [.descendant "a", .descendant "b"] "$..a..b".toList :=
    .rooted (.inl rfl) <| .cons (.descendant (.of_plain (by decide))) <|
      .cons (.descendant (.of_plain (by decide))) .nil
  refine ⟨?_, Json.tabled_singleton outer, rfl, ?_, ?_⟩
  · rw [parse, written.trim_eq, read_of_written written]
  · intro ordered
    have upper := (List.pairwise_cons.mp ordered).1 _ List.mem_cons_self
    have lower : JsonLocation.Before [.member "a", .member "a", .member "b"]
        [.member "a", .member "b"] := .cons (.rel (show "a" < "b" by decide))
    exact upper.asymm lower
  · intro distinct
    exact (List.nodup_cons.mp (List.nodup_cons.mp distinct).2).1 List.mem_cons_self

end JsonPath

end RdfMapping
