import RdfMapping.Json.Parser
import RdfMapping.JsonPath
/-!
Nodes of a JSON value by their locations. In a value whose objects have every name once, a
location leads to one node at most, and each node that a path selects stands where its
location leads.
-/

namespace RdfMapping

/-! ### Tables at every depth -/

/-- The members of every object are a table, at every depth. -/
inductive Json.Tabled : Json → Prop
  | null : Tabled .null
  | bool (value : Bool) : Tabled (.bool value)
  | number (value : Number) : Tabled (.number value)
  | string (value : String) : Tabled (.string value)
  | array {elements : List Json} (inside : ∀ element ∈ elements, Tabled element) :
      Tabled (.array elements)
  | object {members : List (String × Json)} (sorted : Table.Sorted members)
      (inside : ∀ entry ∈ members, Tabled entry.2) : Tabled (.object members)

namespace Json

theorem tabled_ofMembers {members : List (String × Json)}
    (inside : ∀ entry ∈ members, entry.2.Tabled) : (ofMembers members).Tabled := by
  have sorted := Table.sorted_ofList members
  refine .object sorted ?_
  intro entry member
  have found := (Table.get?_eq_some_iff sorted).mpr member
  rw [Table.get?_ofList, List.lookup_eq_some_iff] at found
  obtain ⟨before, after, split, _⟩ := found
  exact inside entry (List.mem_reverse.mp (split ▸ List.mem_append_right _ List.mem_cons_self))

mutual

theorem tabled_of_takeValue {depth fuel : Nat} {text rest : List Char} {value : Json}
    (read : takeValue depth fuel text = some (value, rest)) : value.Tabled := by
  cases fuel with
  | zero => cases read
  | succ fuel =>
      unfold takeValue at read
      split at read
      · cases read
        exact .null
      · cases read
        exact .bool true
      · cases read
        exact .bool false
      · obtain ⟨parts, _, same⟩ := Option.bind_eq_some_iff.mp read
        cases same
        exact .string _
      · rw [Option.ite_none_left_eq_some] at read
        obtain ⟨_, read⟩ := read
        split at read
        · cases read
          exact .array nofun
        · obtain ⟨parts, inside, same⟩ := Option.bind_eq_some_iff.mp read
          cases same
          exact .array (tabled_of_takeElements inside)
      · rw [Option.ite_none_left_eq_some] at read
        obtain ⟨_, read⟩ := read
        split at read
        · cases read
          exact .object List.Pairwise.nil nofun
        · obtain ⟨parts, inside, same⟩ := Option.bind_eq_some_iff.mp read
          cases same
          exact tabled_ofMembers (tabled_of_takeMembers inside)
      · obtain ⟨parts, _, same⟩ := Option.bind_eq_some_iff.mp read
        cases same
        exact .number _

theorem tabled_of_takeElements {depth fuel : Nat} {text rest : List Char} {elements : List Json}
    (read : takeElements depth fuel text = some (elements, rest)) :
    ∀ element ∈ elements, element.Tabled := by
  cases fuel with
  | zero => cases read
  | succ fuel =>
      unfold takeElements at read
      obtain ⟨first, inFirst, read⟩ := Option.bind_eq_some_iff.mp read
      have here := tabled_of_takeValue inFirst
      simp only at read
      split at read
      · cases read
        exact List.forall_mem_singleton.mpr here
      · obtain ⟨later, inLater, same⟩ := Option.bind_eq_some_iff.mp read
        cases same
        exact List.forall_mem_cons.mpr ⟨here, tabled_of_takeElements inLater⟩
      · cases read

theorem tabled_of_takeMembers {depth fuel : Nat} {text rest : List Char}
    {members : List (String × Json)} (read : takeMembers depth fuel text = some (members, rest)) :
    ∀ entry ∈ members, entry.2.Tabled := by
  cases fuel with
  | zero => cases read
  | succ fuel =>
      unfold takeMembers at read
      split at read
      · obtain ⟨name, _, read⟩ := Option.bind_eq_some_iff.mp read
        simp only at read
        split at read
        · obtain ⟨first, inFirst, read⟩ := Option.bind_eq_some_iff.mp read
          have here := tabled_of_takeValue inFirst
          split at read
          · cases read
            exact List.forall_mem_singleton.mpr here
          · obtain ⟨later, inLater, same⟩ := Option.bind_eq_some_iff.mp read
            cases same
            exact List.forall_mem_cons.mpr ⟨here, tabled_of_takeMembers inLater⟩
          · cases read
        · cases read
      · cases read

end

/-- A JSON text gives every object as a table, whatever names it repeats. -/
theorem tabled_of_parse? {text : String} {value : Json} (read : parse? text = some value) :
    value.Tabled := by
  obtain ⟨parts, inside, read⟩ := Option.bind_eq_some_iff.mp read
  rw [Option.ite_none_right_eq_some] at read
  cases read.2
  exact tabled_of_takeValue inside

/-! ### Nodes -/

def child? (value : Json) : JsonKey → Option Json
  | .member name => value.member? name
  | .index position => value.elements?.bind (·[position]?)

def at? (root : Json) : JsonLocation → Option Json
  | [] => some root
  | key :: rest => (root.child? key).bind (·.at? rest)

theorem at?_append (root : Json) (first second : JsonLocation) :
    root.at? (first ++ second) = (root.at? first).bind (·.at? second) := by
  induction first generalizing root with
  | nil => rfl
  | cons key rest ih =>
      rw [List.cons_append, at?, at?, Option.bind_assoc]
      exact Option.bind_congr fun value _ => ih value

theorem Tabled.child? {value child : Json} (tabled : value.Tabled) {key : JsonKey}
    (found : value.child? key = some child) : child.Tabled := by
  cases key with
  | member name =>
      cases tabled with
      | object sorted inside => exact inside _ ((Table.get?_eq_some_iff sorted).mp found)
      | _ => cases found
  | index position =>
      cases tabled with
      | array inside => exact inside _ (List.mem_of_getElem? found)
      | _ => cases found

theorem Tabled.at? {root node : Json} (tabled : root.Tabled) {location : JsonLocation}
    (found : root.at? location = some node) : node.Tabled := by
  induction location generalizing root with
  | nil =>
      cases found
      exact tabled
  | cons key rest ih =>
      obtain ⟨child, here, below⟩ := Option.bind_eq_some_iff.mp found
      exact ih (tabled.child? here) below

end Json

namespace JsonHit

/-! ### Steps -/

/-- A node stands where its location leads from a root. -/
def Stands (root : Json) (hit : JsonHit) : Prop := root.at? hit.1 = some hit.2

def Below (hit : JsonHit) (found : JsonHit) : Prop :=
  ∃ way, found.1 = hit.1 ++ way ∧ hit.2.at? way = some found.2

theorem Below.refl (hit : JsonHit) : hit.Below hit := ⟨[], (List.append_nil _).symm, rfl⟩

theorem Below.of_child {hit : JsonHit} {key : JsonKey} {value : Json}
    (found : hit.2.child? key = some value) : hit.Below (hit.1 ++ [key], value) := by
  refine ⟨[key], rfl, ?_⟩
  rw [Json.at?, found]
  rfl

theorem Below.trans {first second third : JsonHit} (one : first.Below second)
    (two : second.Below third) : first.Below third := by
  obtain ⟨way, location, leads⟩ := one
  obtain ⟨further, located, leadsOn⟩ := two
  refine ⟨way ++ further, by rw [located, location, List.append_assoc], ?_⟩
  rw [Json.at?_append, leads]
  exact leadsOn

theorem Below.stands {root : Json} {hit found : JsonHit} (below : hit.Below found)
    (stands : hit.Stands root) : found.Stands root := by
  obtain ⟨way, location, leads⟩ := below
  rw [Stands, location, Json.at?_append, stands]
  exact leads

theorem Below.tabled {hit found : JsonHit} (below : hit.Below found) (tabled : hit.2.Tabled) :
    found.2.Tabled := by
  obtain ⟨way, _, leads⟩ := below
  exact tabled.at? leads

theorem of_mem_elementsFrom {location : JsonLocation} {start : Nat} {elements : List Json}
    {found : JsonHit} (member : found ∈ elementsFrom location start elements) :
    ∃ position, elements[position]? = some found.2 ∧
      found.1 = location ++ [.index (start + position)] := by
  induction elements generalizing start with
  | nil => cases member
  | cons element rest ih =>
      rcases List.mem_cons.mp member with rfl | later
      · exact ⟨0, rfl, rfl⟩
      · obtain ⟨position, here, located⟩ := ih later
        refine ⟨position + 1, here, ?_⟩
        rw [located, Nat.add_right_comm, Nat.add_assoc]

theorem below_of_member {location : JsonLocation} {members : List (String × Json)}
    (sorted : Table.Sorted members) {entry : String × Json} (member : entry ∈ members) :
    Below (location, .object members) (location ++ [.member entry.1], entry.2) :=
  .of_child ((Table.get?_eq_some_iff sorted).mpr member)

theorem below_of_element {location : JsonLocation} {elements : List Json} {position : Nat}
    {element : Json} (here : elements[position]? = some element) :
    Below (location, .array elements) (location ++ [.index position], element) :=
  .of_child here

theorem below_of_mem_children {hit found : JsonHit} (tabled : hit.2.Tabled)
    (member : found ∈ hit.children) : hit.Below found := by
  obtain ⟨location, value⟩ := hit
  cases tabled with
  | array inside =>
      obtain ⟨position, here, located⟩ := of_mem_elementsFrom member
      rw [Nat.zero_add] at located
      obtain ⟨_, element⟩ := found
      subst located
      exact below_of_element here
  | object sorted inside =>
      obtain ⟨entry, inTable, rfl⟩ := List.mem_map.mp member
      exact below_of_member sorted inTable
  | _ => cases member

mutual

/-- Nodes at any depth are below the node, each at its own location. -/
theorem below_of_mem_selfAndDescendants (location : JsonLocation) (value : Json)
    (tabled : value.Tabled) {found : JsonHit}
    (member : found ∈ selfAndDescendants location value) : Below (location, value) found := by
  cases value with
  | array elements =>
      cases tabled with
      | array inside =>
          rw [selfAndDescendants] at member
          rcases List.mem_cons.mp member with rfl | deeper
          · exact .refl _
          · obtain ⟨position, element, here, below⟩ :=
              below_of_mem_elements location 0 elements inside deeper
            rw [Nat.zero_add] at below
            exact (below_of_element here).trans below
  | object members =>
      cases tabled with
      | object sorted inside =>
          rw [selfAndDescendants] at member
          rcases List.mem_cons.mp member with rfl | deeper
          · exact .refl _
          · obtain ⟨entry, inTable, below⟩ :=
              below_of_mem_members location members inside deeper
            exact (below_of_member sorted inTable).trans below
  | _ =>
      rw [selfAndDescendants] at member
      · rw [List.mem_singleton.mp member]
        exact .refl _
      all_goals exact nofun

theorem below_of_mem_elements (location : JsonLocation) (start : Nat) (elements : List Json)
    (tabled : ∀ element ∈ elements, element.Tabled) {found : JsonHit}
    (member : found ∈ descendantsOfElements location start elements) :
    ∃ position element, elements[position]? = some element ∧
      Below (location ++ [.index (start + position)], element) found := by
  cases elements with
  | nil =>
      rw [descendantsOfElements] at member
      cases member
  | cons element rest =>
      obtain ⟨tabledHere, tabledRest⟩ := List.forall_mem_cons.mp tabled
      rw [descendantsOfElements] at member
      rcases List.mem_append.mp member with here | later
      · exact ⟨0, element, rfl, below_of_mem_selfAndDescendants _ element tabledHere here⟩
      · obtain ⟨position, other, there, below⟩ :=
          below_of_mem_elements location (start + 1) rest tabledRest later
        rw [Nat.add_assoc, Nat.add_comm 1] at below
        exact ⟨position + 1, other, there, below⟩

theorem below_of_mem_members (location : JsonLocation) (members : List (String × Json))
    (tabled : ∀ entry ∈ members, entry.2.Tabled) {found : JsonHit}
    (member : found ∈ descendantsOfMembers location members) :
    ∃ entry ∈ members, Below (location ++ [.member entry.1], entry.2) found := by
  cases members with
  | nil =>
      rw [descendantsOfMembers] at member
      cases member
  | cons entry rest =>
      obtain ⟨name, value⟩ := entry
      obtain ⟨tabledHere, tabledRest⟩ := List.forall_mem_cons.mp tabled
      rw [descendantsOfMembers] at member
      rcases List.mem_append.mp member with here | later
      · exact ⟨_, List.mem_cons_self, below_of_mem_selfAndDescendants _ value tabledHere here⟩
      · obtain ⟨other, inRest, below⟩ := below_of_mem_members location rest tabledRest later
        exact ⟨other, List.mem_cons_of_mem _ inRest, below⟩

end

theorem mem_elements_of_getElem? {location : JsonLocation} {start position index : Nat}
    {elements : List Json} {element : Json} (here : elements[position]? = some element)
    (counted : index = start + position) {found : JsonHit}
    (member : found ∈ selfAndDescendants (location ++ [.index index]) element) :
    found ∈ descendantsOfElements location start elements := by
  induction elements generalizing start position with
  | nil => cases here
  | cons first rest ih =>
      rw [descendantsOfElements]
      cases position with
      | zero =>
          cases here
          rw [counted] at member
          exact List.mem_append_left _ member
      | succ position =>
          refine List.mem_append_right _ (ih here ?_)
          omega

theorem mem_members_of_mem {location : JsonLocation} {members : List (String × Json)}
    {entry : String × Json} (here : entry ∈ members) {found : JsonHit}
    (member : found ∈ selfAndDescendants (location ++ [.member entry.1]) entry.2) :
    found ∈ descendantsOfMembers location members := by
  induction members with
  | nil => cases here
  | cons first rest ih =>
      rw [descendantsOfMembers]
      rcases List.mem_cons.mp here with rfl | later
      · exact List.mem_append_left _ member
      · exact List.mem_append_right _ (ih later)

theorem exists_selfAndDescendants_eq (location : JsonLocation) (value : Json) :
    ∃ deeper, selfAndDescendants location value = (location, value) :: deeper := by
  cases value with
  | array elements => exact ⟨_, selfAndDescendants.eq_1 location elements⟩
  | object members => exact ⟨_, selfAndDescendants.eq_2 location members⟩
  | _ => exact ⟨[], selfAndDescendants.eq_3 location _ nofun nofun⟩

theorem mem_selfAndDescendants_iff (location : JsonLocation) {value : Json}
    (tabled : value.Tabled) {found : JsonHit} :
    found ∈ selfAndDescendants location value ↔ Below (location, value) found := by
  refine ⟨below_of_mem_selfAndDescendants location value tabled, ?_⟩
  rintro ⟨way, located, leads⟩
  obtain ⟨_, node⟩ := found
  subst located
  induction way generalizing location value with
  | nil =>
      cases leads
      obtain ⟨deeper, listed⟩ := exists_selfAndDescendants_eq location node
      rw [listed, List.append_nil]
      exact List.mem_cons_self
  | cons key rest ih =>
      obtain ⟨child, here, below⟩ := Option.bind_eq_some_iff.mp leads
      have listed := ih (location ++ [key]) (tabled.child? here) below
      rw [List.append_assoc, List.singleton_append] at listed
      cases tabled with
      | array inside =>
          cases key with
          | member name => cases here
          | index position =>
              rw [selfAndDescendants]
              apply List.mem_cons_of_mem
              exact mem_elements_of_getElem? here (Nat.zero_add position).symm listed
      | object sorted inside =>
          cases key with
          | member name =>
              rw [selfAndDescendants]
              apply List.mem_cons_of_mem
              exact mem_members_of_mem ((Table.get?_eq_some_iff sorted).mp here) listed
          | index position => cases here
      | _ => cases key <;> cases here

theorem below_of_mem_field {name : String} {hit found : JsonHit}
    (member : found ∈ hit.field name) : hit.Below found := by
  unfold field at member
  split at member
  · next value here =>
      rw [List.mem_singleton.mp member]
      exact .of_child here
  · cases member

theorem below_of_mem_element {position : Int} {hit found : JsonHit}
    (member : found ∈ hit.element position) : hit.Below found := by
  obtain ⟨location, value⟩ := hit
  cases value with
  | array elements =>
      simp only [element] at member
      split at member
      · obtain ⟨value, here, rfl⟩ := Option.map_eq_some_iff.mp (Option.mem_toList.mp member)
        exact below_of_element here
      · cases member
  | _ => cases member

theorem below_of_mem_step {step : JsonStep} {hit found : JsonHit} (tabled : hit.2.Tabled)
    (member : found ∈ hit.step step) : hit.Below found := by
  cases step with
  | field name => exact below_of_mem_field member
  | index position => exact below_of_mem_element member
  | wildcard => exact below_of_mem_children tabled member
  | descendant name =>
      obtain ⟨middle, deeper, last⟩ := List.mem_flatMap.mp member
      exact (below_of_mem_selfAndDescendants _ _ tabled deeper).trans (below_of_mem_field last)
  | descendantWildcard =>
      obtain ⟨middle, deeper, last⟩ := List.mem_flatMap.mp member
      have below := below_of_mem_selfAndDescendants _ _ tabled deeper
      exact below.trans (below_of_mem_children (below.tabled tabled) last)

theorem selectFrom_cons (step : JsonStep) (steps : List JsonStep) (hit : JsonHit) :
    JsonPath.selectFrom ⟨step :: steps⟩ hit =
      (hit.step step).flatMap (JsonPath.selectFrom ⟨steps⟩) := by
  suffices spread : ∀ hits : List JsonHit,
      steps.foldl (fun hits step => hits.flatMap (·.step step)) hits =
        hits.flatMap (JsonPath.selectFrom ⟨steps⟩) by
    rw [JsonPath.selectFrom, List.foldl_cons, spread, List.flatMap_singleton]
  induction steps with
  | nil => exact fun hits => (List.flatMap_singleton' hits).symm
  | cons next rest ih =>
      intro hits
      rw [List.foldl_cons, ih, List.flatMap_assoc]
      apply congrArg (List.flatMap · hits)
      funext start
      rw [JsonPath.selectFrom, List.foldl_cons, List.flatMap_singleton, ih]

theorem selectFrom_append (first second : List JsonStep) (hit : JsonHit) :
    JsonPath.selectFrom ⟨first ++ second⟩ hit =
      (JsonPath.selectFrom ⟨first⟩ hit).flatMap (JsonPath.selectFrom ⟨second⟩) := by
  induction first generalizing hit with
  | nil => exact (List.flatMap_singleton _ hit).symm
  | cons step rest ih =>
      rw [List.cons_append, selectFrom_cons, selectFrom_cons, List.flatMap_assoc]
      exact congrArg (List.flatMap · _) (funext ih)

theorem below_of_mem_selectFrom {path : JsonPath} {hit found : JsonHit} (tabled : hit.2.Tabled)
    (member : found ∈ path.selectFrom hit) : hit.Below found := by
  obtain ⟨steps⟩ := path
  induction steps generalizing hit with
  | nil =>
      rw [List.mem_singleton.mp member]
      exact .refl hit
  | cons step rest ih =>
      rw [selectFrom_cons] at member
      obtain ⟨middle, stepped, further⟩ := List.mem_flatMap.mp member
      have below := below_of_mem_step tabled stepped
      exact below.trans (ih (below.tabled tabled) further)

theorem stands_of_mem_select {root : Json} (tabled : root.Tabled) {path : JsonPath}
    {hit : JsonHit} (selected : hit ∈ path.select root) : hit.Stands root := by
  have below : Below ([], root) hit := below_of_mem_selectFrom tabled selected
  exact below.stands rfl

end JsonHit

end RdfMapping
