import Mathlib.Tactic.Abel
import RdfMapping.Proofs.Graph.Accepted
/-!
Embedded and flattened documents. A node object that stands inside another one can be put beside
it, with a reference in its place. As long as every node object has an identifier, the counter
gives no names, so that the order in which the node objects are read does not matter; and to each
node object but the ones around it, nothing changes at all. Those around it come to the same, for
an embedded node object and a reference to it make the same statement.
-/

namespace RdfMapping.JsonLd

abbrev Members := List (String × Json)

/-- Two node objects without a `@value` differ in the value of one key that is read. -/
inductive Swapped (value other : Json) : Members → Members → Prop
  | mk {before after : Members} {key : String}
      (node : Table.get? "@value" (before ++ (key, value) :: after) = none)
      (read : key.toList.head? ≠ some '@') :
      Swapped value other (before ++ (key, value) :: after) (before ++ (key, other) :: after)

/-- A node object in a value, which is more than a reference, is replaced by a reference to it. -/
inductive Hoists (hoisted : Members) : Json → Json → Prop
  | here {id : String} (node : Table.get? "@value" hoisted = none)
      (named : Table.get? "@id" hoisted = some (.string id))
      (more : ∃ member ∈ hoisted, member.1 ≠ "@id") :
      Hoists hoisted (.object hoisted) (.object [("@id", .string id)])
  | element {before after : List Json} {value other : Json} (hoists : Hoists hoisted value other) :
      Hoists hoisted (.array (before ++ value :: after)) (.array (before ++ other :: after))
  | inside {members others : Members} {value other : Json} (hoists : Hoists hoisted value other)
      (swapped : Swapped value other members others) :
      Hoists hoisted (.object members) (.object others)

/-- One of several node objects has another one embedded in it, and the embedded one is moved to
any place among them. -/
inductive Flattens (hoisted : Members) : List Json → List Json → Prop
  | mk {before after left right : List Json} {members others : Members} {value other : Json}
      (hoists : Hoists hoisted value other) (swapped : Swapped value other members others)
      (beside : before ++ .object others :: after = left ++ right) :
      Flattens hoisted (before ++ .object members :: after) (left ++ .object hoisted :: right)

/-- What a node object comes to, apart from the ones inside, as long as the counter has given no
names. -/
structure Gist where
  name : Option String
  statements : List (String × NodeTerm)
  readable : Prop

def gist (context : Context) (members : Members) : Gist where
  name := textMember? "@id" members
  statements := ownStatements context 0 members
  readable := Readable members

def gists (context : Context) (objects : List Members) : Multiset Gist :=
  objects.map (gist context)

def Gist.part (context : Context) (gist : Gist) : String × List (String × NodeTerm) :=
  ((gist.name.map (expand context)).getD (label 0), gist.statements)

variable {context : Context} {hoisted members others : Members} {value other : Json}
  {objects further : List Members}

/-! ### Without names of the counter -/

theorem unnamed_append_eq_zero :
    unnamed (objects ++ further) = 0 ↔ unnamed objects = 0 ∧ unnamed further = 0 := by
  rw [unnamed_append, Nat.add_eq_zero_iff]

theorem unnamed_cons_eq_zero :
    unnamed (members :: objects) = 0 ↔ unnamed [members] = 0 ∧ unnamed objects = 0 := by
  rw [unnamed_cons, Nat.add_eq_zero_iff]

theorem unnamed_eq_countP (context : Context) (objects : List Members) :
    unnamed objects = (gists context objects).countP fun gist => gist.name.isNone := by
  rw [gists, Multiset.coe_countP, List.countP_map, unnamed]
  simp only [Function.comp_def, gist, Bool.decide_eq_true]

theorem unnamed_of_named
    (named : ∀ members ∈ objects, ∃ id, Table.get? "@id" members = some (.string id)) :
    unnamed objects = 0 := by
  refine List.countP_eq_zero.mpr ?_
  intro members member
  obtain ⟨id, given⟩ := named members member
  rw [textMember?_of_string given]
  exact Bool.false_ne_true

theorem place_of_named (named : unnamed objects = 0) :
    (place context 0 objects).map Placement.part =
      objects.map fun members => (gist context members).part context := by
  induction objects with
  | nil => rfl
  | cons members rest ih =>
      rw [unnamed_cons_eq_zero] at named
      rw [place, named.1, List.map_cons, List.map_cons, ih named.2]
      rfl

theorem itemStatements_of_named {predicate : String} {elements : List Json}
    (named : unnamed (objectsInAll elements) = 0) :
    itemStatements context predicate 0 elements =
      elements.filterMap fun item => (itemTerm context 0 item).map (predicate, ·) := by
  induction elements with
  | nil => rfl
  | cons element rest ih =>
      rw [objectsInAll, unnamed_append_eq_zero] at named
      rw [itemStatements, named.1, ih named.2, List.filterMap_cons]
      cases itemTerm context 0 element with
      | none => rfl
      | some term => rfl

theorem ownStatements_of_named (named : unnamed (objectsInMembers members) = 0) :
    ownStatements context 0 members =
      members.flatMap fun member => ownStatements context 0 [member] := by
  induction members with
  | nil => rfl
  | cons member rest ih =>
      rw [objectsInMembers_cons, unnamed_append_eq_zero] at named
      rw [ownStatements_cons, named.1, ih named.2, List.flatMap_cons]

/-! ### The parts of a document -/

theorem objectsInMembers_append (before after : Members) :
    objectsInMembers (before ++ after) = objectsInMembers before ++ objectsInMembers after := by
  induction before with
  | nil => rfl
  | cons member rest ih =>
      rw [List.cons_append, objectsInMembers_cons, ih, objectsInMembers_cons member rest,
        List.append_assoc]

theorem objectsInAll_append (before after : List Json) :
    objectsInAll (before ++ after) = objectsInAll before ++ objectsInAll after := by
  induction before with
  | nil => rfl
  | cons element rest ih => rw [List.cons_append, objectsInAll, ih, objectsInAll, List.append_assoc]

theorem objectsInAll_items (value : Json) : objectsInAll (items value) = objectsIn value := by
  cases value with
  | array elements => rw [items, objectsIn]
  | _ => simp only [items, objectsInAll, List.append_nil]

theorem gists_append (objects further : List Members) :
    gists context (objects ++ further) = gists context objects + gists context further := by
  rw [gists, List.map_append, ← Multiset.coe_add, gists, gists]

theorem gists_cons (members : Members) (rest : List Members) :
    gists context (members :: rest) = gist context members ::ₘ gists context rest := rfl

/-! ### What a reference keeps -/

theorem soleId?_of_mem {member : String × Json} (inside : member ∈ members)
    (more : member.1 ≠ "@id") : soleId? context members = none := by
  unfold soleId?
  split
  · rw [List.mem_singleton.mp inside] at more
    exact absurd rfl more
  · rw [List.mem_singleton.mp inside] at more
    exact absurd rfl more
  · rfl

theorem get?_swapped {name : String} (marked : name.toList.head? = some '@')
    (swapped : Swapped value other members others) :
    Table.get? name members = Table.get? name others := by
  obtain @⟨before, after, key, node, read⟩ := swapped
  clear node
  have apart : key ≠ name := by
    rintro rfl
    exact read marked
  induction before with
  | nil => rw [List.nil_append, List.nil_append, Table.get?, Table.get?, if_neg apart, if_neg apart]
  | cons first rest ih =>
      obtain ⟨firstKey, firstValue⟩ := first
      rw [List.cons_append, List.cons_append, Table.get?, Table.get?, ih]

theorem textMember?_swapped {name : String} (marked : name.toList.head? = some '@')
    (swapped : Swapped value other members others) :
    textMember? name members = textMember? name others := by
  rw [textMember?, textMember?, get?_swapped marked swapped]

theorem Swapped.node (swapped : Swapped value other members others) :
    Table.get? "@value" members = none := by
  obtain ⟨node, read⟩ := swapped
  exact node

theorem Swapped.more (swapped : Swapped value other members others) :
    soleId? context members = none := by
  obtain ⟨node, read⟩ := swapped
  refine soleId?_of_mem (List.mem_append_right _ List.mem_cons_self) ?_
  rintro rfl
  exact read rfl

theorem Swapped.back (swapped : Swapped value other members others) :
    Swapped other value others members := by
  have node : Table.get? "@value" others = none :=
    (get?_swapped rfl swapped).symm.trans swapped.node
  obtain ⟨_, read⟩ := swapped
  exact ⟨node, read⟩

/-- An embedded node object and a reference to it make the same statement, and so do the values
around. -/
theorem itemTerm_of_hoists (hoists : Hoists hoisted value other) :
    itemTerm context 0 value = itemTerm context 0 other := by
  cases hoists with
  | here node named more =>
      obtain ⟨member, inside, apart⟩ := more
      simp only [itemTerm, node, soleId?_of_mem inside apart]
      rw [idAt, textMember?_of_string named]
      rfl
  | element hoists => rfl
  | inside hoists swapped =>
      simp only [itemTerm, swapped.node, swapped.more, swapped.back.node, swapped.back.more]
      rw [idAt, idAt, textMember?_swapped rfl swapped]

theorem fits_of_hoists (hoists : Hoists hoisted value other) : Fits value ↔ Fits other := by
  cases hoists with
  | here node named more => simp [Fits, node, Table.get?]
  | element hoists => exact Iff.rfl
  | inside hoists swapped => simp [Fits, swapped.node, swapped.back.node]

theorem exists_items_of_hoists (hoists : Hoists hoisted value other) :
    ∃ before item replaced after, Hoists hoisted item replaced ∧
      items value = before ++ item :: after ∧ items other = before ++ replaced :: after := by
  cases hoists with
  | here node named more => exact ⟨[], _, _, [], .here node named more, rfl, rfl⟩
  | element hoists => exact ⟨_, _, _, _, hoists, rfl, rfl⟩
  | inside hoists swapped => exact ⟨[], _, _, [], .inside hoists swapped, rfl, rfl⟩

/-! ### The node objects around -/

section

variable {before after : Members} {key : String}

theorem ne_type_of_read (read : key.toList.head? ≠ some '@') : key ≠ "@type" := by
  rintro rfl
  exact read rfl

theorem objectsInMembers_around (read : key.toList.head? ≠ some '@') :
    objectsInMembers (before ++ (key, value) :: after) =
      objectsInMembers before ++ (objectsIn value ++ objectsInMembers after) := by
  rw [objectsInMembers_append, objectsInMembers, if_neg read]

theorem fitsMember_of_hoists (read : key.toList.head? ≠ some '@')
    (hoists : Hoists hoisted value other) : FitsMember (key, value) ↔ FitsMember (key, other) := by
  obtain ⟨start, item, replaced, rest, inside, ofValue, ofOther⟩ := exists_items_of_hoists hoists
  simp only [FitsMember, if_neg (ne_type_of_read read), if_neg read, ofValue, ofOther, List.forall_mem_append,
    List.forall_mem_cons, fits_of_hoists inside]

theorem ownStatements_of_hoists (read : key.toList.head? ≠ some '@')
    (hoists : Hoists hoisted value other) (named : unnamed (objectsIn value) = 0)
    (stillNamed : unnamed (objectsIn other) = 0) :
    ownStatements context 0 [(key, value)] = ownStatements context 0 [(key, other)] := by
  obtain ⟨start, item, replaced, rest, inside, ofValue, ofOther⟩ := exists_items_of_hoists hoists
  rw [← objectsInAll_items] at named stillNamed
  simp only [ownStatements, if_neg (ne_type_of_read read), if_neg read]
  rw [itemStatements_of_named named, itemStatements_of_named stillNamed, ofValue, ofOther,
    List.filterMap_append, List.filterMap_append, List.filterMap_cons, List.filterMap_cons,
    itemTerm_of_hoists inside]

end

theorem gist_of_hoists (hoists : Hoists hoisted value other)
    (swapped : Swapped value other members others)
    (named : unnamed (objectsInMembers members) = 0)
    (stillNamed : unnamed (objectsInMembers others) = 0) :
    gist context members = gist context others := by
  have name : textMember? "@id" members = textMember? "@id" others :=
    textMember?_swapped rfl swapped
  have identified : Identified members ↔ Identified others := by
    rw [Identified, Identified, get?_swapped rfl swapped]
  have statements : ownStatements context 0 members = ownStatements context 0 others := by
    rw [ownStatements_of_named named, ownStatements_of_named stillNamed]
    obtain ⟨node, read⟩ := swapped
    rw [objectsInMembers_around read, unnamed_append_eq_zero, unnamed_append_eq_zero]
      at named stillNamed
    rw [List.flatMap_append, List.flatMap_append, List.flatMap_cons, List.flatMap_cons,
      ownStatements_of_hoists read hoists named.2.1 stillNamed.2.1]
  have readable : Readable members ↔ Readable others := by
    rw [readable_iff, readable_iff, identified]
    obtain ⟨node, read⟩ := swapped
    simp only [List.forall_mem_append, List.forall_mem_cons, fitsMember_of_hoists read hoists]
  rw [gist, gist, name, statements, propext readable]

theorem gists_of_swapped (swapped : Swapped value other members others) {moved : Multiset Gist}
    (inside : gists context (objectsIn value) = moved + gists context (objectsIn other)) :
    gists context (objectsInMembers members) =
      moved + gists context (objectsInMembers others) := by
  obtain ⟨node, read⟩ := swapped
  rw [objectsInMembers_around read, objectsInMembers_around read]
  simp only [gists_append, inside]
  abel

theorem gists_rootObjects (hoists : Hoists hoisted value other)
    (swapped : Swapped value other members others) {moved : Multiset Gist}
    (inside : gists context (objectsIn value) = moved + gists context (objectsIn other))
    (named : unnamed (objectsInMembers members) = 0) :
    gists context (rootObjects (.object members)) =
      moved + gists context (rootObjects (.object others)) := by
  have lost := gists_of_swapped swapped inside
  have stillNamed : unnamed (objectsInMembers others) = 0 := by
    rw [unnamed_eq_countP context, lost, Multiset.countP_add, Nat.add_eq_zero_iff] at named
    rw [unnamed_eq_countP context]
    exact named.2
  rw [rootObjects, rootObjects, gists_cons, gists_cons, lost,
    gist_of_hoists hoists swapped named stillNamed, Multiset.add_cons]

theorem objectsIn_of_node (node : Table.get? "@value" members = none)
    (more : soleId? [] members = none) :
    objectsIn (.object members) = rootObjects (.object members) := by
  rw [objectsIn, node, more]
  simp [rootObjects]

/-- The node objects in a value are those that are left when one of them is moved, with the one
that is moved and those inside it. -/
theorem gists_of_hoists (hoists : Hoists hoisted value other)
    (named : unnamed (objectsIn value) = 0) :
    gists context (objectsIn value) =
      gists context (rootObjects (.object hoisted)) + gists context (objectsIn other) := by
  induction hoists with
  | here node referred more =>
      obtain ⟨member, inside, apart⟩ := more
      rw [objectsIn_of_node node (soleId?_of_mem inside apart)]
      simp [objectsIn, Table.get?, soleId?, gists]
  | element hoists ih =>
      rw [objectsIn, objectsInAll_append, objectsInAll, unnamed_append_eq_zero,
        unnamed_append_eq_zero] at named
      simp only [objectsIn, objectsInAll_append, objectsInAll, gists_append, ih named.2.1]
      abel
  | inside hoists swapped ih =>
      rw [objectsIn_of_node swapped.node swapped.more] at named ⊢
      rw [objectsIn_of_node swapped.back.node swapped.back.more]
      rw [rootObjects, unnamed_cons_eq_zero] at named
      refine gists_rootObjects hoists swapped (ih ?_) named.2
      obtain ⟨node, read⟩ := swapped
      rw [objectsInMembers_around read, unnamed_append_eq_zero, unnamed_append_eq_zero] at named
      exact named.2.2.1

/-! ### Graphs -/

theorem indexed_of_graphOf {nodes : List Json} {graph : Graph}
    (success : graphOf context nodes = .ok graph) : graph.Indexed := by
  obtain ⟨⟨_, loading⟩, read, same⟩ := Outcome.bind_eq_ok.mp success
  cases same
  exact (addNodes_reads Graph.indexed_empty read).grown.indexed

theorem Describes.known_iff_mem {graph : Graph} {placements : List Placement}
    (describes : Describes graph placements) (id : String) :
    (graph.node? id).isSome ↔ id ∈ (placements.map Placement.part).map Prod.fst := by
  rw [describes.known, List.map_map, List.mem_map]
  rfl

theorem contents_of_gists {nodes others : List Json} {graph other : Graph}
    (named : unnamed (nodes.flatMap rootObjects) = 0)
    (same : gists context (nodes.flatMap rootObjects) = gists context (others.flatMap rootObjects))
    (made : graphOf context nodes = .ok graph) (otherMade : graphOf context others = .ok other) :
    graph.contents = other.contents := by
  have stillNamed : unnamed (others.flatMap rootObjects) = 0 := by
    rw [unnamed_eq_countP context, ← same, ← unnamed_eq_countP]
    exact named
  have describes := graphOf_describes made
  have otherDescribes := graphOf_describes otherMade
  -- the parts that make the graphs are the same but for their order
  have parts : List.Perm ((place context 0 (nodes.flatMap rootObjects)).map Placement.part)
      ((place context 0 (others.flatMap rootObjects)).map Placement.part) := by
    rw [place_of_named named, place_of_named stillNamed]
    have perm := (Multiset.coe_eq_coe.mp same).map (Gist.part context)
    rw [List.map_map, List.map_map] at perm
    exact perm
  refine Graph.contents_congr (indexed_of_graphOf made) (indexed_of_graphOf otherMade) ?_ ?_
  · intro id
    rw [describes.known_iff_mem, otherDescribes.known_iff_mem]
    exact (parts.map Prod.fst).mem_iff
  · intro id
    rw [describes.stated, otherDescribes.stated]
    exact (parts.map _).sum_eq

/-- If every node object has a name, it does not matter for the graph in which order they come,
nor what else than their gists they hold. -/
theorem graphOf_congr {nodes others : List Json}
    (objects : (∀ node ∈ nodes, IsObject node) ↔ ∀ node ∈ others, IsObject node)
    (named : unnamed (nodes.flatMap rootObjects) = 0)
    (same : gists context (nodes.flatMap rootObjects) =
      gists context (others.flatMap rootObjects)) :
    (graphOf context nodes).toOption.map Graph.contents =
      (graphOf context others).toOption.map Graph.contents := by
  have readable : ∀ objects : List Members,
      (∀ inner ∈ objects, Readable inner) ↔ ∀ gist ∈ gists context objects, gist.readable := by
    intro objects
    simp [gists, gist]
  have accepted : (∃ graph, graphOf context nodes = .ok graph) ↔
      ∃ graph, graphOf context others = .ok graph := by
    rw [exists_graphOf_iff, exists_graphOf_iff, objects, readable, readable, same]
  cases made : graphOf context nodes with
  | ok graph =>
      obtain ⟨other, otherMade⟩ := accepted.mp ⟨graph, made⟩
      rw [otherMade]
      exact congrArg some (contents_of_gists named same made otherMade)
  | error e =>
      cases otherMade : graphOf context others with
      | error e => rfl
      | ok other =>
          obtain ⟨graph, impossible⟩ := accepted.mpr ⟨other, otherMade⟩
          rw [made] at impossible
          cases impossible

/-! ### Flattened documents -/

theorem Flattens.isObject_iff {nodes flat : List Json} (flattens : Flattens hoisted nodes flat) :
    (∀ node ∈ nodes, IsObject node) ↔ ∀ node ∈ flat, IsObject node := by
  obtain ⟨hoists, swapped, beside⟩ := flattens
  have others := congrArg (fun list => ∀ node ∈ list, IsObject node) beside
  simp only [List.forall_mem_append, List.forall_mem_cons, IsObject, true_and] at others ⊢
  rw [others]

theorem Flattens.gists_eq {nodes flat : List Json} (flattens : Flattens hoisted nodes flat)
    (named : unnamed (nodes.flatMap rootObjects) = 0) :
    gists context (nodes.flatMap rootObjects) = gists context (flat.flatMap rootObjects) := by
  obtain @⟨before, after, left, right, members, others, value, other, hoists, swapped, beside⟩ :=
    flattens
  rw [List.flatMap_append, List.flatMap_cons, unnamed_append_eq_zero, unnamed_append_eq_zero,
    rootObjects, unnamed_cons_eq_zero] at named
  have inside : unnamed (objectsIn value) = 0 := by
    have ofMembers := named.2.1.2
    obtain ⟨node, read⟩ := swapped
    rw [objectsInMembers_around read, unnamed_append_eq_zero, unnamed_append_eq_zero] at ofMembers
    exact ofMembers.2.1
  have lost : gists context (objectsIn value) = _ := gists_of_hoists hoists inside
  have moved := gists_rootObjects hoists swapped lost named.2.1.2
  have around := congrArg (fun nodes => gists context (nodes.flatMap rootObjects)) beside
  simp only [List.flatMap_append, List.flatMap_cons, gists_append] at around ⊢
  rw [moved]
  calc gists context (before.flatMap rootObjects) +
        (gists context (rootObjects (.object hoisted)) +
            gists context (rootObjects (.object others)) +
          gists context (after.flatMap rootObjects))
      = gists context (rootObjects (.object hoisted)) +
          (gists context (before.flatMap rootObjects) +
            (gists context (rootObjects (.object others)) +
              gists context (after.flatMap rootObjects))) := by abel
    _ = gists context (left.flatMap rootObjects) +
          (gists context (rootObjects (.object hoisted)) +
            gists context (right.flatMap rootObjects)) := by
        rw [around]
        abel

theorem Flattens.unnamed_eq_zero {nodes flat : List Json} (flattens : Flattens hoisted nodes flat)
    (named : unnamed (nodes.flatMap rootObjects) = 0) :
    unnamed (flat.flatMap rootObjects) = 0 := by
  rw [unnamed_eq_countP [], ← flattens.gists_eq named, ← unnamed_eq_countP]
  exact named

/-- It may be done again and again, until no node object stands inside another one. -/
theorem graphOf_flattened {nodes flat : List Json}
    (named : unnamed (nodes.flatMap rootObjects) = 0)
    (steps : Relation.ReflTransGen (fun nodes flat => ∃ hoisted, Flattens hoisted nodes flat)
      nodes flat) :
    (graphOf context nodes).toOption.map Graph.contents =
      (graphOf context flat).toOption.map Graph.contents := by
  induction steps using Relation.ReflTransGen.head_induction_on with
  | refl => rfl
  | head step _ ih =>
      obtain ⟨hoisted, flattens⟩ := step
      exact (graphOf_congr flattens.isObject_iff named (flattens.gists_eq named)).trans
        (ih (flattens.unnamed_eq_zero named))

def graphDocument (definitions : Json) (nodes : List Json) : Json :=
  .object [("@context", definitions), ("@graph", .array nodes)]

theorem exists_read_graphDocument_iff {definitions : Json} {nodes : List Json} :
    (∃ graph, read (graphDocument definitions nodes) = .ok graph) ↔
      (∃ context, readContext [] definitions = .ok context) ∧
        (∀ node ∈ nodes, IsObject node) ∧
        ∀ members ∈ nodeObjects (graphDocument definitions nodes), Readable members := by
  change (∃ graph, (readContext [] definitions >>= fun context => graphOf context nodes) =
    .ok graph) ↔ _
  cases readContext [] definitions with
  | error e =>
      constructor
      · rintro ⟨graph, success⟩
        cases success
      · rintro ⟨⟨context, impossible⟩, _⟩
        cases impossible
  | ok context =>
      refine exists_graphOf_iff.trans ⟨fun accepted => ⟨⟨context, rfl⟩, accepted⟩, ?_⟩
      rintro ⟨_, accepted⟩
      exact accepted

/-- A document is accepted exactly if its context, the kind of its nodes and each of its node
objects allow it. If it is flattened, it is accepted as before, and the graph has the same nodes
and the same statements of each node. -/
theorem read_flattened {definitions : Json} {nodes flat : List Json}
    (named : ∀ members ∈ nodeObjects (graphDocument definitions nodes),
      ∃ id, Table.get? "@id" members = some (.string id))
    (flattens : Flattens hoisted nodes flat) :
    ((∃ graph, read (graphDocument definitions nodes) = .ok graph) ↔
      (∃ context, readContext [] definitions = .ok context) ∧
        (∀ node ∈ nodes, IsObject node) ∧
        ∀ members ∈ nodeObjects (graphDocument definitions nodes), Readable members) ∧
      (read (graphDocument definitions nodes)).toOption.map Graph.contents =
        (read (graphDocument definitions flat)).toOption.map Graph.contents := by
  refine ⟨exists_read_graphDocument_iff, ?_⟩
  have allNamed : unnamed (nodes.flatMap rootObjects) = 0 := unnamed_of_named named
  change (readContext [] definitions >>= fun context => graphOf context nodes).toOption.map _ =
    (readContext [] definitions >>= fun context => graphOf context flat).toOption.map _
  cases readContext [] definitions with
  | error e => rfl
  | ok context => exact graphOf_flattened allNamed (.single ⟨hoisted, flattens⟩)

def bob : Members := [("@id", .string "ex:bob"), ("ex:name", .string "Bob")]

def ann (known : Json) : Members := [("@id", .string "ex:ann"), ("ex:knows", .array [known])]

theorem read_flattened_ann :
    let definitions := Json.object [("ex", .string "http://example.org/")]
    let embedded := graphDocument definitions [.object (ann (.object bob))]
    let flat := graphDocument definitions
      [.object (ann (.object [("@id", .string "ex:bob")])), .object bob]
    (∃ graph, read embedded = .ok graph) ∧
      (read embedded).toOption.map Graph.contents = (read flat).toOption.map Graph.contents := by
  intro definitions embedded flat
  have named : ∀ members ∈ nodeObjects embedded,
      ∃ id, Table.get? "@id" members = some (.string id) := by
    intro members member
    have objects : nodeObjects embedded = [ann (.object bob), bob] := rfl
    rw [objects] at member
    rcases List.mem_pair.mp member with rfl | rfl
    · exact ⟨_, rfl⟩
    · exact ⟨_, rfl⟩
  have hoists : Hoists bob (.object bob) (.object [("@id", .string "ex:bob")]) :=
    .here rfl rfl ⟨("ex:name", .string "Bob"), List.mem_cons_of_mem _ List.mem_cons_self, by decide⟩
  have known : Hoists bob (.array [.object bob]) (.array [.object [("@id", .string "ex:bob")]]) :=
    @Hoists.element bob [] [] _ _ hoists
  have swapped : Swapped (.array [.object bob]) (.array [.object [("@id", .string "ex:bob")]])
      (ann (.object bob)) (ann (.object [("@id", .string "ex:bob")])) :=
    @Swapped.mk _ _ [("@id", .string "ex:ann")] [] "ex:knows" rfl (by decide)
  have flattens : Flattens bob [.object (ann (.object bob))]
      [.object (ann (.object [("@id", .string "ex:bob")])), .object bob] :=
    @Flattens.mk bob [] [] [_] [] _ _ _ _ known swapped rfl
  exact ⟨⟨_, rfl⟩, (read_flattened named flattens).2⟩

end RdfMapping.JsonLd
