import RdfMapping.Proofs.Graph.Described
/-!
Which documents are accepted. Each condition is on a single node object: it has no identifier or
one that is a text, its types are texts, and what it says holds no array within an array and no
literal without a text. The order of the node objects, the context and the names that have been
given so far play no part.
-/

namespace RdfMapping.JsonLd

def HasText : Json → Prop
  | .string _ | .number _ | .bool _ => True
  | .null | .array _ | .object _ => False

/-- An item of a key is no array and, if it is a literal, has a text. -/
def Fits : Json → Prop
  | .array _ => False
  | .object members => ∀ value, Table.get? "@value" members = some value → HasText value
  | _ => True

/-- A member of a node object can be read, apart from the node objects in it. -/
def FitsMember (member : String × Json) : Prop :=
  if member.1 = "@type" then ∀ type ∈ items member.2, type.string?.isSome
  else if member.1.toList.head? = some '@' then True
  else ∀ item ∈ items member.2, Fits item

/-- A node object can be read, apart from the node objects in it. -/
structure Readable (members : List (String × Json)) : Prop where
  identified : Identified members
  fits : ∀ member ∈ members, FitsMember member

theorem readable_iff {members : List (String × Json)} :
    Readable members ↔ Identified members ∧ ∀ member ∈ members, FitsMember member :=
  ⟨fun readable => ⟨readable.identified, readable.fits⟩, fun ⟨identified, fits⟩ =>
    ⟨identified, fits⟩⟩

def IsObject : Json → Prop
  | .object _ => True
  | _ => False

/-- An action of the reader succeeds exactly under a condition, whatever has been read before. -/
def SucceedsIff {α : Type} (action : LoadM α) (condition : Prop) : Prop :=
  ∀ before, (∃ result, action.run before = .ok result) ↔ condition

variable {context : Context} {id predicate : String}

/-! ### Actions one after another -/

section

variable {α β : Type} {first : LoadM α} {later : α → LoadM β} {condition further : Prop}

theorem SucceedsIff.congr (succeeds : SucceedsIff first condition)
    (same : condition ↔ further) : SucceedsIff first further := by
  intro before
  rw [succeeds before, same]

theorem SucceedsIff.bind (succeeds : SucceedsIff first condition)
    (goesOn : ∀ value, SucceedsIff (later value) further) :
    SucceedsIff (first >>= later) (condition ∧ further) := by
  intro before
  constructor
  · rintro ⟨result, success⟩
    obtain ⟨value, between, firstDone, laterDone⟩ := run_bind_eq_ok.mp success
    exact ⟨(succeeds before).mp ⟨_, firstDone⟩, (goesOn value between).mp ⟨_, laterDone⟩⟩
  · rintro ⟨holds, others⟩
    obtain ⟨⟨value, between⟩, firstDone⟩ := (succeeds before).mpr holds
    obtain ⟨result, laterDone⟩ := (goesOn value between).mpr others
    exact ⟨result, run_bind_eq_ok.mpr ⟨value, between, firstDone, laterDone⟩⟩

theorem succeedsIff_pure (value : α) : SucceedsIff (pure value) True :=
  fun before => ⟨fun _ => trivial, fun _ => ⟨(value, before), rfl⟩⟩

theorem succeedsIff_throw (e : MappingError) : SucceedsIff (throw e : LoadM α) False := by
  intro before
  refine ⟨?_, False.elim⟩
  rintro ⟨result, success⟩
  cases success

theorem succeedsIff_addStatement (object : NodeTerm) :
    SucceedsIff (addStatement id predicate object) True :=
  fun _ => ⟨fun _ => trivial, fun _ => ⟨_, rfl⟩⟩

theorem succeedsIff_ensureNode : SucceedsIff (ensureNode id) True :=
  fun _ => ⟨fun _ => trivial, fun _ => ⟨_, rfl⟩⟩

end

/-! ### What the reader accepts -/

theorem succeedsIff_identify (members : List (String × Json)) :
    SucceedsIff (identify context members) (Identified members) := by
  unfold identify Identified
  cases Table.get? "@id" members with
  | none =>
      intro before
      exact ⟨fun _ => .inl rfl, fun _ => ⟨_, rfl⟩⟩
  | some value =>
      cases value with
      | string text => exact (succeedsIff_pure _).congr (by simp)
      | _ => exact (succeedsIff_throw _).congr (by simp)

theorem succeedsIff_literal (value : Json) (members : List (String × Json)) :
    SucceedsIff (literal context value members) (HasText value) := by
  cases value with
  | string | number | bool => exact succeedsIff_pure _
  | null | array | object => exact succeedsIff_throw _

theorem succeedsIff_addTypes (types : List Json) :
    SucceedsIff (addTypes context id types) (∀ type ∈ types, type.string?.isSome) := by
  induction types with
  | nil => exact (succeedsIff_pure ()).congr (by simp)
  | cons type rest ih =>
      cases type with
      | string text =>
          exact ((succeedsIff_addStatement _).bind fun _ => ih).congr (by simp [Json.string?])
      | _ => exact (succeedsIff_throw _).congr (by simp [Json.string?])

-- By induction on the document, the condition on what is inside being that on each of the node
-- objects that are listed there.
mutual

theorem succeedsIff_addMembers : ∀ (members : List (String × Json)) (id : String),
    SucceedsIff (addMembers context id members)
      ((∀ member ∈ members, FitsMember member) ∧
        ∀ inner ∈ objectsInMembers members, Readable inner)
  | [], _ => (succeedsIff_pure ()).congr (by simp [objectsInMembers])
  | (key, value) :: rest, id => by
      have first : SucceedsIff (addMember context id (key, value))
          (FitsMember (key, value) ∧ ∀ inner ∈ objectsInMembers [(key, value)], Readable inner) := by
        simp only [addMember, FitsMember, objectsInMembers, List.append_nil]
        by_cases type : key = "@type"
        · rw [if_pos type, if_pos type, if_pos (by rw [type]; decide)]
          exact (succeedsIff_addTypes _).congr (by simp)
        · rw [if_neg type, if_neg type]
          by_cases skipped : key.toList.head? = some '@'
          · rw [if_pos skipped, if_pos skipped, if_pos skipped]
            exact (succeedsIff_pure ()).congr (by simp)
          · rw [if_neg skipped, if_neg skipped, if_neg skipped]
            cases value with
            | array elements => exact succeedsIff_addItems elements id _
            | _ =>
                simp only [items, addItems_singleton, List.mem_singleton, forall_eq]
                exact succeedsIff_addItem _ id _
      rw [addMembers_cons, objectsInMembers_cons (key, value) rest]
      refine (first.bind fun _ => succeedsIff_addMembers rest id).congr ?_
      rw [List.forall_mem_cons, List.forall_mem_append]
      tauto

theorem succeedsIff_addItems : ∀ (elements : List Json) (id predicate : String),
    SucceedsIff (addItems context id predicate elements)
      ((∀ element ∈ elements, Fits element) ∧ ∀ inner ∈ objectsInAll elements, Readable inner)
  | [], _, _ => (succeedsIff_pure ()).congr (by simp [objectsInAll])
  | element :: rest, id, predicate => by
      rw [addItems, objectsInAll]
      refine ((succeedsIff_addItem element id predicate).bind fun _ =>
        succeedsIff_addItems rest id predicate).congr ?_
      rw [List.forall_mem_cons, List.forall_mem_append]
      tauto

theorem succeedsIff_addItem : ∀ (item : Json) (id predicate : String),
    SucceedsIff (addItem context id predicate item)
      (Fits item ∧ ∀ inner ∈ objectsIn item, Readable inner)
  | .null, _, _ => (succeedsIff_pure ()).congr (by simp [Fits, objectsIn])
  | .string _, _, _ => (succeedsIff_addStatement _).congr (by simp [Fits, objectsIn])
  | .bool _, _, _ => (succeedsIff_addStatement _).congr (by simp [Fits, objectsIn])
  | .number _, _, _ => (succeedsIff_addStatement _).congr (by simp [Fits, objectsIn])
  | .array _, _, _ => (succeedsIff_throw _).congr (by simp [Fits])
  | .object members, id, predicate => by
      rw [addItem, objectsIn]
      cases scalar : Table.get? "@value" members with
      | some value =>
          refine ((succeedsIff_literal value members).bind fun _ =>
            succeedsIff_addStatement _).congr ?_
          simp [Fits, scalar]
      | none =>
          have fits : Fits (.object members) := by
            intro value given
            rw [scalar] at given
            cases given
          rw [← isSome_soleId? context]
          cases soleId? context members with
          | some target => exact (succeedsIff_addStatement _).congr (by simp [fits])
          | none =>
              refine ((succeedsIff_identify members).bind fun target =>
                succeedsIff_ensureNode.bind fun _ =>
                  (succeedsIff_addMembers members target).bind fun _ =>
                    succeedsIff_addStatement _).congr ?_
              simp only [Option.isSome_none, Bool.false_eq_true, or_self, if_false, fits,
                List.forall_mem_cons, true_and, and_true, readable_iff, and_assoc]

end

theorem succeedsIff_addNode (root : Json) :
    SucceedsIff (addNode context root)
      (IsObject root ∧ ∀ inner ∈ rootObjects root, Readable inner) := by
  cases root with
  | object members =>
      refine ((succeedsIff_identify members).bind fun target =>
        succeedsIff_ensureNode.bind fun _ => succeedsIff_addMembers members target).congr ?_
      simp only [IsObject, rootObjects, List.forall_mem_cons, true_and, readable_iff, and_assoc]
  | _ => exact (succeedsIff_throw _).congr (by simp [IsObject])

theorem succeedsIff_addNodes (nodes : List Json) :
    SucceedsIff (nodes.forM (addNode context))
      ((∀ node ∈ nodes, IsObject node) ∧
        ∀ inner ∈ nodes.flatMap rootObjects, Readable inner) := by
  induction nodes with
  | nil => exact (succeedsIff_pure ()).congr (by simp)
  | cons root rest ih =>
      rw [List.forM_eq_forM, List.forM_cons, List.flatMap_cons]
      refine ((succeedsIff_addNode root).bind fun _ => ih).congr ?_
      rw [List.forall_mem_cons, List.forall_mem_append]
      tauto

/-- A graph is made of values exactly if they are objects, and every node object in them can be
read. -/
theorem exists_graphOf_iff {nodes : List Json} :
    (∃ graph, graphOf context nodes = .ok graph) ↔
      (∀ node ∈ nodes, IsObject node) ∧ ∀ inner ∈ nodes.flatMap rootObjects, Readable inner := by
  have succeeds : SucceedsIff (nodes.forM (addNode context)) _ := succeedsIff_addNodes nodes
  rw [← succeeds ⟨.empty, 0⟩]
  constructor
  · rintro ⟨graph, success⟩
    obtain ⟨result, read, _⟩ := Outcome.bind_eq_ok.mp success
    exact ⟨result, read⟩
  · rintro ⟨⟨_, loading⟩, read⟩
    exact ⟨loading.graph, Outcome.bind_eq_ok.mpr ⟨_, read, rfl⟩⟩

end RdfMapping.JsonLd
