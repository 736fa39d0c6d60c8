import Mathlib.Tactic.Abel
import RdfMapping.Graph.JsonLd
import RdfMapping.Proofs.Graph.Nodes
import RdfMapping.Proofs.Outcome
/-!
What a document says of its node objects. The node objects of a document stand in the order in
which they are read; each is put under an identifier, its own or the next name of the counter,
and makes statements of its own. The graph of a document has the nodes of these identifiers,
and each node the statements of all the node objects that are put under its identifier.
-/

namespace RdfMapping.JsonLd

def label (number : Nat) : String := Term.blankMark ++ "b" ++ toString number

def idAt (context : Context) (number : Nat) (members : List (String × Json)) : String :=
  ((textMember? "@id" members).map (expand context)).getD (label number)

def Identified (members : List (String × Json)) : Prop :=
  Table.get? "@id" members = none ∨ ∃ text, Table.get? "@id" members = some (.string text)

def unnamed (objects : List (List (String × Json))) : Nat :=
  objects.countP fun members => (textMember? "@id" members).isNone

mutual

/-- The node objects among the members of one, in the order in which they are read. -/
def objectsInMembers : List (String × Json) → List (List (String × Json))
  | [] => []
  | (key, value) :: rest =>
      (if key.toList.head? = some '@' then [] else objectsIn value) ++ objectsInMembers rest

/-- The node objects in a value or in the values of an array. A literal and a reference are
none. -/
def objectsIn : Json → List (List (String × Json))
  | .object members =>
      if (Table.get? "@value" members).isSome ∨ (soleId? [] members).isSome then []
      else members :: objectsInMembers members
  | .array elements => objectsInAll elements
  | _ => []

def objectsInAll : List Json → List (List (String × Json))
  | [] => []
  | element :: rest => objectsIn element ++ objectsInAll rest

end

def scalarText : Json → String
  | .string text => text
  | value => value.render

/-- The object of the statement that is made of an item; null makes none. -/
def itemTerm (context : Context) (number : Nat) : Json → Option NodeTerm
  | .null => none
  | .string text => some (.plain text)
  | .bool truth =>
      some (.literal (Json.render (.bool truth)) (some Vocabulary.xsdBoolean) none)
  | .number value => some (.literal value.render (some (numberDatatype value)) none)
  | .array _ => none
  | .object members =>
      match Table.get? "@value" members, soleId? context members with
      | some value, _ =>
          some (.literal (scalarText value) ((textMember? "@type" members).map (expand context))
            (textMember? "@language" members))
      | none, some target => some (.ofId target)
      | none, none => some (.ofId (idAt context number members))

def typeStatements (context : Context) (types : List Json) : List (String × NodeTerm) :=
  types.filterMap fun type =>
    type.string?.map fun text => (Vocabulary.rdfType, .ofId (expand context text))

def itemStatements (context : Context) (predicate : String) (number : Nat) :
    List Json → List (String × NodeTerm)
  | [] => []
  | element :: rest =>
      ((itemTerm context number element).map (predicate, ·)).toList ++
        itemStatements context predicate (number + unnamed (objectsIn element)) rest

def ownStatements (context : Context) (number : Nat) :
    List (String × Json) → List (String × NodeTerm)
  | [] => []
  | (key, value) :: rest =>
      (if key = "@type" then typeStatements context (items value)
      else if key.toList.head? = some '@' then []
      else itemStatements context (expand context key) number (items value)) ++
        ownStatements context (number + unnamed (objectsInMembers [(key, value)])) rest

/-- A node object with the identifier that it is put under and the statements that it makes. -/
structure Placement where
  members : List (String × Json)
  id : String
  statements : List (String × NodeTerm)

def Placement.part (placement : Placement) : String × List (String × NodeTerm) :=
  (placement.id, placement.statements)

/-- The node objects with their identifiers, for a counter that stands at a number before the
first of them. -/
def place (context : Context) (number : Nat) : List (List (String × Json)) → List Placement
  | [] => []
  | members :: rest =>
      { members
        id := idAt context number members
        statements := ownStatements context (number + unnamed [members]) members } ::
        place context (number + unnamed [members]) rest

/-- The node objects in a value that is read as one itself, even if it is a reference. -/
def rootObjects : Json → List (List (String × Json))
  | .object members => members :: objectsInMembers members
  | _ => []

def roots (document : Json) : List Json :=
  match document with
  | .array nodes => nodes
  | .object members => ((Table.get? "@graph" members).map items).getD [document]
  | _ => []

def contextOf (document : Json) : Outcome Context :=
  match document with
  | .object members => readContext [] ((Table.get? "@context" members).getD .null)
  | _ => .ok []

def nodeObjects (document : Json) : List (List (String × Json)) :=
  (roots document).flatMap rootObjects

def placements (context : Context) (document : Json) : List Placement :=
  place context 0 (nodeObjects document)

variable {context : Context}

/-! ### Counting -/

theorem unnamed_append (objects further : List (List (String × Json))) :
    unnamed (objects ++ further) = unnamed objects + unnamed further := List.countP_append

theorem unnamed_cons (members : List (String × Json)) (rest : List (List (String × Json))) :
    unnamed (members :: rest) = unnamed [members] + unnamed rest := unnamed_append [members] rest

theorem unnamed_of_none {members : List (String × Json)}
    (nameless : textMember? "@id" members = none) : unnamed [members] = 1 := by
  rw [unnamed, List.countP_singleton, nameless]
  rfl

theorem unnamed_of_some {members : List (String × Json)} {text : String}
    (given : textMember? "@id" members = some text) : unnamed [members] = 0 := by
  rw [unnamed, List.countP_singleton, given]
  rfl

theorem textMember?_of_absent {name : String} {members : List (String × Json)}
    (absent : Table.get? name members = none) : textMember? name members = none := by
  rw [textMember?, absent]
  rfl

theorem textMember?_of_string {name : String} {members : List (String × Json)} {text : String}
    (given : Table.get? name members = some (.string text)) :
    textMember? name members = some text := by
  rw [textMember?, given]
  rfl

theorem place_append (objects further : List (List (String × Json))) (number : Nat) :
    place context number (objects ++ further) =
      place context number objects ++ place context (number + unnamed objects) further := by
  induction objects generalizing number with
  | nil => rfl
  | cons members rest ih =>
      rw [List.cons_append, place, place, ih, unnamed_cons members rest, Nat.add_assoc,
        List.cons_append]

theorem mem_of_place {objects : List (List (String × Json))} {number : Nat}
    {placement : Placement} (member : placement ∈ place context number objects) :
    placement.members ∈ objects ∧
      ∀ text, textMember? "@id" placement.members = some text →
        placement.id = expand context text := by
  induction objects generalizing number with
  | nil => cases member
  | cons members rest ih =>
      rcases List.mem_cons.mp member with rfl | later
      · refine ⟨List.mem_cons_self, ?_⟩
        intro text given
        rw [idAt, given]
        rfl
      · obtain ⟨inRest, ids⟩ := ih later
        exact ⟨List.mem_cons_of_mem _ inRest, ids⟩

theorem objectsInMembers_cons (member : String × Json) (rest : List (String × Json)) :
    objectsInMembers (member :: rest) = objectsInMembers [member] ++ objectsInMembers rest := by
  obtain ⟨key, value⟩ := member
  simp only [objectsInMembers, List.append_nil]

theorem ownStatements_cons (number : Nat) (member : String × Json)
    (rest : List (String × Json)) :
    ownStatements context number (member :: rest) =
      ownStatements context number [member] ++
        ownStatements context (number + unnamed (objectsInMembers [member])) rest := by
  obtain ⟨key, value⟩ := member
  simp only [ownStatements, List.append_nil]

theorem itemStatements_singleton (predicate : String) (number : Nat) (item : Json) :
    itemStatements context predicate number [item] =
      ((itemTerm context number item).map (predicate, ·)).toList := by
  rw [itemStatements, itemStatements, List.append_nil]

/-! ### Runs of the reader -/

theorem run_bind_eq_ok {α β : Type} {first : LoadM α} {later : α → LoadM β}
    {loading : Loading} {result : β × Loading} :
    (first >>= later).run loading = .ok result ↔
      ∃ value between, first.run loading = .ok (value, between) ∧
        (later value).run between = .ok result := by
  rw [StateT.run_bind]
  constructor
  · intro success
    obtain ⟨⟨value, between⟩, firstDone, laterDone⟩ := Outcome.bind_eq_ok.mp success
    exact ⟨value, between, firstDone, laterDone⟩
  · rintro ⟨value, between, firstDone, laterDone⟩
    exact Outcome.bind_eq_ok.mpr ⟨(value, between), firstDone, laterDone⟩

theorem run_identify {members : List (String × Json)} {before after : Loading} {id : String}
    (success : (identify context members).run before = .ok (id, after)) :
    id = idAt context before.names members ∧
      after = { before with names := before.names + unnamed [members] } ∧
      Identified members := by
  rw [identify] at success
  split at success
  · next text given =>
      cases success
      have named := textMember?_of_string given
      refine ⟨?_, ?_, .inr ⟨text, given⟩⟩
      · rw [idAt, named]
        rfl
      · rw [unnamed_of_some named]
        rfl
  · cases success
  · next absent =>
      cases success
      have nameless := textMember?_of_absent absent
      refine ⟨?_, ?_, .inl absent⟩
      · rw [idAt, nameless]
        rfl
      · rw [unnamed_of_none nameless]

theorem run_literal {value : Json} {members : List (String × Json)} {before after : Loading}
    {term : NodeTerm} (success : (literal context value members).run before = .ok (term, after)) :
    term = .literal (scalarText value) ((textMember? "@type" members).map (expand context))
      (textMember? "@language" members) ∧ after = before := by
  cases value with
  | string text =>
      cases success
      exact ⟨rfl, rfl⟩
  | number number =>
      cases success
      exact ⟨rfl, rfl⟩
  | bool truth =>
      cases success
      exact ⟨rfl, rfl⟩
  | null => cases success
  | array elements => cases success
  | object members => cases success

def addMember (context : Context) (id : String) : String × Json → LoadM Unit
  | (key, value) =>
      if key = "@type" then addTypes context id (items value)
      else if key.toList.head? = some '@' then pure ()
      else addItems context id (expand context key) (items value)

theorem addItems_singleton (id predicate : String) (item : Json) :
    addItems context id predicate [item] = addItem context id predicate item := by
  rw [addItems, addItems, bind_pure]

theorem addMembers_cons (id : String) (member : String × Json) (rest : List (String × Json)) :
    addMembers context id (member :: rest) =
      addMember context id member >>= fun _ => addMembers context id rest := by
  obtain ⟨key, value⟩ := member
  by_cases type : key = "@type"
  · cases value <;> simp [addMembers, addMember, type]
  · by_cases skipped : key.toList.head? = some '@'
    · cases value <;> simp [addMembers, addMember, type, skipped]
    · cases value <;>
        simp [addMembers, addMember, type, skipped, items, addItems_singleton]

theorem isSome_soleId? (context : Context) (members : List (String × Json)) :
    (soleId? context members).isSome = (soleId? [] members).isSome := by
  unfold soleId?
  split <;> rfl

/-- The reader has gone from one state to another by reading node objects. What was stated
besides, of a node object that is not read to its end, stands in parts. -/
structure Reads (context : Context) (parts : List (String × List (String × NodeTerm)))
    (objects : List (List (String × Json))) (before after : Loading) : Prop where
  names : after.names = before.names + unnamed objects
  identified : ∀ members ∈ objects, Identified members
  grown : before.graph.Grown after.graph
    (parts ++ (place context before.names objects).map Placement.part)

structure Ready (id : String) (loading : Loading) : Prop where
  indexed : loading.graph.Indexed
  known : (loading.graph.node? id).isSome

variable {parts further : List (String × List (String × NodeTerm))}
  {objects others : List (List (String × Json))} {before between after : Loading} {id : String}

theorem Reads.refl (indexed : before.graph.Indexed) : Reads context [] [] before before where
  names := rfl
  identified := by simp
  grown := .refl indexed

theorem Reads.trans (first : Reads context parts objects before between)
    (second : Reads context further others between after) :
    Reads context (parts ++ further) (objects ++ others) before after where
  names := by rw [second.names, first.names, unnamed_append, Nat.add_assoc]
  identified := by
    intro members member
    rcases List.mem_append.mp member with earlier | later
    · exact first.identified members earlier
    · exact second.identified members later
  grown := by
    have both := first.grown.trans second.grown
    rw [place_append, ← first.names]
    refine both.congr ?_ ?_
    · intro other
      simp only [List.map_append, List.mem_append]
      tauto
    · intro other
      simp only [List.map_append, Graph.given_append]
      abel

theorem Reads.join {statements more : List (String × NodeTerm)}
    (reads : Reads context [(id, statements), (id, more)] objects before after) :
    Reads context [(id, statements ++ more)] objects before after where
  names := reads.names
  identified := reads.identified
  grown := by
    refine reads.grown.congr ?_ ?_
    · intro other
      simp
    · intro other
      simp only [List.cons_append, List.nil_append, Graph.given_cons]
      split
      · rw [← Multiset.coe_add, add_assoc]
      · rw [zero_add]

theorem Reads.ready {statements : List (String × NodeTerm)}
    (reads : Reads context [(id, statements)] objects before after) : Ready id after where
  indexed := reads.grown.indexed
  known := (reads.grown.known id).mpr (.inr List.mem_cons_self)

theorem Ready.ensure {graph : Graph} (indexed : graph.Indexed) (id : String) {names : Nat} :
    Ready id { graph := graph.ensure id, names } where
  indexed := indexed.ensure id
  known := ((Graph.Grown.ensure indexed id).known id).mpr (.inr List.mem_cons_self)

theorem Reads.nothing (ready : Ready id before) :
    Reads context [(id, [])] [] before before where
  names := rfl
  identified := by simp
  grown := .skip ready.indexed ready.known

theorem Reads.state (ready : Ready id before) (predicate : String) (object : NodeTerm) :
    Reads context [(id, [(predicate, object)])] [] before
      { before with graph := before.graph.add id predicate object } where
  names := rfl
  identified := by simp
  grown := .add ready.indexed id predicate object

theorem Reads.close {members : List (String × Json)}
    (indexed : before.graph.Indexed) (identified : Identified members)
    (reads : Reads context
      [(idAt context before.names members,
        ownStatements context (before.names + unnamed [members]) members)]
      objects
      { graph := before.graph.ensure (idAt context before.names members)
        names := before.names + unnamed [members] } after) :
    Reads context [] (members :: objects) before after where
  names := by
    rw [reads.names, Nat.add_assoc, ← unnamed_cons members objects]
  identified := List.forall_mem_cons.mpr ⟨identified, reads.identified⟩
  grown := by
    refine ((Graph.Grown.ensure indexed _).trans reads.grown).congr ?_ ?_
    · intro other
      simp [place, Placement.part]
    · intro other
      simp [place, Placement.part]

/-! ### What the reader does -/

theorem addTypes_reads (ready : Ready id before) {types : List Json}
    (success : (addTypes context id types).run before = .ok ((), after)) :
    Reads context [(id, typeStatements context types)] [] before after := by
  induction types generalizing before with
  | nil =>
      cases success
      exact .nothing ready
  | cons type rest ih =>
      cases type with
      | string text =>
          rw [addTypes, run_bind_eq_ok] at success
          obtain ⟨_, between, stated, later⟩ := success
          cases stated
          have first : Reads context _ [] before _ :=
            .state ready Vocabulary.rdfType (.ofId (expand context text))
          exact (first.trans (ih first.ready later)).join
      | _ => cases success

-- By induction on the document. The number at which the counter stands is part of each
-- statement, so that a node object inside gets the very name that `place` gives it in the list of
-- all node objects.
mutual

theorem addMembers_reads : ∀ {members : List (String × Json)} {id : String}
    {before after : Loading}, Ready id before →
    (addMembers context id members).run before = .ok ((), after) →
    Reads context [(id, ownStatements context before.names members)]
      (objectsInMembers members) before after
  | [], _, _, _, ready, success => by
      cases success
      exact .nothing ready
  | (key, value) :: rest, id, before, after, ready, success => by
      rw [addMembers_cons, run_bind_eq_ok] at success
      obtain ⟨_, between, first, later⟩ := success
      have read : Reads context [(id, ownStatements context before.names [(key, value)])]
          (objectsInMembers [(key, value)]) before between := by
        rw [addMember] at first
        simp only [ownStatements, objectsInMembers, List.append_nil]
        by_cases type : key = "@type"
        · rw [if_pos type] at first ⊢
          rw [if_pos (by rw [type]; decide)]
          exact addTypes_reads ready first
        · rw [if_neg type] at first ⊢
          by_cases skipped : key.toList.head? = some '@'
          · rw [if_pos skipped] at first
            rw [if_pos skipped, if_pos skipped]
            cases first
            exact .nothing ready
          · rw [if_neg skipped] at first
            rw [if_neg skipped, if_neg skipped]
            cases value with
            | array elements => exact addItems_reads ready first
            | _ =>
                simp only [items, addItems_singleton, itemStatements_singleton] at first ⊢
                exact addItem_reads ready first
      have others := addMembers_reads read.ready later
      rw [read.names] at others
      rw [objectsInMembers_cons (key, value) rest, ownStatements_cons]
      exact (read.trans others).join

theorem addItems_reads : ∀ {elements : List Json} {id predicate : String}
    {before after : Loading}, Ready id before →
    (addItems context id predicate elements).run before = .ok ((), after) →
    Reads context [(id, itemStatements context predicate before.names elements)]
      (objectsInAll elements) before after
  | [], _, _, _, _, ready, success => by
      cases success
      exact .nothing ready
  | element :: rest, id, predicate, before, after, ready, success => by
      rw [addItems, run_bind_eq_ok] at success
      obtain ⟨_, between, first, later⟩ := success
      have read := addItem_reads ready first
      have others := addItems_reads read.ready later
      rw [read.names] at others
      exact (read.trans others).join

theorem addItem_reads : ∀ {item : Json} {id predicate : String}
    {before after : Loading}, Ready id before →
    (addItem context id predicate item).run before = .ok ((), after) →
    Reads context [(id, ((itemTerm context before.names item).map (predicate, ·)).toList)]
      (objectsIn item) before after
  | .null, _, _, _, _, ready, success => by
      cases success
      exact .nothing ready
  | .string text, _, predicate, _, _, ready, success => by
      cases success
      exact .state ready predicate _
  | .bool truth, _, predicate, _, _, ready, success => by
      cases success
      exact .state ready predicate _
  | .number number, _, predicate, _, _, ready, success => by
      cases success
      exact .state ready predicate _
  | .array elements, _, _, _, _, ready, success => by
      cases success
  | .object members, id, predicate, before, after, ready, success => by
      rw [addItem] at success
      rw [itemTerm, objectsIn]
      cases scalar : Table.get? "@value" members with
      | some value =>
          simp only [scalar, Option.isSome_some, true_or, if_true, run_bind_eq_ok] at success ⊢
          obtain ⟨term, between, made, stated⟩ := success
          obtain ⟨rfl, rfl⟩ := run_literal made
          cases stated
          exact .state ready predicate _
      | none =>
          cases reference : soleId? context members with
          | some target =>
              have sole : (soleId? [] members).isSome := by
                rw [← isSome_soleId? context, reference]
                rfl
              simp only [scalar, reference] at success
              simp only [sole, or_true, if_true]
              cases success
              exact .state ready predicate _
          | none =>
              have notSole : ¬ (soleId? [] members).isSome := by
                rw [← isSome_soleId? context, reference]
                exact Bool.false_ne_true
              simp only [scalar, reference, run_bind_eq_ok] at success
              obtain ⟨target, chosen, named, _, ensured, used, _, inside, read, stated⟩ :=
                success
              obtain ⟨rfl, rfl, identified⟩ := run_identify named
              cases used
              cases stated
              have nested := Reads.close ready.indexed identified
                (addMembers_reads (.ensure ready.indexed _) read)
              have outer : Ready id inside :=
                ⟨nested.grown.indexed, (nested.grown.known id).mpr (.inl ready.known)⟩
              -- the node object inside is complete before it is referred to
              have whole := nested.trans (.state outer predicate
                (.ofId (idAt context before.names members)))
              simp only [notSole, Option.isSome_none, or_self]
              rw [List.append_nil] at whole
              exact whole

end

theorem addNode_reads {root : Json} (indexed : before.graph.Indexed)
    (success : (addNode context root).run before = .ok ((), after)) :
    Reads context [] (rootObjects root) before after := by
  cases root with
  | object members =>
      rw [addNode, run_bind_eq_ok] at success
      obtain ⟨target, chosen, named, later⟩ := success
      rw [run_bind_eq_ok] at later
      obtain ⟨_, ensured, used, read⟩ := later
      obtain ⟨rfl, rfl, identified⟩ := run_identify named
      cases used
      exact .close indexed identified (addMembers_reads (.ensure indexed _) read)
  | _ => cases success

theorem addNodes_reads {nodes : List Json} (indexed : before.graph.Indexed)
    (success : (nodes.forM (addNode context)).run before = .ok ((), after)) :
    Reads context [] (nodes.flatMap rootObjects) before after := by
  induction nodes generalizing before with
  | nil =>
      cases success
      exact .refl indexed
  | cons root rest ih =>
      rw [List.forM_eq_forM, List.forM_cons, run_bind_eq_ok] at success
      obtain ⟨_, between, first, later⟩ := success
      have read := addNode_reads indexed first
      exact read.trans (ih read.grown.indexed later)

/-- A graph has the nodes that node objects are put under, and says of each of them what all of
these node objects say. -/
structure Describes (graph : Graph) (placements : List Placement) : Prop where
  identified : ∀ placement ∈ placements, Identified placement.members
  known : ∀ id, (graph.node? id).isSome ↔ ∃ placement ∈ placements, placement.id = id
  stated : ∀ id, graph.stated id = Graph.given id (placements.map Placement.part)

theorem graphOf_describes {nodes : List Json} {graph : Graph}
    (success : graphOf context nodes = .ok graph) :
    Describes graph (place context 0 (nodes.flatMap rootObjects)) := by
  obtain ⟨⟨_, loading⟩, read, same⟩ := Outcome.bind_eq_ok.mp success
  cases same
  have reads := addNodes_reads Graph.indexed_empty read
  have grown := reads.grown
  refine ⟨?_, ?_, ?_⟩
  · intro placement member
    exact reads.identified _ (mem_of_place member).1
  · intro id
    rw [grown.known]
    simp [Graph.node?, Graph.empty, Placement.part]
  · intro id
    rw [grown.stated]
    simp [Graph.stated, Graph.node?, Graph.empty]

/-- The graph of a document is described by its node objects. -/
theorem exists_context_describes {document : Json} {graph : Graph}
    (accepted : read document = .ok graph) :
    ∃ context, contextOf document = .ok context ∧
      Describes graph (placements context document) := by
  cases document with
  | array nodes => exact ⟨[], rfl, graphOf_describes accepted⟩
  | object members =>
      obtain ⟨context, known, built⟩ := Outcome.bind_eq_ok.mp accepted
      exact ⟨context, known, graphOf_describes built⟩
  | _ => cases accepted

end RdfMapping.JsonLd
