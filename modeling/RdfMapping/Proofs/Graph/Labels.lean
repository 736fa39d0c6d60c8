import Mathlib.Data.List.Nodup
import Mathlib.Data.List.Range
import RdfMapping.Proofs.Graph.Described
import RdfMapping.Proofs.Text.Tokens
/-!
The names that the counter gives to the node objects without an identifier. No two of them are
the same; but the counter does not look at the document, so that a node object without an
identifier shares its node with what the document itself calls by such a name.
-/

namespace RdfMapping.JsonLd

/-! ### The names of a document -/

def references (context : Context) (members : List (String × Json)) : List String :=
  ((members.filter (·.1.toList.head? ≠ some '@')).flatMap fun member => items member.2).filterMap
    fun value => value.members?.bind (soleId? context)

/-- What a node object names: itself, if it has an identifier, and what it refers to. -/
def names (context : Context) (members : List (String × Json)) : List String :=
  ((textMember? "@id" members).map (expand context)).toList ++ references context members

def namesOf (context : Context) (document : Json) : List String :=
  (nodeObjects document).flatMap (names context)

/-- Two node objects are on the same node only if both have an identifier and the identifiers
expand to the same one. A node object without an identifier is on a node that nothing in the
document names. -/
structure Uncaptured (context : Context) (document : Json) : Prop where
  apart : (placements context document).Pairwise fun first second =>
    first.id = second.id → ∃ text other,
      Table.get? "@id" first.members = some (.string text) ∧
      Table.get? "@id" second.members = some (.string other) ∧
      expand context text = expand context other
  own : ∀ placement ∈ placements context document,
    Table.get? "@id" placement.members = none → placement.id ∉ namesOf context document

variable {context : Context} {document : Json}

/-! ### The names of the counter -/

theorem label_injective : Function.Injective label := by
  intro number other same
  have chars := congrArg String.toList same
  simp only [label, String.toList_append, List.append_right_inj] at chars
  exact Text.numeral_injective (String.toList_inj.mp chars)

def Placement.isUnnamed (placement : Placement) : Bool :=
  (textMember? "@id" placement.members).isNone

theorem ids_unnamed (objects : List (List (String × Json))) (number : Nat) :
    ((place context number objects).filter Placement.isUnnamed).map Placement.id =
      (List.range' number (unnamed objects)).map label := by
  induction objects generalizing number with
  | nil => rfl
  | cons members rest ih =>
      rw [place, unnamed_cons members rest]
      cases given : textMember? "@id" members with
      | none =>
          rw [List.filter_cons_of_pos (by rw [Placement.isUnnamed, given]; rfl), List.map_cons, ih,
            unnamed_of_none given, Nat.add_comm 1, List.range'_succ, List.map_cons, idAt, given]
          rfl
      | some text =>
          have named : ¬ Placement.isUnnamed ⟨members, idAt context number members,
              ownStatements context (number + unnamed [members]) members⟩ := by
            rw [Placement.isUnnamed, given]
            exact Bool.false_ne_true
          rw [List.filter_cons_of_neg named, ih, unnamed_of_some given, Nat.zero_add, Nat.add_zero]

theorem exists_unnamed_iff {id : String} :
    (∃ placement ∈ placements context document, placement.isUnnamed ∧ placement.id = id) ↔
      ∃ number < unnamed (nodeObjects document), label number = id := by
  have member : id ∈ ((placements context document).filter Placement.isUnnamed).map Placement.id ↔
      id ∈ (List.range' 0 (unnamed (nodeObjects document))).map label := by
    rw [placements, ids_unnamed]
  simpa [and_assoc] using member

theorem unnamed_apart : (placements context document).Pairwise fun first second =>
    first.isUnnamed → second.isUnnamed → first.id ≠ second.id := by
  have distinct : (((placements context document).filter Placement.isUnnamed).map
      Placement.id).Nodup := by
    rw [placements, ids_unnamed]
    exact (List.nodup_range' ..).map label_injective
  exact List.pairwise_filter.mp (List.pairwise_map.mp distinct)

theorem mem_namesOf {placement : Placement} (member : placement ∈ placements context document)
    {text : String} (given : textMember? "@id" placement.members = some text) :
    placement.id ∈ namesOf context document := by
  obtain ⟨inObjects, ids⟩ := mem_of_place member
  refine List.mem_flatMap.mpr ⟨placement.members, inObjects, List.mem_append_left _ ?_⟩
  rw [given, ids text given]
  exact List.mem_singleton_self _

theorem Placement.absent_or_given {placement : Placement}
    (identified : Identified placement.members) :
    (Table.get? "@id" placement.members = none ∧ placement.isUnnamed) ∨
      ∃ text, Table.get? "@id" placement.members = some (.string text) ∧
        textMember? "@id" placement.members = some text := by
  rcases identified with absent | ⟨text, given⟩
  · refine .inl ⟨absent, ?_⟩
    rw [isUnnamed, textMember?_of_absent absent]
    rfl
  · exact .inr ⟨text, given, textMember?_of_string given⟩

theorem uncaptured_of_labels_not_mem
    (identified : ∀ placement ∈ placements context document, Identified placement.members)
    (unused : ∀ number < unnamed (nodeObjects document),
      label number ∉ namesOf context document) : Uncaptured context document := by
  have own : ∀ placement ∈ placements context document, placement.isUnnamed →
      placement.id ∉ namesOf context document := by
    intro placement member nameless
    obtain ⟨number, below, same⟩ := exists_unnamed_iff.mp ⟨placement, member, nameless, rfl⟩
    rw [← same]
    exact unused number below
  constructor
  · refine unnamed_apart.imp_of_mem ?_
    intro first second firstIn secondIn apart same
    rcases Placement.absent_or_given (identified first firstIn) with
      ⟨_, nameless⟩ | ⟨text, ofFirst, given⟩
    · rcases Placement.absent_or_given (identified second secondIn) with
        ⟨_, further⟩ | ⟨other, _, named⟩
      · exact absurd same (apart nameless further)
      · have captured := mem_namesOf secondIn named
        rw [← same] at captured
        exact absurd captured (own first firstIn nameless)
    · rcases Placement.absent_or_given (identified second secondIn) with
        ⟨_, nameless⟩ | ⟨other, ofSecond, named⟩
      · have captured := mem_namesOf firstIn given
        rw [same] at captured
        exact absurd captured (own second secondIn nameless)
      · refine ⟨text, other, ofFirst, ofSecond, ?_⟩
        rw [← (mem_of_place firstIn).2 text given, same, (mem_of_place secondIn).2 other named]
  · intro placement member absent
    refine own placement member ?_
    rw [Placement.isUnnamed, textMember?_of_absent absent]
    rfl

theorem Uncaptured.label_not_mem (uncaptured : Uncaptured context document)
    (identified : ∀ placement ∈ placements context document, Identified placement.members)
    {number : Nat} (below : number < unnamed (nodeObjects document)) :
    label number ∉ namesOf context document := by
  obtain ⟨placement, member, nameless, same⟩ := exists_unnamed_iff.mpr
    ⟨number, below, rfl⟩
  rw [← same]
  rcases Placement.absent_or_given (identified placement member) with
    ⟨absent, _⟩ | ⟨text, _, given⟩
  · exact uncaptured.own placement member absent
  · rw [Placement.isUnnamed, given] at nameless
    exact absurd nameless Bool.false_ne_true

/-- The node objects of a document that is accepted keep apart as they should exactly if the
document names nothing like one of the names that the counter gives. Those without an identifier
are always apart from one another. -/
theorem describes_and_uncaptured_iff {graph : Graph} (accepted : read document = .ok graph) :
    ∃ context, contextOf document = .ok context ∧
      Describes graph (placements context document) ∧
      ((placements context document).Pairwise fun first second =>
        first.isUnnamed → second.isUnnamed → first.id ≠ second.id) ∧
      (Uncaptured context document ↔
        ∀ number < unnamed (nodeObjects document), label number ∉ namesOf context document) := by
  obtain ⟨context, known, describes⟩ := exists_context_describes accepted
  refine ⟨context, known, describes, unnamed_apart, ?_, ?_⟩
  · intro uncaptured number below
    exact uncaptured.label_not_mem describes.identified below
  · exact uncaptured_of_labels_not_mem describes.identified

def embedded : Json :=
  .object
    [("@context", .object [("ex", .string "http://example.org/")]),
      ("@graph", .array
        [.object [("ex:p", .object [("ex:q", .string "x")])],
          .object [("@id", .string "ex:a"), ("ex:p", .object [("@id", .string "_:c")])]])]

theorem uncaptured_embedded : ∃ context, contextOf embedded = .ok context ∧
    Uncaptured context embedded := by
  have accepted : ∃ graph, read embedded = .ok graph := ⟨_, rfl⟩
  obtain ⟨graph, accepted⟩ := accepted
  obtain ⟨context, known, _, _, captured⟩ := describes_and_uncaptured_iff accepted
  cases known
  exact ⟨_, rfl, captured.mpr (by decide)⟩

def twoNodes : Json :=
  .array
    [.object [("@id", .string "_:b0"), ("http://example.org/p", .string "x")],
      .object [("http://example.org/q", .string "y")]]

/-- The second node object has no identifier, but its statement is on the node of the first. -/
theorem not_uncaptured_twoNodes : ∃ graph, read twoNodes = .ok graph ∧
    contextOf twoNodes = .ok [] ∧ ¬ Uncaptured [] twoNodes ∧
    graph.stated "_:b0" =
      {("http://example.org/p", .plain "x"), ("http://example.org/q", .plain "y")} := by
  have accepted : ∃ graph, read twoNodes = .ok graph := ⟨_, rfl⟩
  obtain ⟨graph, accepted⟩ := accepted
  obtain ⟨context, known, describes⟩ := exists_context_describes accepted
  cases known
  refine ⟨graph, accepted, rfl, ?_, ?_⟩
  · intro uncaptured
    have unused : label 0 ∉ namesOf [] twoNodes :=
      uncaptured.label_not_mem describes.identified (by decide)
    exact unused (by decide)
  · rw [describes.stated]
    decide

end RdfMapping.JsonLd
