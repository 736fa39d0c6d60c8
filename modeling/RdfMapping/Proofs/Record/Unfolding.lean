import Mathlib.Data.List.Dedup
import Mathlib.Data.List.Perm.Subperm
import RdfMapping.Proofs.Record.Reach
/-!
Nesting as a finite unfolding of the references between records, cyclic and ambiguous ones
included. A reference is unfolded to the record that the list has under its identifier, unless a
record with this identifier is open already; the identifiers of open records are therefore all
different, and there are no more of them than the list has identifiers.
-/

namespace RdfMapping.Record

/-- A record that is being shown, and the identifiers of the records around it, the innermost
first. -/
structure Opening where
  around : List String
  record : Record

def Opening.chain (opening : Opening) : List String := opening.record.id :: opening.around

/-- For a reference of an open record another record is opened: the one that the list has under
the identifier, as long as no record with it is open. -/
structure Opens (records : List Record) (outer : Opening) (id : String) (inner : Opening) :
    Prop where
  refers : id ∈ outer.record.references
  isClosed : id ∉ outer.chain
  found : findLast? id records = some inner.record
  around : inner.around = outer.chain

/-- A value is the unfolding of an open record: its node, in which a reference is the unfolding
of the record that is opened for it, or the identifier alone if none is. -/
inductive Unfolds (records : List Record) : Opening → Json → Prop
  | node {opening : Opening} (render : ObjectValue → Json)
      (literals : ∀ value datatype language, render (.literal value datatype language) =
        (ObjectValue.literal value datatype language).toJson)
      (nested : ∀ id inner, Opens records opening id inner →
        Unfolds records inner (render (.reference id)))
      (left : ∀ id ∈ opening.record.references, (¬ ∃ inner, Opens records opening id inner) →
        render (.reference id) = .object [("@id", .string id)]) :
      Unfolds records opening (opening.record.toJsonWith render)

def OpenedFor (records : List Record) (record : Record) : Opening → Prop :=
  Relation.ReflTransGen (fun outer inner => ∃ id, Opens records outer id inner) ⟨[], record⟩

theorem toJsonWith_congr {record : Record} {render other : ObjectValue → Json}
    (same : ∀ entry ∈ record.properties, ∀ value ∈ entry.2, render value = other value) :
    record.toJsonWith render = record.toJsonWith other := by
  have properties : record.properties.map (fun entry => (entry.1, collapse (entry.2.map render))) =
      record.properties.map (fun entry => (entry.1, collapse (entry.2.map other))) := by
    apply List.map_congr_left
    intro entry member
    rw [List.map_congr_left (same entry member)]
  rw [toJsonWith, toJsonWith, properties]

section

variable {records : List Record} {opening inner outer : Opening} {id : String}

/-! ### What is opened -/

theorem Opens.id_eq (opens : Opens records outer id inner) : inner.record.id = id :=
  (mem_of_findLast? opens.found).2

theorem Opens.chain_eq (opens : Opens records outer id inner) : inner.chain = id :: outer.chain := by
  rw [Opening.chain, opens.id_eq, opens.around]

theorem findLast?_isSome_iff : (findLast? id records).isSome ↔ id ∈ records.map Record.id := by
  unfold findLast?
  simp

theorem exists_opens_iff (refers : id ∈ opening.record.references) :
    (∃ inner, Opens records opening id inner) ↔
      id ∈ records.map Record.id ∧ id ∉ opening.chain := by
  rw [← findLast?_isSome_iff]
  constructor
  · rintro ⟨inner, opens⟩
    refine ⟨?_, opens.isClosed⟩
    rw [opens.found]
    rfl
  · rintro ⟨known, isClosed⟩
    obtain ⟨target, found⟩ := Option.isSome_iff_exists.mp known
    exact ⟨⟨opening.chain, target⟩, refers, isClosed, found, rfl⟩

/-- Whatever is opened leaves fewer records to open. -/
theorem wellFounded_opens :
    WellFounded fun inner outer => ∃ id, Opens records outer id inner := by
  have shrinks : WellFounded (InvImage (· < ·) fun opening : Opening =>
      (closedOf records opening.chain).length) := InvImage.wf _ Nat.lt_wfRel.wf
  refine Subrelation.wf ?_ shrinks
  rintro inner outer ⟨id, opens⟩
  obtain ⟨member, sameId⟩ := mem_of_findLast? opens.found
  have isClosed : inner.record.id ∉ outer.chain := sameId ▸ opens.isClosed
  change (closedOf records inner.chain).length < (closedOf records outer.chain).length
  rw [Opening.chain, opens.around]
  exact length_closedOf_lt member isClosed

theorem OpenedFor.chain {record : Record} (member : record ∈ records)
    (opened : OpenedFor records record opening) :
    opening.chain.Nodup ∧ ∀ id ∈ opening.chain, id ∈ records.map Record.id := by
  induction opened with
  | refl =>
      refine ⟨List.nodup_singleton record.id, ?_⟩
      intro id inChain
      rw [List.mem_singleton.mp inChain]
      exact List.mem_map_of_mem member
  | @tail outer inner _ step ih =>
      obtain ⟨id, opens⟩ := step
      obtain ⟨nodup, known⟩ := ih
      rw [opens.chain_eq]
      refine ⟨List.nodup_cons.mpr ⟨opens.isClosed, nodup⟩, List.forall_mem_cons.mpr ⟨?_, known⟩⟩
      exact ((exists_opens_iff opens.refers).mp ⟨inner, opens⟩).1

theorem OpenedFor.length_chain_le {record : Record} (member : record ∈ records)
    (opened : OpenedFor records record opening) :
    opening.chain.length ≤ (records.map Record.id).dedup.length := by
  obtain ⟨nodup, known⟩ := opened.chain member
  refine (List.subperm_of_subset nodup ?_).length_le
  intro id inChain
  exact List.mem_dedup.mpr (known id inChain)

/-! ### What is shown -/

theorem nestValue_of_opens (opens : Opens records opening id inner) :
    nestValue records opening.around opening.record (.reference id) =
      nest records inner.around inner.record := by
  rw [opens.around]
  exact nestValue_of_found opens.isClosed opens.found

theorem nestValue_of_not_opens (refers : id ∈ opening.record.references)
    (unopened : ¬ ∃ inner, Opens records opening id inner) :
    nestValue records opening.around opening.record (.reference id) =
      .object [("@id", .string id)] := by
  by_cases isOpen : id ∈ opening.record.id :: opening.around
  · rw [nestValue, if_pos isOpen]
  · cases found : findLast? id records with
    | none => rw [nestValue, if_neg isOpen, found]
    | some target =>
        exact absurd ⟨⟨opening.chain, target⟩, refers, isOpen, found, rfl⟩ unopened

theorem unfolds_nest (opened : List String) (record : Record) :
    Unfolds records ⟨opened, record⟩ (nest records opened record) := by
  induction opened, record using nest.induct records with
  | case1 opened record ih =>
      rw [nest_eq]
      refine .node _ ?_ ?_ ?_
      · intro value datatype language
        rfl
      · intro id inner opens
        rw [nestValue_of_opens opens]
        have nested := ih id opens.isClosed inner.record opens.found
        obtain ⟨around, target⟩ := inner
        cases opens.around
        exact nested
      · intro id refers unopened
        exact nestValue_of_not_opens refers unopened

theorem Unfolds.eq_nest {json : Json} (unfolds : Unfolds records opening json) :
    json = nest records opening.around opening.record := by
  induction unfolds with
  | @node opening render literals nested left ih =>
      rw [nest_eq]
      apply toJsonWith_congr
      intro entry entryMember value valueMember
      cases value with
      | literal value datatype language => exact literals value datatype language
      | reference id =>
          have refers := mem_references_of_mem entryMember valueMember
          by_cases opened : ∃ inner, Opens records opening id inner
          · obtain ⟨inner, opens⟩ := opened
            rw [nestValue_of_opens opens]
            exact ih id inner opens
          · rw [nestValue_of_not_opens refers opened]
            exact left id refers opened

theorem unfolds_iff {json : Json} :
    Unfolds records opening json ↔ json = nest records opening.around opening.record := by
  constructor
  · exact Unfolds.eq_nest
  · rintro rfl
    exact unfolds_nest opening.around opening.record

end

/-- Nesting shows the unfolding of a record, which is finite. The identifiers of the open records
never repeat, so no more records are open than the list has identifiers, and a record is opened
for a reference exactly if the list has its identifier and this is not open. -/
theorem nest_unfolds {records : List Record} {record : Record} (member : record ∈ records) :
    (∀ json, Unfolds records ⟨[], record⟩ json ↔ json = nest records [] record) ∧
      (WellFounded fun inner outer => ∃ id, Opens records outer id inner) ∧
      ∀ opening, OpenedFor records record opening →
        opening.chain.Nodup ∧
        opening.chain.length ≤ (records.map Record.id).dedup.length ∧
        ∀ id ∈ opening.record.references, (∃ inner, Opens records opening id inner) ↔
          id ∈ records.map Record.id ∧ id ∉ opening.chain := by
  refine ⟨fun json => unfolds_iff, wellFounded_opens, ?_⟩
  intro opening opened
  exact ⟨(opened.chain member).1, opened.length_chain_le member, fun id => exists_opens_iff⟩

/-- Two friends, one of them told of twice, who refer to each other and to a stranger. -/
def friends : List Record :=
  [⟨"ann", [], [("knows", [.reference "bob", .reference "ann", .reference "eve"])]⟩,
    ⟨"bob", [], []⟩, ⟨"bob", [], [("knows", [.reference "ann"])]⟩]

theorem nest_unfolds_friends : ∃ ann ∈ friends, ann.references = ["bob", "ann", "eve"] ∧
    (∀ json, Unfolds friends ⟨[], ann⟩ json ↔ json = nest friends [] ann) ∧
      ∀ opening, OpenedFor friends ann opening →
        opening.chain.Nodup ∧ opening.chain.length ≤ 2 ∧
        ∀ id ∈ opening.record.references, (∃ inner, Opens friends opening id inner) ↔
          id ∈ friends.map Record.id ∧ id ∉ opening.chain := by
  have member : friends.head (by decide) ∈ friends := List.head_mem _
  obtain ⟨unfolds, _, opened⟩ := nest_unfolds member
  exact ⟨_, member, rfl, unfolds, opened⟩

end RdfMapping.Record
