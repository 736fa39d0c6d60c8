import Mathlib.Data.List.Forall2
import RdfMapping.Proofs.Join.NestedLoop
/-!
Joins between outputs whose rules stand at other positions. Two records are alike if they
differ only in the positions of the rules that they are joined with, and in the order of
the values that they keep for other rules. A search through the records of the parent
rules gives them the same references.
-/

namespace RdfMapping

structure PendingJoin.Alike (same : Nat → Nat → Prop) (left right : PendingJoin) : Prop where
  predicate : left.predicate = right.predicate
  parent : same left.parent right.parent
  conditions : left.conditions = right.conditions

structure EvaluatedRecord.Alike (same : Nat → Nat → Prop) (left right : EvaluatedRecord) :
    Prop where
  record : left.record = right.record
  values : ∀ path, left.valuesOf path = right.valuesOf path
  pending : List.Forall₂ (PendingJoin.Alike same) left.pending right.pending

/-- Records that nobody can tell apart by what they are and by the values that they keep for
other rules; their joins may differ. -/
structure EvaluatedRecord.Interchangeable (left right : EvaluatedRecord) : Prop where
  record : left.record = right.record
  values : ∀ path, left.valuesOf path = right.valuesOf path

variable {same : Nat → Nat → Prop}

theorem EvaluatedRecord.Alike.interchangeable {left right : EvaluatedRecord}
    (alike : EvaluatedRecord.Alike same left right) : left.Interchangeable right :=
  ⟨alike.record, alike.values⟩

theorem map_filter_of_alike {α : Type} {related : EvaluatedRecord → EvaluatedRecord → Prop}
    {test testOther : EvaluatedRecord → Bool} {view viewOther : EvaluatedRecord → α}
    {output other : RuleOutput} (alike : List.Forall₂ related output other)
    (sameTest : ∀ left right, related left right → test left = testOther right)
    (sameView : ∀ left right, related left right → view left = viewOther right) :
    (output.filter test).map view = (other.filter testOther).map viewOther := by
  induction alike with
  | nil => rfl
  | @cons left right output other first _ ih =>
      rw [List.filter_cons, List.filter_cons, sameTest left right first]
      cases testOther right with
      | false => exact ih
      | true => exact congrArg₂ List.cons (sameView left right first) ih

theorem EvaluatedRecord.Alike.admits {left right : EvaluatedRecord}
    (alike : EvaluatedRecord.Alike same left right) (pending : PendingJoin) :
    pending.admits left = pending.admits right := by
  unfold PendingJoin.admits
  congr 1
  funext condition
  unfold PendingCondition.admits
  rw [alike.values]

namespace Join

def Alike (same : Nat → Nat → Prop) (outputs others : List RuleOutput) : Prop :=
  ∀ index position, same index position → ∃ output other, outputs[index]? = some output ∧
    others[position]? = some other ∧ List.Forall₂ (EvaluatedRecord.Alike same) output other

variable {outputs others : List RuleOutput}

theorem linked_of_alike (alike : Alike same outputs others) {left right : PendingJoin}
    (joins : PendingJoin.Alike same left right) :
    left.linked outputs = right.linked others := by
  obtain ⟨output, other, outputAt, otherAt, records⟩ := alike _ _ joins.parent
  have sameAdmits : left.admits = right.admits := by
    unfold PendingJoin.admits
    rw [joins.conditions]
  unfold PendingJoin.linked
  rw [outputAt, otherAt, sameAdmits, joins.predicate]
  apply map_filter_of_alike records
  · intro first second alikeRecords
    exact alikeRecords.admits right
  · intro first second alikeRecords
    rw [alikeRecords.record]

theorem flatMap_linked_of_alike (alike : Alike same outputs others) {left right : List PendingJoin}
    (joins : List.Forall₂ (PendingJoin.Alike same) left right) :
    left.flatMap (PendingJoin.linked outputs) = right.flatMap (PendingJoin.linked others) := by
  induction joins with
  | nil => rfl
  | cons first _ ih => rw [List.flatMap_cons, List.flatMap_cons, linked_of_alike alike first, ih]

theorem getElem?_nestedLoop_of_alike (alike : Alike same outputs others) {index position : Nat}
    (corresponds : same index position) :
    (nestedLoop outputs)[index]? = (nestedLoop others)[position]? := by
  obtain ⟨output, other, outputAt, otherAt, records⟩ := alike index position corresponds
  unfold nestedLoop
  rw [List.getElem?_map, List.getElem?_map, outputAt, otherAt, Option.map_some, Option.map_some]
  congr 1
  clear outputAt otherAt
  induction records with
  | nil => rfl
  | cons first _ ih =>
      rw [List.map_cons, List.map_cons, ih, first.record, flatMap_linked_of_alike alike
        first.pending]

theorem length_nestedLoop (outputs : List RuleOutput) :
    (nestedLoop outputs).length = outputs.length :=
  List.length_map _

end Join

end RdfMapping
