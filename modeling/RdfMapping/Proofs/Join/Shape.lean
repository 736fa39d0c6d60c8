import RdfMapping.Evaluation.Join
/-!
The part of a pending join that does not come from the values of a row. The joins of a
rule are resolved by the shape of its first record; an output is uniform if all of its
records have that shape.
-/

namespace RdfMapping

structure JoinShape where
  predicate : String
  parent : Nat
  paths : List String
  deriving DecidableEq, Repr

def PendingJoin.shape (pending : PendingJoin) : JoinShape where
  predicate := pending.predicate
  parent := pending.parent
  paths := pending.conditions.map PendingCondition.parentPath

def EvaluatedRecord.shape (evaluated : EvaluatedRecord) : List JoinShape :=
  evaluated.pending.map PendingJoin.shape

/-- All records have as many pending joins as the first one, and slot by slot with the
same predicate, parent rule and selectors. -/
def UniformShape (output : RuleOutput) : Prop :=
  ∀ evaluated ∈ output, evaluated.shape = (Join.shapes output).map PendingJoin.shape

instance (output : RuleOutput) : Decidable (UniformShape output) :=
  inferInstanceAs (Decidable (∀ evaluated ∈ output,
    evaluated.shape = (Join.shapes output).map PendingJoin.shape))

theorem uniformShape_iff {output : RuleOutput} :
    UniformShape output ↔
      ∀ first ∈ output, ∀ second ∈ output, first.shape = second.shape := by
  constructor
  · intro uniform first firstMember second secondMember
    exact (uniform first firstMember).trans (uniform second secondMember).symm
  · intro same evaluated member
    cases output with
    | nil => cases member
    | cons first rest => exact same evaluated member first List.mem_cons_self

theorem UniformShape.getElem? {output : RuleOutput} (uniform : UniformShape output)
    {evaluated : EvaluatedRecord} (member : evaluated ∈ output) (slot : Nat) :
    evaluated.pending[slot]?.map PendingJoin.shape =
      (Join.shapes output)[slot]?.map PendingJoin.shape := by
  rw [← List.getElem?_map, ← List.getElem?_map]
  exact congrArg (·[slot]?) (uniform evaluated member)

end RdfMapping
