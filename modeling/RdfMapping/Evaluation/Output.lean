import RdfMapping.Record.Basic
/-!
What the evaluation of a rule yields: records, and with each of them what is needed
to join it with the records of other rules.
-/

namespace RdfMapping

/-- One equation of a join, with the values of the row on its one side. -/
structure PendingCondition where
  parentPath : String
  childValues : List Json
  deriving Repr

/-- References that are added when the parent rule has been evaluated. Without
conditions every record of the parent is referred to. -/
structure PendingJoin where
  predicate : String
  /-- The position of the parent rule. -/
  parent : Nat
  conditions : List PendingCondition
  deriving Repr

structure EvaluatedRecord where
  record : Record
  /-- The values of the selectors by which other rules join with this one. -/
  parentValues : List (String × List Json)
  pending : List PendingJoin
  deriving Repr

abbrev RuleOutput := List EvaluatedRecord

namespace EvaluatedRecord

def valuesOf (evaluated : EvaluatedRecord) (path : String) : List Json :=
  (evaluated.parentValues.lookup path).getD []

end EvaluatedRecord

end RdfMapping
