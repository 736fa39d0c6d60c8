import Std.Data.HashMap
import RdfMapping.Evaluation.Output
import RdfMapping.Json.Printer
/-!
Joins between the records of different rules. When all rules have been evaluated,
every pending join becomes references to the records of its parent rule that satisfy
its conditions. Parent records are found through an index by the text of their one
value under a selector; the index of a rule and a selector is built when it is first
needed, and kept.

The first record of a rule gives the list of its pending joins; the joins of every
further record are taken by their position in this list.
-/

namespace RdfMapping

abbrev ValueIndex := Std.HashMap String (List Nat)

abbrev Indexes := Std.HashMap (Nat × String) ValueIndex

namespace Join

/-- The text by which a record is found under a selector. A record with several
values is not found at all. -/
def key? (path : String) (evaluated : EvaluatedRecord) : Option String :=
  match evaluated.valuesOf path with
  | [value] => some value.lexical
  | _ => none

def indexOf (path : String) (output : RuleOutput) : ValueIndex :=
  output.zipIdx.foldr
    (fun entry index =>
      match key? path entry.1 with
      | some key => index.insert key (entry.2 :: index.getD key [])
      | none => index)
    ∅

def ensureIndex (target : RuleOutput) (parent : Nat) (indexes : Indexes) (path : String) :
    Indexes :=
  if indexes.contains (parent, path) then indexes
  else indexes.insert (parent, path) (indexOf path target)

/-- The positions that an index gives for the first of a row's values. -/
def found (indexes : Indexes) (parent : Nat) (condition : PendingCondition) : List Nat :=
  match condition.childValues with
  | [] => []
  | value :: _ =>
      match indexes[(parent, condition.parentPath)]? with
      | some index => index.getD value.lexical []
      | none => []

/-- The positions that satisfy every condition of a join, of which there must be at
least one, in the order of the records. -/
def positions (indexes : Indexes) (pending : PendingJoin) : List Nat :=
  match pending.conditions with
  | [] => []
  | condition :: rest =>
      rest.foldl
        (fun positions next =>
          let others := found indexes pending.parent next
          positions.filter others.contains)
        (found indexes pending.parent condition)

def refer (predicate : String) (record : Record) (targets : List Record) : Record :=
  targets.foldl (fun record target => record.add predicate (.reference target.id)) record

/-- The positions of the records that the join of a record refers to, the join of its
rule having no conditions or some. -/
def places (indexes : Indexes) (target : RuleOutput) (shape : PendingJoin) (slot : Nat)
    (evaluated : EvaluatedRecord) : List Nat :=
  if shape.conditions.isEmpty then List.range target.length
  else
    match evaluated.pending[slot]? with
    | some pending => positions indexes pending
    | none => []

/-- The records that the join of a record refers to. To look up a position at which the rule has no
record would end the run at once; this is no outcome of a run here, and the position is passed
over. -/
def targets (indexes : Indexes) (target : RuleOutput) (shape : PendingJoin) (slot : Nat)
    (evaluated : EvaluatedRecord) : List Record :=
  (places indexes target shape slot evaluated).filterMap fun position =>
    target[position]?.map EvaluatedRecord.record

def indexFor (outputs : Array RuleOutput) (indexes : Indexes) (shape : PendingJoin) : Indexes :=
  match outputs[shape.parent]? with
  | none => indexes
  | some target =>
      (shape.conditions.map PendingCondition.parentPath).foldl
        (ensureIndex target shape.parent) indexes

def resolveSlot (outputs : Array RuleOutput) (output : RuleOutput)
    (state : Indexes × List Record) (entry : PendingJoin × Nat) : Indexes × List Record :=
  let (shape, slot) := entry
  let indexes := indexFor outputs state.1 shape
  match outputs[shape.parent]? with
  | none => (indexes, state.2)
  | some target =>
      let records := (state.2.zip output).map fun pair =>
        refer shape.predicate pair.1 (targets indexes target shape slot pair.2)
      (indexes, records)

/-- The pending joins of a rule, as its first record has them. -/
def shapes (output : RuleOutput) : List PendingJoin :=
  match output with
  | [] => []
  | evaluated :: _ => evaluated.pending

def resolveOutput (outputs : Array RuleOutput) (indexes : Indexes) (output : RuleOutput) :
    Indexes × List Record :=
  (shapes output).zipIdx.foldl (resolveSlot outputs output)
    (indexes, output.map EvaluatedRecord.record)

def resolve (outputs : List RuleOutput) : List (List Record) :=
  let all := outputs.toArray
  (outputs.foldl
    (fun state output =>
      let (indexes, records) := resolveOutput all state.1 output
      (indexes, state.2 ++ [records]))
    ((∅ : Indexes), ([] : List (List Record)))).2

end Join

end RdfMapping
