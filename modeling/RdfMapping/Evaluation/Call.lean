import RdfMapping.Evaluation.Row
import RdfMapping.Function.Arguments
/-!
Calls of functions while a row is evaluated. The member of a call that names the
function is read first; then the parameters are resolved in the order in which they
are written, and the function is called with them. A parameter may be the result of
another call, or the records of another rule.

Functions and other rules are reached through a host, whose effects are left open.
-/

namespace RdfMapping

structure Host (m : Type → Type) where
  /-- Goes on with the value of an outcome, or fails with its error. -/
  lift : {α : Type} → Outcome α → m α
  /-- The function of an IRI. -/
  function? : String → Option (Arguments → m Json)
  /-- The position of a rule. -/
  position : String → Outcome Nat
  /-- The records of the rule at a position. -/
  output : Nat → m RuleOutput

namespace FunctionCall

def isExecutes (member : PredicateObjectMap) : Bool :=
  member.predicates.contains (.constant Vocabulary.executes)

/-- The IRI that an object gives for a function, which must be a constant. -/
def functionIri (call : String) (object : ObjectMap) : Outcome String :=
  match object.kind with
  | .constant value => .ok value.lexical
  | _ => .error (.function ("executes object of " ++ call ++ " is not a constant"))

/-- The IRI of the function to call, of which there must be exactly one. -/
def executed (call : String) (members : List PredicateObjectMap) : Outcome String := do
  let objects := (members.filter isExecutes).flatMap PredicateObjectMap.objects
  match ← objects.mapM (functionIri call) with
  | [] => throw (.function ("no function identifier found for " ++ call))
  | [iri] => return iri
  | _ => throw (.function ("multiple function identifiers specified for " ++ call))

end FunctionCall

/-- The arguments with values added under each of several keys; no values count as
null. -/
def Arguments.pushAll (arguments : Arguments) (keys : List String) (values : List Json) :
    Arguments :=
  let pushed := if values.isEmpty then [Json.null] else values
  keys.foldl (fun arguments key => pushed.foldl (·.push key) arguments) arguments

/-- Whether a record of another rule has one of the wanted values under every
selector. A selector for which nothing is wanted has none. -/
def EvaluatedRecord.admits (evaluated : EvaluatedRecord)
    (wanted : List (String × Option String)) : Bool :=
  wanted.all fun entry =>
    match entry.2 with
    | some text => (evaluated.valuesOf entry.1).any fun value => value.lexical = text
    | none => false

section

variable {m : Type → Type} [Monad m] (host : Host m) (scope : RowScope)

def parentRecords (reference : ParentReference) : m Json := do
  let parent ← host.lift (host.position reference.parent)
  let output ← host.output parent
  let conditions ← host.lift (scope.pendingConditions reference.conditions)
  let wanted := conditions.map fun condition =>
    (condition.parentPath, condition.childValues.head?.map Json.lexical)
  return .array ((output.filter (·.admits wanted)).map (·.record.toJson))

mutual

def invoke : FunctionCall → m Json
  | ⟨id, members⟩ => do
      let iri ← host.lift (FunctionCall.executed id members)
      match host.function? iri with
      | none => host.lift (.error (.function ("unknown function identifier " ++ iri)))
      | some function => do function (← collectMembers members .empty)

def collectMembers : List PredicateObjectMap → Arguments → m Arguments
  | [], arguments => return arguments
  | ⟨predicates, objects⟩ :: rest, arguments => do
      if FunctionCall.isExecutes ⟨predicates, objects⟩ then collectMembers rest arguments
      else
        let keys ← host.lift (scope.predicates predicates)
        let extended ← collectObjects keys objects arguments
        collectMembers rest extended

def collectObjects (keys : List String) : List ObjectMap → Arguments → m Arguments
  | [], arguments => return arguments
  | ⟨kind, _, datatype, _, _⟩ :: rest, arguments => do
      let values ← parameterValues datatype kind
      collectObjects keys rest (arguments.pushAll keys values)

def parameterValues (datatype : Option String) : ObjectKind → m (List Json)
  | .constant value => return [.string value.lexical]
  | .reference selector => host.lift (scope.values selector datatype)
  | .template template =>
      host.lift ((scope.expand true template).map (·.map Json.string))
  | .function call => do
      let result ← invoke call
      return if result.isNull then [] else [result]
  | .parent reference => return [← parentRecords host scope reference]

end

end

end RdfMapping
