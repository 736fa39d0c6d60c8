import RdfMapping.Json.Basic
import RdfMapping.Term
/-!
Records, the results of a run. A record has an identifier, classes, each of them
once, and for each of its predicates a list of values, which are literals or the
identifiers of other records.
-/

namespace RdfMapping

inductive ObjectValue where
  | literal (value : Json) (datatype language : Option String)
  | reference (id : String)
  deriving Repr

namespace ObjectValue

def plain (value : Json) : ObjectValue := .literal value none none

def reference? : ObjectValue → Option String
  | .reference id => some id
  | .literal .. => none

/-- How a literal is annotated. A language hides the datatype. -/
def annotation : (datatype language : Option String) → List (String × Json)
  | _, some language => [("@language", .string language)]
  | some datatype, none => [("@type", .string datatype)]
  | none, none => []

/-- The JSON form of a value: a literal without annotations is its own. -/
def toJson : ObjectValue → Json
  | .reference id => .object [("@id", .string id)]
  | .literal value none none => value
  | .literal value datatype language =>
      .ofMembers (("@value", value) :: annotation datatype language)

end ObjectValue

structure Record where
  /-- An IRI, or a blank node mark with a label. -/
  id : String
  types : List String
  /-- The values of each predicate, as a table. -/
  properties : List (String × List ObjectValue)
  deriving Repr

namespace Record

def ofId (id : String) : Record := ⟨id, [], []⟩

def add (record : Record) (predicate : String) (value : ObjectValue) : Record :=
  { record with
    properties := Table.alter predicate (fun values => values.getD [] ++ [value])
      record.properties }

def addType (record : Record) (type : String) : Record :=
  if type ∈ record.types then record else { record with types := record.types ++ [type] }

def values (record : Record) (predicate : String) : List ObjectValue :=
  (Table.get? predicate record.properties).getD []

def isBlank (record : Record) : Bool := Term.blankMark.toList.isPrefixOf record.id.toList

def references (record : Record) : List String :=
  (record.properties.flatMap Prod.snd).filterMap ObjectValue.reference?

/-! ### JSON form -/

/-- A list that stands for its only element if it has just one. -/
def collapse : List Json → Json
  | [value] => value
  | values => .array values

def typeMember (types : List String) : List (String × Json) :=
  if types.isEmpty then [] else [("@type", collapse (types.map .string))]

def toJsonWith (render : ObjectValue → Json) (record : Record) : Json :=
  .ofMembers
    (("@id", .string record.id) :: typeMember record.types ++
      record.properties.map fun entry => (entry.1, collapse (entry.2.map render)))

def toJson (record : Record) : Json := record.toJsonWith ObjectValue.toJson

end Record

end RdfMapping
