import RdfMapping.Double.Basic
import RdfMapping.Table
/-!
JSON values. A number is a whole number or a double, and the two stay apart:
`1` and `1.0` are different values. The members of an object are a table, in
increasing order of their names.
-/

namespace RdfMapping

inductive Number where
  | integer (value : Int)
  | real (value : Double)
  deriving DecidableEq, Repr

inductive Json where
  | null
  | bool (value : Bool)
  | number (value : Number)
  | string (value : String)
  | array (elements : List Json)
  | object (members : List (String × Json))
  deriving Repr, Inhabited

namespace Json

def integer (value : Int) : Json := .number (.integer value)

def isNull : Json → Bool
  | .null => true
  | _ => false

/-- An object with the given members, the last of a repeated name winning. -/
def ofMembers (members : List (String × Json)) : Json := .object (Table.ofList members)

def member? (name : String) : Json → Option Json
  | .object members => Table.get? name members
  | _ => none

def string? : Json → Option String
  | .string value => some value
  | _ => none

def elements? : Json → Option (List Json)
  | .array elements => some elements
  | _ => none

def members? : Json → Option (List (String × Json))
  | .object members => some members
  | _ => none

def bool? : Json → Option Bool
  | .bool value => some value
  | _ => none

end Json

end RdfMapping
