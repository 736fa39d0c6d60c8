import RdfMapping.Error
import RdfMapping.Function.Arguments
import RdfMapping.Json.Printer
import RdfMapping.Text.Blank
import RdfMapping.Text.Case
import RdfMapping.Text.Numeral
import RdfMapping.Text.Search
import RdfMapping.Vocabulary
/-!
The functions that every mapping may use: on texts, on arrays, and on truth values.
A function takes each argument by its key, and by position where the key was not
given. A null argument counts as missing.
-/

namespace RdfMapping.Library

open Vocabulary (grel)

/-! ### Arguments -/

/-- What an array of a single value stands for, at any depth. -/
def unwrap : Json → Json
  | .array [value] => unwrap value
  | value => value

def text (value : Json) : String := (unwrap value).lexical

def isTrue (value : Json) : Bool :=
  match unwrap value with
  | .bool value => value
  | .string text => text = "true" || text = "1"
  | .number (.integer value) => value ≠ 0
  | .number (.real value) => value.significand ≠ 0
  | _ => false

/-- The argument under a key, or else at a position. -/
def argument? (arguments : Arguments) (key : String) (position : Nat) : Option Json :=
  ((arguments.get? (grel key)).or (arguments.valueAt? position)).filter fun value => !value.isNull

def textOrEmpty (arguments : Arguments) (key : String) (position : Nat) : String :=
  ((argument? arguments key position).map text).getD ""

/-- Whether an argument counts as true; a missing one does not. -/
def holds (arguments : Arguments) (key : String) (position : Nat) : Bool :=
  ((argument? arguments key position).map isTrue).getD false

/-- The text of an argument that the function of a name cannot do without. -/
def require (arguments : Arguments) (function key : String) (position : Nat) : Outcome String :=
  match argument? arguments key position with
  | some value => .ok (text value)
  | none => .error (.function (function ++ ": missing argument " ++ grel key))

/-! ### Functions -/

def toUpperCase (arguments : Arguments) : Outcome Json := do
  let value ← require arguments "toUpperCase" "valueParameter" 0
  return .string (Text.upper value)

def toLowerCase (arguments : Arguments) : Outcome Json := do
  let value ← require arguments "toLowerCase" "valueParameter" 0
  return .string (Text.lower value)

def trim (arguments : Arguments) : Outcome Json := do
  let value ← require arguments "string_trim" "valueParameter" 0
  return .string (Text.trimBlanks value)

def length (arguments : Arguments) : Outcome Json := do
  let value ← require arguments "string_length" "valueParameter" 0
  return .integer value.length

def replace (arguments : Arguments) : Outcome Json := do
  let value ← require arguments "string_replace" "valueParameter" 0
  let needle ← require arguments "string_replace" "p_string_find" 1
  let replacement ← require arguments "string_replace" "p_string_replace" 2
  return .string
    (String.ofList (Text.replaceAll needle.toList replacement.toList value.toList))

/-- The parts of a text between the occurrences of a separator; the empty separator
splits it into its characters. -/
def parts (separator value : String) : List String :=
  if separator = "" then value.toList.map String.singleton
  else (Text.splitOn separator.toList value.toList).map String.ofList

def split (arguments : Arguments) : Outcome Json := do
  let value ← require arguments "string_split" "valueParameter" 0
  let separator ← require arguments "string_split" "p_string_sep" 1
  return .array ((parts separator value).map Json.string)

def concat (arguments : Arguments) : Outcome Json := do
  let value ← require arguments "string_concat" "valueParameter" 0
  return .string (value ++ textOrEmpty arguments "valueParameter2" 1)

/-- The texts of an array, without its nulls; any other value is an array of
itself. -/
def texts : Option Json → List String
  | some (.array elements) => (elements.filter fun element => !element.isNull).map text
  | some value => [text value]
  | none => []

def joinTexts (arguments : Arguments) : Outcome Json :=
  .ok (.string ((textOrEmpty arguments "p_string_sep" 1).intercalate
    (texts (argument? arguments "p_array_a" 0))))

def choose (arguments : Arguments) : Outcome Json :=
  let branch :=
    if holds arguments "bool_b" 0 then argument? arguments "any_true" 1
    else argument? arguments "any_false" 2
  .ok (branch.getD .null)

def negate (arguments : Arguments) : Outcome Json := .ok (.bool !holds arguments "bool_b" 0)

/-- The whole number nearest to a double, a half going away from zero. A double too
large for a 64-bit word is whole already, and stays a double. -/
def nearestWhole (x : Double) : Json :=
  let magnitude := x.nearestAway
  if magnitude < Nat.pow 2 63 then
    .integer (if x.negative then -(magnitude : Int) else magnitude)
  else .number (.real x)

/-- The whole number nearest to a number that is given as text. What lies beyond all
doubles has none. -/
def round (arguments : Arguments) : Outcome Json := do
  let value ← require arguments "math_round" "valueParameter" 0
  let trimmed := Text.trim Text.isBlank value.toList
  match Text.fraction? trimmed with
  | some fraction => return (fraction.toDouble?.map nearestWhole).getD .null
  | none =>
      if Text.isNonFinite trimmed then return .null
      else .error (.function ("math_round: not a number: " ++ value))

def functions : List (String × (Arguments → Outcome Json)) :=
  [("toUpperCase", toUpperCase), ("toLowerCase", toLowerCase), ("string_trim", trim),
   ("string_length", length), ("string_replace", replace), ("string_split", split),
   ("string_concat", concat), ("array_join", joinTexts), ("controls_if", choose),
   ("boolean_not", negate), ("math_round", round)]

def find? (iri : String) : Option (Arguments → Outcome Json) :=
  (functions.find? (grel ·.1 = iri)).map Prod.snd

end RdfMapping.Library
