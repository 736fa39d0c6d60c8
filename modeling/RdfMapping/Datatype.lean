import RdfMapping.Json.Basic
import RdfMapping.Text.Blank
import RdfMapping.Text.Numeral
import RdfMapping.Vocabulary
/-!
Values of formats that know text only. A datatype of numbers or of truth values
turns a text that denotes such a value into that value; every other text stays as
it is.
-/

namespace RdfMapping.Datatype

def truth? (text : String) : Option Bool :=
  if text = "true" ∨ text = "1" then some true
  else if text = "false" ∨ text = "0" then some false
  else none

/-- The value that a text denotes under a datatype, blanks at its ends apart. -/
def value? (datatype text : String) : Option Json :=
  let trimmed := Text.trimBlanks text
  if Vocabulary.isIntegerFamily datatype then
    (Text.integer? trimmed.toList).map Json.integer
  else if Vocabulary.isDecimalFamily datatype then
    (Text.double? trimmed.toList).map fun x => .number (.real x)
  else if datatype = Vocabulary.xsdBoolean then (truth? trimmed).map Json.bool
  else none

def coerce (datatype : Option String) (text : String) : Json :=
  ((datatype.bind fun d => value? d text)).getD (.string text)

end RdfMapping.Datatype
