import RdfMapping.Double.Shortest
import RdfMapping.Json.Basic
/-!
JSON text without blanks. Strings escape the quote, the backslash and the
control characters below U+0020, and nothing else. Numbers are written with the
fewest digits that read back.
-/

namespace RdfMapping.Json

/-- Doubles are written without an exponent from 0.00001 up to sixteen digits
before the point; a whole double keeps a fraction of zero, so that it is not
taken for a whole number. -/
def doubleLayout : Double.Layout :=
  { positionalFrom := -5, positionalTo := 15, wholeMark := ".0",
    positiveMark := "e+", negativeMark := "e-" }

def hexDigit (n : Nat) : Char :=
  if n < 10 then Char.ofNat ('0'.toNat + n) else Char.ofNat ('a'.toNat + n - 10)

def escapeChar (c : Char) : List Char :=
  match c with
  | '"' => ['\\', '"']
  | '\\' => ['\\', '\\']
  | '\x08' => ['\\', 'b']
  | '\x0c' => ['\\', 'f']
  | '\n' => ['\\', 'n']
  | '\r' => ['\\', 'r']
  | '\t' => ['\\', 't']
  | c =>
      if c.toNat < 0x20 then
        ['\\', 'u', '0', '0', hexDigit (c.toNat / 16), hexDigit (c.toNat % 16)]
      else [c]

def quote (text : String) : String :=
  String.ofList ('"' :: text.toList.flatMap escapeChar ++ ['"'])

end Json

def Number.render : Number → String
  | .integer value => toString value
  | .real value => Json.doubleLayout.render value

namespace Json

mutual

def render : Json → String
  | .null => "null"
  | .bool true => "true"
  | .bool false => "false"
  | .number value => value.render
  | .string value => quote value
  | .array elements => "[" ++ ",".intercalate (renderElements elements) ++ "]"
  | .object members => "\x7b" ++ ",".intercalate (renderMembers members) ++ "\x7d"

def renderElements : List Json → List String
  | [] => []
  | element :: rest => element.render :: renderElements rest

def renderMembers : List (String × Json) → List String
  | [] => []
  | (name, value) :: rest => (quote name ++ ":" ++ value.render) :: renderMembers rest

end

/-- The lexical form of a value: a string is its own, any other value has its
JSON text. -/
def lexical : Json → String
  | .string value => value
  | value => value.render

end RdfMapping.Json
