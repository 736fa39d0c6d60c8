import RdfMapping.Error
import RdfMapping.Text.Blank
/-!
Tables in delimited text. A record is a line of fields; a field in quotes may
contain the delimiter, line breaks, and quotes written twice. Lines end in a line
feed, a carriage return, or both. A line without content makes no record.

The first record names the columns, and every further one is a row.
-/

namespace RdfMapping.Csv

/-! ### Records -/

/-- What a reader has gathered of the current record: the fields that are
complete, the last one first, and the characters of the next field, the last one
first. -/
structure Partial where
  fields : List String
  field : List Char

namespace Partial

def empty : Partial := ⟨[], []⟩

def push (c : Char) (p : Partial) : Partial := { p with field := c :: p.field }

def endField (p : Partial) : Partial := ⟨String.ofList p.field.reverse :: p.fields, []⟩

def toRecord (p : Partial) : List String := p.endField.fields.reverse

/-- Nothing has been gathered, not even an empty field. -/
def isEmpty (p : Partial) : Bool := p.fields.isEmpty && p.field.isEmpty

end Partial

/-- A record in front of others; the record of a blank line is left out. -/
def cons (record : List String) (records : List (List String)) : List (List String) :=
  if record = [""] then records else record :: records

/-- The records of the rest of a text, read inside or outside a quoted field.
`line` counts the lines that have begun. A text that ends inside a quoted field has
no records, only that count. -/
def readFrom (delimiter : Char) :
    (quoted : Bool) → (line : Nat) → Partial → List Char → Except Nat (List (List String))
  | true, line, _, [] => .error line
  | false, _, p, [] => .ok (if p.isEmpty then [] else cons p.toRecord [])
  | true, line, p, '"' :: '"' :: rest => readFrom delimiter true line (p.push '"') rest
  | true, line, p, '"' :: rest => readFrom delimiter false line p rest
  | true, line, p, c :: rest =>
      readFrom delimiter true (if c = '\n' then line + 1 else line) (p.push c) rest
  | false, line, p, c :: rest =>
      if c = '"' ∧ p.field = [] then readFrom delimiter true line p rest
      else if c = delimiter then readFrom delimiter false line p.endField rest
      else if c = '\r' ∧ rest.head? = some '\n' then readFrom delimiter false line p rest
      else if c = '\n' ∨ c = '\r' then do
        let records ← readFrom delimiter false (line + 1) .empty rest
        return cons p.toRecord records
      else readFrom delimiter false line (p.push c) rest

def records (delimiter : Char) (text : List Char) : Except Nat (List (List String)) :=
  readFrom delimiter false 1 .empty (Text.dropMark text)

/-! ### Tables -/

structure Table where
  headers : List String
  rows : List (List String)
  deriving DecidableEq, Repr

def Table.ofRecords : List (List String) → Table
  | [] => ⟨[], []⟩
  | headers :: rows => ⟨headers, rows⟩

def lastIndexOf? (text : String) : List String → Option Nat
  | [] => none
  | first :: rest =>
      match lastIndexOf? text rest with
      | some index => some (index + 1)
      | none => if first = text then some 0 else none

namespace Table

def parse (id content : String) (delimiter : Char) : Outcome Table :=
  match records delimiter content.toList with
  | .ok records => .ok (ofRecords records)
  | .error line => .error (.source id (.unterminatedQuote line))

/-- The field of a row in a column. Of two columns with one name the last one
counts; a row that is too short has no field. -/
def cell (table : Table) (row : Nat) (column : String) : Option String := do
  let index ← lastIndexOf? column table.headers
  let fields ← table.rows[row]?
  fields[index]?

end Table

end RdfMapping.Csv
