import RdfMapping.Csv
import RdfMapping.Datatype
import RdfMapping.Json.Parser
import RdfMapping.JsonPath
import RdfMapping.Mapping.Rule
import RdfMapping.Options
import RdfMapping.XPath
/-!
Documents of the three formulations as rows. An iterator divides a document into
rows, and a selector picks values from one of them; what it does not find is no
value, and no error. A selector behind the path mark picks the places of the
values instead.
-/

namespace RdfMapping

/-! ### Selectors -/

namespace Selector

def pathMark : String := "PATH~"

def split (selector : String) : String × Bool :=
  match Text.dropStart? pathMark.toList selector.toList with
  | some rest => (String.ofList rest, true)
  | none => (selector, false)

end Selector

/-! ### Documents -/

inductive Document where
  | csv (table : Csv.Table)
  | json (value : Json)
  | xml (document : Xml.Document)

namespace Document

def parse (id content : String) (formulation : Formulation) (options : Options) :
    Outcome Document :=
  match formulation with
  | .csv => (Csv.Table.parse id content options.delimiter).map .csv
  | .jsonPath =>
      match Json.parse? content with
      | some value => .ok (.json value)
      | none => .error (.source id .malformed)
  | .xPath => (Xml.Document.parse id content options.droppedNamespaces).map .xml

end Document

/-! ### Rows -/

inductive Rows where
  /-- The rows of a table, which needs no iterator. -/
  | csv (table : Csv.Table)
  /-- Nodes of a JSON document, with their places in it. -/
  | json (hits : List JsonHit)
  /-- Elements of an XML document. -/
  | xml (document : Xml.Document) (elements : List Nat)

namespace Rows

/-- The rows that a JSON iterator selects. An iterator without steps stands on the
whole document, and if that is an array, on its elements. -/
def jsonRows (path : JsonPath) (root : Json) : List JsonHit :=
  match path.steps, root with
  | [], .array elements => JsonHit.elementsFrom [] 0 elements
  | _, _ => path.select root

def xmlRows (path : XPath) (document : Xml.Document) : List Nat :=
  (path.select document 0).filterMap fun
    | .element index => some index
    | _ => none

/-- The rows into which an iterator divides a document: without one, the whole
JSON document, or the elements at the top of the XML document. -/
def ofDocument (iterator : Option String) : Document → Outcome Rows
  | .csv table => .ok (.csv table)
  | .json root => do
      let path ← JsonPath.parse (iterator.getD "$")
      return .json (jsonRows path root)
  | .xml document => do
      let path ← XPath.parse (iterator.getD "/*")
      return .xml document (xmlRows path document)

def count : Rows → Nat
  | .csv table => table.rows.length
  | .json hits => hits.length
  | .xml _ elements => elements.length

/-- The values that a JSON node stands for: an array for its elements, and null
for nothing. -/
def spread : Json → List Json
  | .null => []
  | .array elements => elements.filter fun element => !element.isNull
  | value => [value]

def csvValues (table : Csv.Table) (row : Nat) (column : String) (wantsPath : Bool)
    (datatype : Option String) : List Json :=
  match table.cell row column with
  | none => []
  | some text =>
      if wantsPath then [.string ("/" ++ toString row ++ "/" ++ column)]
      else [Datatype.coerce datatype text]

def jsonValues (path : JsonPath) (row : JsonHit) (wantsPath : Bool) : List Json :=
  (path.selectFrom row).flatMap fun hit =>
    if wantsPath then [.string (JsonLocation.render "$" hit.1)] else spread hit.2

def xmlValues (path : XPath) (document : Xml.Document) (row : Nat) (wantsPath : Bool)
    (datatype : Option String) : List Json :=
  (path.select document row).map fun hit =>
    if wantsPath then .string (hit.path document)
    else Datatype.coerce datatype (hit.value document)

/-- The values that a selector picks from a row. In formats that know text only,
the datatype says which values the texts stand for. A row that is not there has no
values, whatever the selector. -/
def valuesAt (rows : Rows) (row : Nat) (selector : String) (datatype : Option String) :
    Outcome (List Json) :=
  let (reference, wantsPath) := Selector.split selector
  match rows with
  | .csv table => .ok (csvValues table row reference wantsPath datatype)
  | .json hits =>
      match hits[row]? with
      | none => .ok []
      | some hit => (JsonPath.parse reference).map (jsonValues · hit wantsPath)
  | .xml document elements =>
      match elements[row]? with
      | none => .ok []
      | some element =>
          (XPath.parse reference).map (xmlValues · document element wantsPath datatype)

end Rows

end RdfMapping
