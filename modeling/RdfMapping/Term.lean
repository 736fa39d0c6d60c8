import RdfMapping.Text.Percent
import RdfMapping.Vocabulary
/-!
RDF terms and their N-Triples notation.
-/

namespace RdfMapping

inductive Term where
  | iri (iri : String)
  | blank (label : String)
  | literal (value : String) (datatype language : Option String)
  deriving DecidableEq, Repr

namespace Term

/-- What an identifier begins with when it stands for a blank node. -/
def blankMark : String := "_:"

/-- The identifier of the blank node with a name: any text is a name, and is
percent-encoded to become a label. -/
def blankId (name : String) : String := blankMark ++ Text.percentEncode name

def ofId (id : String) : Term :=
  match id.toList with
  | '_' :: ':' :: label => .blank (String.ofList label)
  | _ => .iri id

def plain (value : String) : Term := .literal value none none

def typed (value datatype : String) : Term := .literal value (some datatype) none

def inLanguage (value language : String) : Term :=
  .literal value (some Vocabulary.rdfLangString) (some language)

/-! ### Notation -/

def escapeChar : Char → List Char
  | '"' => ['\\', '"']
  | '\\' => ['\\', '\\']
  | '\n' => ['\\', 'n']
  | '\r' => ['\\', 'r']
  | '\t' => ['\\', 't']
  | c => [c]

def escapeLiteral (value : String) : String :=
  String.ofList (value.toList.flatMap escapeChar)

/-- What follows the closing quote of a literal. A language hides the datatype,
and the datatype of strings is left out. -/
def literalSuffix : (datatype language : Option String) → String
  | _, some language => "@" ++ language
  | none, none => ""
  | some datatype, none =>
      if datatype = Vocabulary.xsdString then "" else "^^<" ++ datatype ++ ">"

def render : Term → String
  | .iri value => "<" ++ value ++ ">"
  | .blank label => blankMark ++ label
  | .literal value datatype language =>
      "\"" ++ escapeLiteral value ++ "\"" ++ literalSuffix datatype language

end Term

end RdfMapping
