/-!
What can go wrong while a mapping is read or run. Each failure is a value that
names its cause; the wording for people is given by `MappingError.message` and
nowhere else.
-/

namespace RdfMapping

inductive SourceFault where
  /-- A quoted field is still open at the end of the content; `line` is the
  number of the line that the reader would have started next. -/
  | unterminatedQuote (line : Nat)
  /-- The content is not a document of the format that its source announces. -/
  | malformed
  deriving DecidableEq, Repr

inductive MappingError where
  /-- The text of a mapping is not a JSON document. -/
  | unreadable
  /-- The document is JSON and still no description of nodes. -/
  | parse (detail : String)
  /-- A node lacks a property that its role demands. -/
  | missingProperty (detail : String)
  /-- A property has a value that it must not have. -/
  | invalidValue (property detail : String)
  /-- A term map demands a kind of term that it cannot produce. -/
  | invalidTermType (detail : String)
  /-- A language tag that the grammar of tags does not derive. -/
  | invalidLanguageTag (tag : String)
  /-- A rule is referred to that the mapping does not define. -/
  | unknownRule (iri : String)
  /-- A rule was needed while it was itself being evaluated. -/
  | cyclicDependency (iri : String)
  /-- A function is unknown, or refused its arguments. -/
  | function (detail : String)
  /-- No content was supplied for a logical source. -/
  | missingSource (id : String)
  /-- The content of a logical source could not be read. -/
  | source (id : String) (fault : SourceFault)
  /-- An iterator or a reference is no expression of its language. -/
  | invalidSelector (selector detail : String)
  deriving DecidableEq, Repr

/-- The wording of a source fault, empty where the fault has no more to say
than that the content is malformed. -/
def SourceFault.detail : SourceFault → String
  | .unterminatedQuote line =>
      ": unterminated quoted field starting before line " ++ toString line
  | .malformed => ""

def MappingError.message : MappingError → String
  | .unreadable => "Parse error"
  | .parse detail => "Parse error: " ++ detail
  | .missingProperty detail => "Missing required property: " ++ detail
  | .invalidValue property detail => "Invalid value for " ++ property ++ ": " ++ detail
  | .invalidTermType detail => "Invalid term type: " ++ detail
  | .invalidLanguageTag tag => "Invalid language tag: " ++ tag
  | .unknownRule iri => "Unknown TriplesMap: " ++ iri
  | .cyclicDependency iri => "Cyclic dependency while evaluating TriplesMap " ++ iri
  | .function detail => "Function error: " ++ detail
  | .missingSource id => "Missing source: " ++ id
  | .source id fault => "Source error in " ++ id ++ fault.detail
  | .invalidSelector selector detail =>
      "Invalid selector '" ++ selector ++ "': " ++ detail

abbrev Outcome (α : Type) := Except MappingError α

end RdfMapping
