import RdfMapping.Json.Printer
import RdfMapping.Record.Basic
/-!
Records as triples: the classes first, then the predicates in order. An array is
the list of its elements, and null is no value. Values that are neither texts nor
annotated have the datatype of their kind.
-/

namespace RdfMapping

structure Triple where
  subject : Term
  predicate : Term
  object : Term
  deriving DecidableEq, Repr

def Triple.render (triple : Triple) : String :=
  triple.subject.render ++ " " ++ triple.predicate.render ++ " " ++ triple.object.render ++ " .\n"

namespace ObjectValue

/-- The datatype of a value that has none of its own; texts need none. -/
def inferredDatatype : Json → Option String
  | .bool _ => some Vocabulary.xsdBoolean
  | .number (.integer _) => some Vocabulary.xsdInteger
  | .number (.real _) => some Vocabulary.xsdDouble
  | .object _ => some Vocabulary.rdfJson
  | _ => none

def literalTerm (datatype language : Option String) (value : Json) : Term :=
  match language, datatype.or (inferredDatatype value) with
  | some language, _ => .inLanguage value.lexical language
  | none, some datatype => .typed value.lexical datatype
  | none, none => .plain value.lexical

mutual

def literalTerms (datatype language : Option String) : Json → List Term
  | .null => []
  | .array elements => elementTerms datatype language elements
  | value => [literalTerm datatype language value]

def elementTerms (datatype language : Option String) : List Json → List Term
  | [] => []
  | element :: rest =>
      literalTerms datatype language element ++ elementTerms datatype language rest

end

def terms : ObjectValue → List Term
  | .reference id => [.ofId id]
  | .literal value datatype language => literalTerms datatype language value

end ObjectValue

namespace Record

def triples (record : Record) : List Triple :=
  let subject := Term.ofId record.id
  record.types.map (fun type => ⟨subject, .iri Vocabulary.rdfType, .ofId type⟩) ++
    record.properties.flatMap fun entry =>
      entry.2.flatMap fun value =>
        value.terms.map fun object => ⟨subject, .iri entry.1, object⟩

def renderTriples (records : List Record) : String :=
  String.join (records.flatMap fun record => record.triples.map Triple.render)

end Record

end RdfMapping
