/-!
The IRIs that mappings, their results and the function library speak of, grouped
by vocabulary. The two families of numeric datatypes are decided here as well.
-/

namespace RdfMapping.Vocabulary

/-! ### RDF and XML Schema -/

def rdf (name : String) : String := "http://www.w3.org/1999/02/22-rdf-syntax-ns#" ++ name

def rdfType : String := rdf "type"
def rdfLangString : String := rdf "langString"
def rdfJson : String := rdf "JSON"

def xsd (name : String) : String := "http://www.w3.org/2001/XMLSchema#" ++ name

def xsdString : String := xsd "string"
def xsdInteger : String := xsd "integer"
def xsdDouble : String := xsd "double"
def xsdBoolean : String := xsd "boolean"

def isIntegerFamily (datatype : String) : Bool :=
  [xsdInteger, xsd "long", xsd "int", xsd "short"].contains datatype

def isDecimalFamily (datatype : String) : Bool :=
  [xsd "decimal", xsd "float", xsdDouble].contains datatype

/-! ### Mapping vocabularies -/

def rr (name : String) : String := "http://www.w3.org/ns/r2rml#" ++ name

def rml (name : String) : String := "http://semweb.mmlab.be/ns/rml#" ++ name

def ql (name : String) : String := "http://semweb.mmlab.be/ns/ql#" ++ name

def functionValue : String := "http://semweb.mmlab.be/ns/fnml#functionValue"

def executes : String := "https://w3id.org/function/ontology#executes"

/-! ### Function library -/

def grel (name : String) : String :=
  "http://users.ugent.be/~bjdmeest/function/grel.ttl#" ++ name

end RdfMapping.Vocabulary
