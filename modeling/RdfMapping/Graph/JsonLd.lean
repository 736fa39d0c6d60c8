import RdfMapping.Error
import RdfMapping.Graph.Basic
import RdfMapping.Json.Parser
import RdfMapping.Json.Printer
/-!
Graphs from JSON-LD. A document is a node object, or a list of them, possibly below
`@graph`; node objects may stand inside one another. A context at the top of the
document defines terms and prefixes, which are expanded once. A node object without
an identifier is named by a counter.
-/

namespace RdfMapping.JsonLd

/-! ### Contexts -/

abbrev Context := List (String × String)

/-- The IRI in the definition of a term, if it is a text or an object with an
identifier. -/
def definition? : Json → Option String
  | .string iri => some iri
  | .object members =>
      match Table.get? "@id" members with
      | some (.string iri) => some iri
      | _ => none
  | _ => none

def define (context : Context) (members : List (String × Json)) : Context :=
  members.foldl
    (fun context entry =>
      match definition? entry.2 with
      | some iri => Table.insert entry.1 iri context
      | none => context)
    context

mutual

def readContext (context : Context) : Json → Outcome Context
  | .array elements => readContexts context elements
  | .object members => .ok (define context members)
  | .null => .ok context
  | _ => .error (.parse "remote @context references are not supported")

def readContexts (context : Context) : List Json → Outcome Context
  | [] => .ok context
  | element :: rest => do readContexts (← readContext context element) rest

end

def splitPrefix? (term : String) : Option (String × String) :=
  match term.toList.span (· != ':') with
  | (start, ':' :: rest) => some (String.ofList start, String.ofList rest)
  | _ => none

/-- The namespace of a term with a defined prefix, and the rest of the term. What
follows the colon must not begin with two slashes. -/
def compact? (context : Context) (term : String) : Option (String × String) := do
  let (start, rest) ← splitPrefix? term
  if ['/', '/'].isPrefixOf rest.toList then none
  else (Table.get? start context).map (·, rest)

def expand (context : Context) (term : String) : String :=
  if Term.blankMark.toList.isPrefixOf term.toList then term
  else
    match Table.get? term context with
    | some iri => iri
    | none =>
        match compact? context term with
        | some (start, rest) => start ++ rest
        | none => term

/-! ### Node objects -/

structure Loading where
  graph : Graph
  names : Nat

abbrev LoadM := StateT Loading (Except MappingError)

def freshId : LoadM String := do
  let loading ← get
  set { loading with names := loading.names + 1 }
  return Term.blankMark ++ "b" ++ toString loading.names

def ensureNode (id : String) : LoadM Unit :=
  modify fun loading => { loading with graph := loading.graph.ensure id }

def addStatement (id predicate : String) (object : NodeTerm) : LoadM Unit :=
  modify fun loading => { loading with graph := loading.graph.add id predicate object }

def identify (context : Context) (members : List (String × Json)) : LoadM String :=
  match Table.get? "@id" members with
  | some (.string id) => return expand context id
  | some other => throw (.parse ("invalid @id: " ++ other.render))
  | none => freshId

def items : Json → List Json
  | .array elements => elements
  | value => [value]

def addTypes (context : Context) (id : String) : List Json → LoadM Unit
  | [] => return ()
  | .string type :: rest => do
      addStatement id Vocabulary.rdfType (.ofId (expand context type))
      addTypes context id rest
  | other :: _ => throw (.parse ("invalid @type value: " ++ other.render))

def textMember? (name : String) (members : List (String × Json)) : Option String :=
  (Table.get? name members).bind Json.string?

def literal (context : Context) (value : Json) (members : List (String × Json)) :
    LoadM NodeTerm := do
  let text ←
    match value with
    | .string text => pure text
    | .number number => pure number.render
    | .bool truth => pure (Json.render (.bool truth))
    | other => throw (.parse ("invalid @value: " ++ other.render))
  return .literal text ((textMember? "@type" members).map (expand context))
    (textMember? "@language" members)

/-- The identifier in an object that consists of nothing else; one that is no text
is empty. -/
def soleId? (context : Context) : List (String × Json) → Option String
  | [("@id", .string id)] => some (expand context id)
  | [("@id", _)] => some ""
  | _ => none

def numberDatatype : Number → String
  | .integer _ => Vocabulary.xsdInteger
  | .real _ => Vocabulary.xsdDouble

mutual

def addMembers (context : Context) (id : String) : List (String × Json) → LoadM Unit
  | [] => return ()
  | (key, value) :: rest => do
      if key = "@type" then addTypes context id (items value)
      else if key.toList.head? = some '@' then pure ()
      else
        match value with
        | .array elements => addItems context id (expand context key) elements
        | single => addItem context id (expand context key) single
      addMembers context id rest

def addItems (context : Context) (id predicate : String) : List Json → LoadM Unit
  | [] => return ()
  | element :: rest => do
      addItem context id predicate element
      addItems context id predicate rest

/-- Adds a statement for a value; null makes none. The statements of a node object
inside come before the one that refers to it. -/
def addItem (context : Context) (id predicate : String) : Json → LoadM Unit
  | .null => return ()
  | .string text => addStatement id predicate (.plain text)
  | .bool truth =>
      addStatement id predicate
        (.literal (Json.render (.bool truth)) (some Vocabulary.xsdBoolean) none)
  | .number number =>
      addStatement id predicate (.literal number.render (some (numberDatatype number)) none)
  | .array _ => throw (.parse "nested arrays are not supported")
  | .object members =>
      match Table.get? "@value" members, soleId? context members with
      | some value, _ => do addStatement id predicate (← literal context value members)
      | none, some target => addStatement id predicate (.ofId target)
      | none, none => do
          let target ← identify context members
          ensureNode target
          addMembers context target members
          addStatement id predicate (.ofId target)

end

def addNode (context : Context) : Json → LoadM Unit
  | .object members => do
      let id ← identify context members
      ensureNode id
      addMembers context id members
  | other => throw (.parse ("expected node object, found " ++ other.render))

def graphOf (context : Context) (nodes : List Json) : Outcome Graph := do
  let (_, loading) ← (nodes.forM (addNode context)).run ⟨.empty, 0⟩
  return loading.graph

def read (document : Json) : Outcome Graph :=
  match document with
  | .array nodes => graphOf [] nodes
  | .object members => do
      let context ← readContext [] ((Table.get? "@context" members).getD .null)
      graphOf context (((Table.get? "@graph" members).map items).getD [document])
  | _ => .error (.parse "JSON-LD document must be an object or an array")

def readText (text : String) : Outcome Graph :=
  match Json.parse? text with
  | some document => read document
  | none => .error .unreadable

end RdfMapping.JsonLd
