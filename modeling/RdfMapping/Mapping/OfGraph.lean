import RdfMapping.Graph.Basic
import RdfMapping.Mapping.Basic
/-!
Mappings that are described by a graph. A node is a rule if it is declared to be one
or has a logical source. What a description leaves out is either a default or an
error that names the missing property; errors are reported in the order in which the
parts of a rule are read.
-/

namespace RdfMapping.Graph

open Vocabulary (rr rml)

variable (graph : Graph)

/-! ### Values of properties -/

def orError {α : Type} (e : MappingError) : Option α → Outcome α
  | some value => .ok value
  | none => .error e

/-- The node that a term stands for; `property` is what it is the value of. -/
def nodeId (property expected : String) (term : NodeTerm) : Outcome String :=
  orError (.invalidValue property ("expected " ++ expected)) term.id?

def text? (id predicate : String) : Option String :=
  (graph.object? id predicate).bind NodeTerm.text?

/-- The selector of a term map, under either of its two names. -/
def selector? (id : String) : Option String :=
  ((graph.object? id (rml "reference")).or (graph.object? id (rr "column"))).bind NodeTerm.text?

def template? (id : String) : Outcome (Option Template) :=
  match graph.text? id (rr "template") with
  | some text => (Template.parse text).map some
  | none => .ok none

def termType? (id : String) : Outcome (Option TermType) :=
  match graph.object? id (rr "termType") with
  | none => .ok none
  | some term =>
      let iri := term.text?.getD ""
      match TermType.ofIri? iri with
      | some termType => .ok (some termType)
      | none => .error (.invalidTermType iri)

def constantOf : NodeTerm → Constant
  | .iri text => .iri text
  | .blank id => .iri id
  | .literal value datatype language => .literal value datatype language

/-! ### Logical sources -/

def guessFormulation (source : String) : Formulation :=
  let lower := source.toList.map Char.toLower
  if ".csv".toList.isSuffixOf lower then .csv
  else if ".xml".toList.isSuffixOf lower then .xPath
  else .jsonPath

/-- The formulation that a logical source names, or else the one that its name
suggests. -/
def formulation (id source : String) : Outcome Formulation :=
  match graph.object? id (rml "referenceFormulation") with
  | none => .ok (guessFormulation source)
  | some term => do
      let iri ← orError (.invalidValue "rml:referenceFormulation" "expected IRI") term.iri?
      orError
        (.invalidValue "rml:referenceFormulation"
          ("unsupported reference formulation " ++ iri))
        (Formulation.ofIri? iri)

def logicalSource (rule : String) : Outcome LogicalSource := do
  let id ←
    orError (.missingProperty (rml "logicalSource" ++ " in " ++ rule))
      ((graph.object? rule (rml "logicalSource")).bind NodeTerm.id?)
  let source ←
    orError (.missingProperty ("rml:source in " ++ rule)) (graph.text? id (rml "source"))
  let formulation ← graph.formulation id source
  return { id := source, iterator := graph.text? id (rml "iterator"), formulation }

/-! ### Predicates, languages and joins -/

/-- A predicate map. An IRI that is no node of the graph is the predicate itself. -/
def predicateMap (term : NodeTerm) : Outcome TextMap :=
  match term with
  | .literal .. => .error (.invalidValue "rr:predicateMap" "expected a node")
  | .iri text => if (graph.node? text).isSome then ofNode text else .ok (.constant text)
  | .blank id => ofNode id
where
  ofNode (id : String) : Outcome TextMap :=
    match graph.text? id (rr "constant") with
    | some text => .ok (.constant text)
    | none => do
        match ← graph.template? id, graph.selector? id with
        | some template, _ => return .template template
        | none, some selector => return .reference selector
        | none, none =>
            throw (.missingProperty
              ("rr:constant, rr:template or rml:reference in predicate map " ++ id))

def languageMap (term : NodeTerm) : Outcome TextMap := do
  let id ← nodeId "rml:languageMap" "a language map node" term
  match graph.text? id (rr "constant"), graph.selector? id with
  | some text, _ => return .constant text
  | none, some selector => return .reference selector
  | none, none =>
      match ← graph.template? id with
      | some template => return .template template
      | none =>
          throw (.missingProperty
            ("rr:constant, rml:reference or rr:template in language map " ++ id))

def joinCondition (term : NodeTerm) : Outcome JoinCondition := do
  let id ← nodeId "rr:joinCondition" "a join condition node" term
  let child ←
    orError (.missingProperty "rr:child in join condition") (graph.text? id (rr "child"))
  let parent ←
    orError (.missingProperty "rr:parent in join condition") (graph.text? id (rr "parent"))
  return ⟨child, parent⟩

def parentReference (id : String) (term : NodeTerm) : Outcome ParentReference := do
  let parent ← nodeId "rr:parentTriplesMap" "IRI" term
  let conditions ← (graph.objects id (rr "joinCondition")).mapM graph.joinCondition
  return ⟨parent, conditions⟩

/-! ### Predicate-object maps

Function calls have predicate-object maps of their own. In this part `call?` reads
the function call of a term map, if it has one. -/

def objectKind (call? : String → Outcome (Option FunctionCall)) (id : String) :
    Outcome ObjectKind :=
  match graph.selector? id, graph.object? id (rr "constant") with
  | some selector, _ => .ok (.reference selector)
  | none, some term => .ok (.constant (constantOf term))
  | none, none => do
      match ← graph.template? id with
      | some template => return .template template
      | none =>
          match ← call? id with
          | some call => return .function call
          | none =>
              throw (.missingProperty
                ("rml:reference, rr:constant, rr:template, fnml:functionValue or " ++
                  "rr:parentTriplesMap in object map " ++ id))

def objectMap (call? : String → Outcome (Option FunctionCall)) (term : NodeTerm) :
    Outcome ObjectMap := do
  let id ← nodeId "rr:objectMap" "an object map node" term
  match graph.object? id (rr "parentTriplesMap") with
  | some parent => return .ofKind (.parent (← graph.parentReference id parent))
  | none =>
      let languageMap ← (graph.object? id (rml "languageMap")).mapM graph.languageMap
      let termType ← graph.termType? id
      let kind ← graph.objectKind call? id
      return {
        kind, termType, languageMap
        datatype := (graph.object? id (rr "datatype")).bind NodeTerm.iri?
        language := graph.text? id (rr "language") }

def predicates (id : String) : Outcome (List TextMap) := do
  let constants ← (graph.objects id (rr "predicate")).mapM fun term =>
    orError (.invalidValue "rr:predicate" "expected IRI") (term.iri?.map TextMap.constant)
  let maps ← (graph.objects id (rr "predicateMap")).mapM graph.predicateMap
  if (constants ++ maps).isEmpty then
    throw (.missingProperty ("rr:predicate or rr:predicateMap in " ++ id))
  else return constants ++ maps

def objectMaps (call? : String → Outcome (Option FunctionCall)) (id : String) :
    Outcome (List ObjectMap) := do
  let constants := (graph.objects id (rr "object")).map fun term =>
    ObjectMap.ofKind (.constant (constantOf term))
  let maps ← (graph.objects id (rr "objectMap")).mapM (graph.objectMap call?)
  if (constants ++ maps).isEmpty then
    throw (.missingProperty ("rr:object or rr:objectMap in " ++ id))
  else return constants ++ maps

def predicateObjectMap (call? : String → Outcome (Option FunctionCall)) (term : NodeTerm) :
    Outcome PredicateObjectMap := do
  let id ← nodeId "rr:predicateObjectMap" "a node" term
  let predicates ← graph.predicates id
  let objects ← graph.objectMaps call? id
  return ⟨predicates, objects⟩

def predicateObjectMaps (call? : String → Outcome (Option FunctionCall)) (owner : String) :
    Outcome (List PredicateObjectMap) :=
  (graph.objects owner (rr "predicateObjectMap")).mapM (graph.predicateObjectMap call?)

/-- The function call of a term map, if it has one. Calls nest at most `depth`
deep. -/
def callWithin (depth : Nat) (owner : String) : Outcome (Option FunctionCall) :=
  match graph.object? owner Vocabulary.functionValue with
  | none => .ok none
  | some term => do
      let id ← nodeId "fnml:functionValue" "a function value node" term
      match depth with
      | 0 => throw (.invalidValue "fnml:functionValue" (id ++ " contains itself"))
      | depth + 1 => return some ⟨id, ← graph.predicateObjectMaps (callWithin depth) id⟩

/-- The function call of a term map, if it has one. Every call of a nest stands at a
node of its own unless one contains itself, so that the number of nodes bounds the
depth. -/
def call? (owner : String) : Outcome (Option FunctionCall) :=
  graph.callWithin graph.size owner

/-! ### Subjects -/

/-- What a subject map is made from: all of the kinds that the graph gives. -/
def subjectKinds (id : String) : Outcome (List SubjectKind) := do
  let template ← graph.template? id
  let call ← graph.call? id
  let constant ← (graph.object? id (rr "constant")).mapM fun term =>
    orError (.invalidValue "rr:constant" "expected IRI") term.text?
  return ((graph.selector? id).map SubjectKind.reference).toList ++
    (template.map SubjectKind.template).toList ++
    (call.map SubjectKind.function).toList ++
    (constant.map SubjectKind.constant).toList

/-- The classes of a subject map: fixed ones, and at most one that a function
gives. -/
def addClass (classes : List String × Option FunctionCall) (term : NodeTerm) :
    Outcome (List String × Option FunctionCall) :=
  match term with
  | .iri text => .ok (classes.1 ++ [text], classes.2)
  | .literal value _ _ => .ok (classes.1 ++ [value], classes.2)
  | .blank id => do
      match ← graph.call? id, classes.2 with
      | none, _ => throw (.invalidValue "rr:class" "expected IRI or function value")
      | some _, some _ =>
          throw (.invalidValue "rr:class" "at most one function-derived class is supported")
      | some call, none => return (classes.1, some call)

def subjectMapOf (rule id : String) : Outcome SubjectMap := do
  let kinds ← graph.subjectKinds id
  if 1 < kinds.length then
    throw (.invalidValue "rr:subjectMap"
      ("unsupported combination of subject value sources in " ++ rule))
  let termType ← graph.termType? id
  if termType = some .literal then
    throw (.invalidTermType ("subject map of " ++ rule ++ " cannot produce literals"))
  let (classes, classFunction) ←
    (graph.objects id (rr "class")).foldlM graph.addClass ([], none)
  return { kind := kinds.headD .blank, termType, classes, classFunction }

/-- The subject map of a rule, which has exactly one. -/
def subjectMap (rule : String) : Outcome SubjectMap :=
  match graph.objects rule (rr "subject"), graph.objects rule (rr "subjectMap") with
  | [], [] => .error (.missingProperty ("rr:subjectMap in " ++ rule))
  | [subject], [] => do
      let iri ← nodeId "rr:subject" "IRI" subject
      return { kind := .constant iri, termType := none, classes := [], classFunction := none }
  | [], [term] => do
      graph.subjectMapOf rule (← nodeId "rr:subjectMap" "a subject map node" term)
  | subjects, maps =>
      .error (.invalidValue "rr:subjectMap"
        (rule ++ " declares " ++ toString (subjects.length + maps.length) ++
          " subject maps, expected exactly one"))

/-! ### Rules -/

def rule (id : String) : Outcome Rule := do
  let source ← graph.logicalSource id
  let subject ← graph.subjectMap id
  let predicateObjectMaps ← graph.predicateObjectMaps graph.call? id
  return { iri := id, source, subject, predicateObjectMaps }

def isRule (id : String) : Bool :=
  (graph.objects id Vocabulary.rdfType).contains (.iri (rr "TriplesMap")) ||
    (graph.object? id (rml "logicalSource")).isSome

def rules : Outcome (List Rule) :=
  ((graph.nodes.toList.map Node.id).filter graph.isRule).mapM graph.rule

def mapping : Outcome Mapping := do Mapping.ofRules (← graph.rules)

end RdfMapping.Graph
