import RdfMapping.Template
import RdfMapping.Vocabulary
/-!
The rules of a mapping. A rule takes the rows of one logical source and makes a
record of each: the subject map names the record, and the predicate-object maps
give it its values. Values come from constants, from references into the row, from
templates, from functions, or from the records of another rule.

A function call takes its parameters from predicate-object maps of its own, which
may call functions in turn; the types of the parts of a rule are therefore
mutually recursive.
-/

namespace RdfMapping

/-! ### Logical sources -/

inductive Formulation where
  | csv
  | jsonPath
  | xPath
  deriving DecidableEq, Repr

namespace Formulation

def name : Formulation → String
  | .csv => "CSV"
  | .jsonPath => "JSONPath"
  | .xPath => "XPath"

def all : List Formulation := [.csv, .jsonPath, .xPath]

def iri (formulation : Formulation) : String := Vocabulary.ql formulation.name

def ofIri? (iri : String) : Option Formulation := all.find? (·.iri = iri)

end Formulation

structure LogicalSource where
  id : String
  iterator : Option String
  formulation : Formulation
  deriving DecidableEq, Repr

/-! ### Parts of a rule -/

inductive TermType where
  | iri
  | blankNode
  | literal
  deriving DecidableEq, Repr

namespace TermType

def name : TermType → String
  | .iri => "IRI"
  | .blankNode => "BlankNode"
  | .literal => "Literal"

def all : List TermType := [.iri, .blankNode, .literal]

def ofIri? (iri : String) : Option TermType := all.find? (Vocabulary.rr ·.name = iri)

end TermType

inductive TextMap where
  | constant (text : String)
  | reference (selector : String)
  | template (template : Template)
  deriving DecidableEq, Repr

namespace TextMap

def constant? : TextMap → Option String
  | .constant text => some text
  | _ => none

end TextMap

inductive Constant where
  | iri (iri : String)
  | literal (value : String) (datatype language : Option String)
  deriving DecidableEq, Repr

/-- The identifier or the value, without its kind. -/
def Constant.lexical : Constant → String
  | .iri text => text
  | .literal value _ _ => value

/-- A row and a row of the parent rule belong together when what `child` selects
in the one equals what `parent` selects in the other. -/
structure JoinCondition where
  child : String
  parent : String
  deriving DecidableEq, Repr

/-- The records of another rule, all of them or those that the conditions admit. -/
structure ParentReference where
  parent : String
  conditions : List JoinCondition
  deriving DecidableEq, Repr

def ParentReference.paths (reference : ParentReference) : List String :=
  reference.conditions.map JoinCondition.parent

mutual

structure ObjectMap where
  kind : ObjectKind
  termType : Option TermType
  datatype : Option String
  language : Option String
  languageMap : Option TextMap

inductive ObjectKind where
  | constant (value : Constant)
  | reference (selector : String)
  | template (template : Template)
  | function (call : FunctionCall)
  | parent (reference : ParentReference)

/-- Every predicate takes the values of every object map. -/
structure PredicateObjectMap where
  predicates : List TextMap
  objects : List ObjectMap

/-- A call of a function. One of the members names the function, the others its
parameters. -/
structure FunctionCall where
  id : String
  members : List PredicateObjectMap

end

def ObjectMap.ofKind (kind : ObjectKind) : ObjectMap :=
  { kind, termType := none, datatype := none, language := none, languageMap := none }

/-- The kind of term that an object map makes; a function without an explicit one
leaves it to its result. -/
def ObjectMap.resolvedTermType (object : ObjectMap) : Option TermType :=
  match object.termType, object.kind with
  | some termType, _ => some termType
  | none, .constant (.iri _) => some .iri
  | none, .constant (.literal ..) => some .literal
  | none, .reference _ => some .literal
  | none, .template _ =>
      if object.datatype.isSome || object.language.isSome || object.languageMap.isSome then
        some .literal
      else some .iri
  | none, .function _ => none
  | none, .parent _ => some .iri

def ObjectMap.parent? (object : ObjectMap) : Option ParentReference :=
  match object.kind with
  | .parent reference => some reference
  | _ => none

def ObjectMap.call? (object : ObjectMap) : Option FunctionCall :=
  match object.kind with
  | .function call => some call
  | _ => none

inductive SubjectKind where
  | reference (selector : String)
  | template (template : Template)
  | function (call : FunctionCall)
  | constant (iri : String)
  /-- An anonymous record for every row. -/
  | blank

structure SubjectMap where
  kind : SubjectKind
  termType : Option TermType
  classes : List String
  classFunction : Option FunctionCall

def SubjectMap.resolvedTermType (subject : SubjectMap) : TermType :=
  match subject.termType, subject.kind with
  | some termType, _ => termType
  | none, .blank => .blankNode
  | none, _ => .iri

/-- The function calls of a subject map: that of the subject, then that of its
classes. -/
def SubjectMap.calls (subject : SubjectMap) : List FunctionCall :=
  (match subject.kind with
    | .function call => [call]
    | _ => []) ++ subject.classFunction.toList

structure Rule where
  iri : String
  source : LogicalSource
  subject : SubjectMap
  predicateObjectMaps : List PredicateObjectMap

/-! ### References to other rules -/

mutual

/-- The parent references among the parameters of a call, those of nested calls
included, in the order in which they are written. -/
def FunctionCall.parentReferences : FunctionCall → List ParentReference
  | ⟨_, members⟩ => memberReferences members

def memberReferences : List PredicateObjectMap → List ParentReference
  | [] => []
  | ⟨_, objects⟩ :: rest => objectReferences objects ++ memberReferences rest

def objectReferences : List ObjectMap → List ParentReference
  | [] => []
  | ⟨kind, _, _, _, _⟩ :: rest => kind.parentReferences ++ objectReferences rest

def ObjectKind.parentReferences : ObjectKind → List ParentReference
  | .parent reference => [reference]
  | .function call => call.parentReferences
  | _ => []

end

/-- The parent references that stand directly in a rule. They are resolved when
all rules have been evaluated. -/
def Rule.joinReferences (rule : Rule) : List ParentReference :=
  rule.predicateObjectMaps.flatMap fun pom => pom.objects.filterMap ObjectMap.parent?

def Rule.calls (rule : Rule) : List FunctionCall :=
  rule.subject.calls ++
    rule.predicateObjectMaps.flatMap fun pom => pom.objects.filterMap ObjectMap.call?

def Rule.parentReferences (rule : Rule) : List ParentReference :=
  rule.joinReferences ++ rule.calls.flatMap FunctionCall.parentReferences

end RdfMapping
