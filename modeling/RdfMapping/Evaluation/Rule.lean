import RdfMapping.Evaluation.Call
/-!
The evaluation of one rule. Rows are taken in order. A row gives a record for each
of its subjects, and all of these have the same classes, values and joins. A row
without a subject gives nothing.
-/

namespace RdfMapping

/-- The identifier of a row that has no other: unique by rule and row. -/
def fallbackId (rule : String) (row : Nat) : String :=
  Term.blankId (rule ++ "_" ++ toString (row + 1))

/-- Texts that can be identifiers: neither empty nor with white space in them. -/
def isIdentifier (text : String) : Bool := !text.isEmpty && !text.toList.any Text.isBlank

inductive Resolved where
  | values (values : List ObjectValue)
  | join (parent : Nat) (conditions : List PendingCondition)

structure Draft where
  record : Record
  pending : List PendingJoin

namespace Draft

/-- The draft with a value of a predicate. Values of the type predicate are
classes. -/
def addValue (predicate : String) (draft : Draft) (value : ObjectValue) : Draft :=
  if predicate = Vocabulary.rdfType then
    let types :=
      match value with
      | .reference id => [id]
      | .literal value _ _ => valueTexts value
    { draft with record := types.foldl Record.addType draft.record }
  else { draft with record := draft.record.add predicate value }

def add (predicates : List String) (draft : Draft) : Resolved → Draft
  | .values values =>
      predicates.foldl (fun draft predicate => values.foldl (addValue predicate) draft) draft
  | .join parent conditions =>
      { draft with
        pending := draft.pending ++ predicates.map fun predicate =>
          ⟨predicate, parent, conditions⟩ }

end Draft

section

variable {m : Type → Type} [Monad m] (host : Host m) (scope : RowScope)

/-! ### Subjects -/

def subjectId (termType : TermType) (text : String) : String :=
  if termType = .blankNode then markBlank text else text

/-- The identifiers of a row. A function that gives none leaves the row its
fallback. -/
def subjects (rule : Rule) : m (List String) :=
  let termType := rule.subject.resolvedTermType
  if termType = .literal then
    host.lift (.error (.invalidTermType
      ("subject map of " ++ rule.iri ++ " cannot produce literals")))
  else
    match rule.subject.kind with
    | .reference selector => do
        let texts ← host.lift (scope.strings selector)
        return (texts.filter isIdentifier).map (subjectId termType)
    | .template template => do
        let texts ← host.lift (scope.expand false template)
        return texts.map (subjectId termType)
    | .function call => do
        match valueTexts (unwrapSingle (← invoke host scope call)) with
        | [] => return [fallbackId rule.iri scope.row]
        | texts => return texts.map (subjectId termType)
    | .constant iri => return [subjectId termType iri]
    | .blank => return [fallbackId rule.iri scope.row]

/-! ### Objects -/

/-- The values that a function's result stands for. Where a kind of term is demanded,
an array stands for its elements. -/
def resultValues (options : Options) (object : ObjectMap) (language : Option String) :
    Json → List ObjectValue
  | .null => []
  | .array elements =>
      match object.resolvedTermType with
      | some termType =>
          (elements.filter fun element => !element.isNull).map
            (wrap options (some termType) object.datatype language)
      | none => [wrap options none object.datatype language (.array elements)]
  | value => [wrap options object.resolvedTermType object.datatype language value]

def resolve (object : ObjectMap) : m Resolved := do
  let termType := object.resolvedTermType
  let wrapAll (language : Option String) (values : List Json) : Resolved :=
    .values (values.map (wrap scope.options termType object.datatype language))
  match object.kind with
  | .parent reference =>
      host.lift do
        let parent ← host.position reference.parent
        return .join parent (← scope.pendingConditions reference.conditions)
  | .constant (.iri iri) =>
      return .values [wrap scope.options termType none none (.string iri)]
  | .constant (.literal text datatype language) => do
      let given ← host.lift (scope.language object)
      return .values
        [wrap scope.options termType (object.datatype.or datatype) (given.or language)
          (.string text)]
  | .reference selector =>
      host.lift do
        let language ← scope.language object
        return wrapAll language (← scope.values selector object.datatype)
  | .template template =>
      host.lift do
        let language ← scope.language object
        let texts ← scope.expand (termType = some .literal) template
        return wrapAll language (texts.map Json.string)
  | .function call => do
      let result := unwrapSingle (← invoke host scope call)
      let language ← host.lift (scope.language object)
      return .values (resultValues scope.options object language result)

def addObjects (predicates : List String) (draft : Draft) (objects : List ObjectMap) : m Draft :=
  objects.foldlM
    (fun draft object => return draft.add predicates (← resolve host scope object)) draft

/-- The draft with what a predicate-object map gives. Without a predicate its objects
are not looked at. -/
def extend (draft : Draft) (pom : PredicateObjectMap) : m Draft := do
  let predicates ← host.lift (scope.predicates pom.predicates)
  if predicates.isEmpty then return draft
  else addObjects host scope predicates draft pom.objects

/-! ### Rows -/

/-- The classes of a row: the fixed ones, then those that a function gives. -/
def classes (subject : SubjectMap) : m (List String) :=
  match subject.classFunction with
  | none => return subject.classes
  | some call =>
      return subject.classes ++ valueTexts (unwrapSingle (← invoke host scope call))

/-- The records of a row. `paths` are the selectors by which other rules join with
this one. -/
def evaluateRow (rule : Rule) (paths : List String) : m RuleOutput := do
  let types ← classes host scope rule.subject
  let ids ← subjects host scope rule
  if ids.isEmpty then return []
  else
    let typed := types.foldl Record.addType (Record.ofId "")
    let draft ← rule.predicateObjectMaps.foldlM (extend host scope) ⟨typed, []⟩
    let parentValues ← host.lift (paths.mapM fun path =>
      (scope.values path none).map fun values => (path, values))
    return ids.map fun id =>
      { record := { draft.record with id := id }, parentValues, pending := draft.pending }

end

def evaluateRule {m : Type → Type} [Monad m] (host : Host m) (options : Options) (rows : Rows)
    (rule : Rule) (paths : List String) : m RuleOutput := do
  let outputs ← (List.range rows.count).mapM fun row =>
    evaluateRow host ⟨rows, row, options⟩ rule paths
  return outputs.flatten

end RdfMapping
