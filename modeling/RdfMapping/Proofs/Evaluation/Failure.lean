import RdfMapping.Evaluation.Call
import RdfMapping.Proofs.Outcome
import RdfMapping.Source.Cache
/-!
The errors of what a rule reads. A row fails with a selector or a language tag that is
none, a call with its function; a document fails with its source or its iterator.
-/

namespace RdfMapping

namespace MappingError

def IsLocal : MappingError → Prop
  | .invalidSelector .. | .invalidLanguageTag _ | .function _ => True
  | _ => False

def IsSource : MappingError → Prop
  | .missingSource _ | .source .. | .invalidSelector .. => True
  | _ => False

end MappingError

open MappingError Outcome

/-! ### Expressions -/

theorem JsonPath.parse_failsWithin {admitted : MappingError → Prop}
    (selectors : ∀ text detail, admitted (.invalidSelector text detail)) (text : String) :
    FailsWithin admitted (JsonPath.parse text) := by
  unfold JsonPath.parse
  split
  · exact failsWithin_ok _
  · exact failsWithin_error (selectors _ _)

theorem XPath.parse_failsWithin {admitted : MappingError → Prop}
    (selectors : ∀ text detail, admitted (.invalidSelector text detail)) (text : String) :
    FailsWithin admitted (XPath.parse text) := by
  unfold XPath.parse
  split
  · exact failsWithin_ok _
  · exact failsWithin_error (selectors _ _)

theorem LanguageTag.check_local (tag : String) : FailsWithin IsLocal (LanguageTag.check tag) := by
  unfold LanguageTag.check
  split
  · exact failsWithin_ok _
  · exact failsWithin_error trivial

theorem Template.expand_failsWithin {admitted : MappingError → Prop}
    {values : String → Outcome (List String)}
    (each : ∀ selector, FailsWithin admitted (values selector)) (template : Template)
    (plain : Bool) : FailsWithin admitted (template.expand plain values) := by
  have general (encode : String → String) (segments : List Segment) (prefixes : List String) :
      FailsWithin admitted (expandFrom encode values prefixes segments) := by
    induction segments generalizing prefixes with
    | nil => exact failsWithin_ok prefixes
    | cons segment rest ih =>
        cases segment with
        | literal text => exact ih _
        | reference selector =>
            apply (each selector).bind
            intro found
            dsimp only
            split
            · exact failsWithin_ok []
            · exact ih _
  exact general _ _ _

/-! ### Rows -/

theorem Rows.valuesAt_local (rows : Rows) (row : Nat) (selector : String)
    (datatype : Option String) : FailsWithin IsLocal (rows.valuesAt row selector datatype) := by
  unfold Rows.valuesAt
  cases rows with
  | csv table => exact failsWithin_ok _
  | json hits =>
      dsimp only
      cases hits[row]? with
      | none => exact failsWithin_ok []
      | some hit => exact (JsonPath.parse_failsWithin (fun _ _ => trivial) _).map _
  | xml document elements =>
      dsimp only
      cases elements[row]? with
      | none => exact failsWithin_ok []
      | some element => exact (XPath.parse_failsWithin (fun _ _ => trivial) _).map _

namespace RowScope

variable (scope : RowScope)

theorem values_local (selector : String) (datatype : Option String) :
    FailsWithin IsLocal (scope.values selector datatype) :=
  (scope.rows.valuesAt_local scope.row selector datatype).map _

theorem strings_local (selector : String) : FailsWithin IsLocal (scope.strings selector) :=
  (scope.values_local selector none).map _

theorem expand_local (plain : Bool) (template : Template) :
    FailsWithin IsLocal (scope.expand plain template) :=
  Template.expand_failsWithin scope.strings_local template plain

theorem texts_local (plain : Bool) (map : TextMap) :
    FailsWithin IsLocal (scope.texts plain map) := by
  cases map with
  | constant text => exact failsWithin_ok [text]
  | reference selector => exact scope.strings_local selector
  | template template => exact scope.expand_local plain template

theorem predicates_local (maps : List TextMap) : FailsWithin IsLocal (scope.predicates maps) :=
  (failsWithin_mapM (scope.texts_local false) maps).map _

theorem language_local (object : ObjectMap) : FailsWithin IsLocal (scope.language object) := by
  have mapped : FailsWithin IsLocal (scope.mappedLanguage object.languageMap) := by
    cases object.languageMap with
    | none => exact failsWithin_ok none
    | some map => exact (scope.texts_local true map).map _
  apply mapped.bind
  intro given
  cases given.or object.language with
  | none => exact failsWithin_ok none
  | some tag => exact (LanguageTag.check_local tag).bind fun _ => failsWithin_ok (some tag)

theorem pendingConditions_local (conditions : List JoinCondition) :
    FailsWithin IsLocal (scope.pendingConditions conditions) := by
  apply failsWithin_mapM
  intro condition
  exact (scope.values_local condition.child none).map _

end RowScope

theorem FunctionCall.executed_local (call : String) (members : List PredicateObjectMap) :
    FailsWithin IsLocal (FunctionCall.executed call members) := by
  have named (object : ObjectMap) : FailsWithin IsLocal (functionIri call object) := by
    unfold functionIri
    split
    · exact failsWithin_ok _
    · exact failsWithin_error trivial
  apply (failsWithin_mapM named _).bind
  intro iris
  split
  · exact failsWithin_error trivial
  · exact failsWithin_ok _
  · exact failsWithin_error trivial

/-! ### Sources -/

theorem Document.parse_failsWithin {admitted : MappingError → Prop}
    (sources : ∀ id fault, admitted (.source id fault)) (id content : String)
    (formulation : Formulation) (options : Options) :
    FailsWithin admitted (Document.parse id content formulation options) := by
  unfold Document.parse
  cases formulation with
  | csv =>
      apply FailsWithin.map
      unfold Csv.Table.parse
      split
      · exact failsWithin_ok _
      · exact failsWithin_error (sources _ _)
  | jsonPath =>
      dsimp only
      split
      · exact failsWithin_ok _
      · exact failsWithin_error (sources _ _)
  | xPath =>
      apply FailsWithin.map
      unfold Xml.Document.parse
      split
      · exact failsWithin_ok _
      · exact failsWithin_error (sources _ _)

theorem Rows.ofDocument_failsWithin {admitted : MappingError → Prop}
    (selectors : ∀ text detail, admitted (.invalidSelector text detail))
    (iterator : Option String) (document : Document) :
    FailsWithin admitted (Rows.ofDocument iterator document) := by
  cases document with
  | csv table => exact failsWithin_ok _
  | json root => exact (JsonPath.parse_failsWithin selectors _).bind fun _ => failsWithin_ok _
  | xml document => exact (XPath.parse_failsWithin selectors _).bind fun _ => failsWithin_ok _

theorem Cache.openRows_source (cache : Cache) (source : LogicalSource) (content : Option String)
    (options : Options) : FailsWithin IsSource (cache.openRows source content options).1 := by
  have read : FailsWithin IsSource (cache.read source content options).1 := by
    unfold Cache.read
    split
    · exact failsWithin_ok _
    · split
      · exact failsWithin_error trivial
      · next text =>
          have parsed : FailsWithin IsSource
              (Document.parse source.id text source.formulation options) :=
            Document.parse_failsWithin (fun _ _ => trivial) _ _ _ _
          split
          · exact failsWithin_ok _
          · next e failed => exact failsWithin_error (parsed e failed)
  exact read.bind (Rows.ofDocument_failsWithin (fun _ _ => trivial) source.iterator)

end RdfMapping
