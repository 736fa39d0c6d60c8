import RdfMapping.Evaluation.Output
import RdfMapping.LanguageTag
import RdfMapping.Source.Rows
/-!
What a rule reads from one row: values of selectors, expansions of templates,
predicates, languages and the conditions of joins. Values that the options tell to
ignore are not seen.
-/

namespace RdfMapping

structure RowScope where
  rows : Rows
  row : Nat
  options : Options

namespace RowScope

variable (scope : RowScope)

def values (selector : String) (datatype : Option String) : Outcome (List Json) :=
  (scope.rows.valuesAt scope.row selector datatype).map fun values =>
    values.filter fun value => !scope.options.ignores value

def strings (selector : String) : Outcome (List String) :=
  (scope.values selector none).map (·.map Json.lexical)

def expand (plain : Bool) (template : Template) : Outcome (List String) :=
  template.expand plain scope.strings

def texts (plain : Bool) : TextMap → Outcome (List String)
  | .constant text => .ok [text]
  | .reference selector => scope.strings selector
  | .template template => scope.expand plain template

def predicates (maps : List TextMap) : Outcome (List String) :=
  (maps.mapM (scope.texts false)).map List.flatten

/-- The tag that a language map gives: the first of its texts. -/
def mappedLanguage : Option TextMap → Outcome (Option String)
  | none => .ok none
  | some map => (scope.texts true map).map List.head?

/-- The language of an object map, which must be a language tag. A tag that the row
gives precedes the fixed one. -/
def language (object : ObjectMap) : Outcome (Option String) := do
  match (← scope.mappedLanguage object.languageMap).or object.language with
  | none => return none
  | some tag => do
      LanguageTag.check tag
      return some tag

def pendingConditions (conditions : List JoinCondition) : Outcome (List PendingCondition) :=
  conditions.mapM fun condition =>
    (scope.values condition.child none).map fun values => ⟨condition.parent, values⟩

end RowScope

/-! ### Values of records -/

/-- An identifier of a blank node: the mark is put in front of a text that does not
begin with it. -/
def markBlank (id : String) : String :=
  if Term.blankMark.toList.isPrefixOf id.toList then id else Term.blankMark ++ id

/-- The language of a literal: a text without annotations takes that of the run. -/
def literalLanguage (options : Options) (datatype language : Option String) : Json → Option String
  | .string _ => if datatype.isNone && language.isNone then options.language else language
  | _ => language

/-- A value as the kind of term that is wanted; without a wish it is a literal. -/
def wrap (options : Options) (termType : Option TermType) (datatype language : Option String)
    (value : Json) : ObjectValue :=
  match termType with
  | some .iri => .reference value.lexical
  | some .blankNode => .reference (markBlank value.lexical)
  | some .literal | none =>
      .literal value datatype (literalLanguage options datatype language value)

def unwrapSingle : Json → Json
  | .array [value] => value
  | value => value

/-- The texts of a value: an array has those of its elements, and null has none. -/
def valueTexts : Json → List String
  | .null => []
  | .array elements => (elements.filter fun element => !element.isNull).map Json.lexical
  | value => [value.lexical]

end RdfMapping
