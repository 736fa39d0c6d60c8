import RdfMapping.Json.Printer
/-!
Options of a run, and their JSON form. An object gives them by name, and an array
gives them in a fixed order; whatever is left out takes its default.
-/

namespace RdfMapping

structure Options where
  /-- Show a reference to a record as a copy of that record. -/
  replace : Bool := false
  /-- Write triples instead of nested records. -/
  toTriples : Bool := false
  /-- The language of plain text literals. -/
  language : Option String := none
  /-- Namespace declarations to drop from XML texts: attributes with their values. -/
  droppedNamespaces : List (String × String) := []
  /-- What separates the fields of delimited text. -/
  delimiter : Char := ','
  /-- Values that count as absent. -/
  ignoredValues : List String := []
  /-- Whether the empty text counts as absent. -/
  ignoreEmpty : Bool := false
  deriving DecidableEq, Repr

namespace Options

def ignores (options : Options) : Json → Bool
  | .null => true
  | .string text => (options.ignoreEmpty && text.isEmpty) || options.ignoredValues.contains text
  | value => options.ignoredValues.contains value.render

def dropNamespace (options : Options) (name value : String) : Options :=
  { options with droppedNamespaces := Table.insert name value options.droppedNamespaces }

def ignore (options : Options) (value : String) : Options :=
  { options with ignoredValues := options.ignoredValues ++ [value] }

/-! ### JSON form -/

def names : List String :=
  ["replace", "toRDF", "language", "removeNameSpace", "csvDelimiter", "ignoreValues",
   "ignoreEmptyStrings"]

def language? : Json → Option (Option String)
  | .null => some none
  | .string text => some (some text)
  | _ => none

def namespaces? (value : Json) : Option (List (String × String)) := do
  let members ← value.members?
  members.mapM fun entry => entry.2.string?.map (entry.1, ·)

def delimiter? (value : Json) : Option Char := do
  match (← value.string?).toList with
  | [c] => some c
  | _ => none

def texts? (value : Json) : Option (List String) := do (← value.elements?).mapM Json.string?

def set? (options : Options) (name : String) (value : Json) : Option Options :=
  match name with
  | "replace" => value.bool?.map fun replace => { options with replace }
  | "toRDF" => value.bool?.map fun toTriples => { options with toTriples }
  | "language" => (language? value).map fun language => { options with language }
  | "removeNameSpace" =>
      (namespaces? value).map fun droppedNamespaces => { options with droppedNamespaces }
  | "csvDelimiter" => (delimiter? value).map fun delimiter => { options with delimiter }
  | "ignoreValues" => (texts? value).map fun ignoredValues => { options with ignoredValues }
  | "ignoreEmptyStrings" => value.bool?.map fun ignoreEmpty => { options with ignoreEmpty }
  | _ => some options

/-- The options that named JSON values give. Names that are no option are passed
over. -/
def ofMembers? (members : List (String × Json)) : Option Options :=
  members.foldlM (fun options entry => options.set? entry.1 entry.2) {}

def ofJson? : Json → Option Options
  | .null => some {}
  | .object members => ofMembers? members
  | .array elements =>
      if elements.length ≤ names.length then ofMembers? (names.zip elements) else none
  | _ => none

def toJson (options : Options) : Json :=
  .ofMembers
    [("replace", .bool options.replace),
     ("toRDF", .bool options.toTriples),
     ("language", (options.language.map Json.string).getD .null),
     ("removeNameSpace",
       .ofMembers (options.droppedNamespaces.map fun entry => (entry.1, .string entry.2))),
     ("csvDelimiter", .string (String.singleton options.delimiter)),
     ("ignoreValues", .array (options.ignoredValues.map Json.string)),
     ("ignoreEmptyStrings", .bool options.ignoreEmpty)]

end Options

end RdfMapping
