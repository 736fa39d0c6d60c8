import RdfMapping.Error
import RdfMapping.Json.Basic
import RdfMapping.Text.Blank
import RdfMapping.Text.Numeral
import RdfMapping.Text.Search
/-!
Paths into JSON values. An expression is a list of steps; evaluated on a value it
selects nodes, each with its location, in document order. A location is a chain of
member names and array positions, and is written as an expression in turn.
-/

namespace RdfMapping

/-! ### Locations -/

inductive JsonKey where
  | member (name : String)
  | index (position : Nat)
  deriving DecidableEq, Repr

abbrev JsonLocation := List JsonKey

/-- Characters that a member name may consist of to be written after a dot. -/
def JsonKey.isPlainChar (c : Char) : Bool := c.isAlphanum || c == '_' || c == '-'

/-- A link as it is written. A name that is not plain stands in brackets and
quotes, with its own quotes escaped by backslashes. -/
def JsonKey.render : JsonKey → String
  | .member name =>
      if !name.isEmpty && name.toList.all isPlainChar then "." ++ name
      else
        "['" ++ String.ofList (Text.replaceAll ['\''] ['\\', '\''] name.toList) ++ "']"
  | .index position => "[" ++ toString position ++ "]"

def JsonLocation.render (root : String) (location : JsonLocation) : String :=
  location.foldl (fun text key => text ++ key.render) root

/-! ### Expressions -/

inductive JsonStep where
  /-- The member of an object with a name. -/
  | field (name : String)
  /-- An element of an array; negative positions count from its end. -/
  | index (position : Int)
  /-- All members or elements. -/
  | wildcard
  /-- All members with a name, at any depth. -/
  | descendant (name : String)
  /-- All nodes below. -/
  | descendantWildcard
  deriving DecidableEq, Repr

structure JsonPath where
  steps : List JsonStep
  deriving DecidableEq, Repr

namespace JsonPath

inductive Fault where
  | missingDescendantName
  | missingName
  | unclosedBracket
  | unsupportedBracket
  | unexpected (c : Char)
  deriving DecidableEq, Repr

def Fault.detail : Fault → String
  | .missingDescendantName => "expected a name after '..'"
  | .missingName => "expected a name after '.'"
  | .unclosedBracket => "unclosed '['"
  | .unsupportedBracket => "unsupported bracket expression"
  | .unexpected c => "unexpected character '" ++ String.singleton c ++ "'"

def isNameChar (c : Char) : Bool := c != '.' && c != '['

def nameStep (name : List Char) : JsonStep :=
  if name = ['*'] then .wildcard else .field (String.ofList name)

def descendantStep (name : List Char) : JsonStep :=
  if name = ['*'] then .descendantWildcard else .descendant (String.ofList name)

def bracketStep? (content : List Char) : Option JsonStep :=
  if content = ['*'] then some .wildcard
  else
    match (Text.unquote? '\'' content).or (Text.unquote? '"' content) with
    | some name => some (.field (String.ofList name))
    | none => (Text.integer? content).map .index

def readSteps (text : List Char) : Except Fault (List JsonStep) :=
  match text with
  | [] => .ok []
  | '.' :: '.' :: rest =>
      let name := rest.takeWhile isNameChar
      if name.isEmpty then .error .missingDescendantName
      else do
        let steps ← readSteps (rest.dropWhile isNameChar)
        return descendantStep name :: steps
  | '.' :: rest =>
      let name := rest.takeWhile isNameChar
      if name.isEmpty then .error .missingName
      else do
        let steps ← readSteps (rest.dropWhile isNameChar)
        return nameStep name :: steps
  | '[' :: rest =>
      match _found : Text.cutAt? [']'] rest with
      | none => .error .unclosedBracket
      | some (content, after) =>
          match bracketStep? (Text.trim Text.isBlank content) with
          | none => .error .unsupportedBracket
          | some step => do
              let steps ← readSteps after
              return step :: steps
  | c :: _ => .error (.unexpected c)
termination_by text.length
decreasing_by
  · have shorter := (List.dropWhile_suffix isNameChar (l := rest)).length_le
    simp
    omega
  · have shorter := (List.dropWhile_suffix isNameChar (l := rest)).length_le
    simp
    omega
  · have whole := Text.eq_of_cutAt? _found
    simp [whole]
    omega

/-- The steps of a whole expression, blanks at its ends removed. The root mark may
be left out, and the dot before a first name as well. -/
def read (text : List Char) : Except Fault (List JsonStep) :=
  match text with
  | [] => .ok []
  | c :: rest =>
      if c = '$' ∨ c = '@' then readSteps rest
      else if c = '.' ∨ c = '[' then readSteps text
      else do
        let steps ← readSteps (text.dropWhile isNameChar)
        return nameStep (text.takeWhile isNameChar) :: steps

def parse (text : String) : Outcome JsonPath :=
  match read (Text.trim Text.isBlank text.toList) with
  | .ok steps => .ok ⟨steps⟩
  | .error fault => .error (.invalidSelector text fault.detail)

end JsonPath

/-! ### Evaluation -/

abbrev JsonHit := JsonLocation × Json

namespace JsonHit

def elementsFrom (location : JsonLocation) : Nat → List Json → List JsonHit
  | _, [] => []
  | position, element :: rest =>
      (location ++ [.index position], element) :: elementsFrom location (position + 1) rest

def children (hit : JsonHit) : List JsonHit :=
  match hit.2 with
  | .object members => members.map fun entry => (hit.1 ++ [.member entry.1], entry.2)
  | .array elements => elementsFrom hit.1 0 elements
  | _ => []

mutual

def selfAndDescendants (location : JsonLocation) : Json → List JsonHit
  | .array elements =>
      (location, .array elements) :: descendantsOfElements location 0 elements
  | .object members =>
      (location, .object members) :: descendantsOfMembers location members
  | value => [(location, value)]

def descendantsOfElements (location : JsonLocation) : Nat → List Json → List JsonHit
  | _, [] => []
  | position, element :: rest =>
      selfAndDescendants (location ++ [.index position]) element ++
        descendantsOfElements location (position + 1) rest

def descendantsOfMembers (location : JsonLocation) : List (String × Json) → List JsonHit
  | [] => []
  | (name, value) :: rest =>
      selfAndDescendants (location ++ [.member name]) value ++
        descendantsOfMembers location rest

end

def field (name : String) (hit : JsonHit) : List JsonHit :=
  match hit.2.member? name with
  | some value => [(hit.1 ++ [.member name], value)]
  | none => []

/-- The position that a possibly negative one stands for, in an array of a
length. -/
def resolveIndex? (position : Int) (length : Nat) : Option Nat :=
  let resolved := if position < 0 then length + position else position
  if 0 ≤ resolved ∧ resolved < length then some resolved.toNat else none

def element (position : Int) (hit : JsonHit) : List JsonHit :=
  match hit.2 with
  | .array elements =>
      match resolveIndex? position elements.length with
      | some index =>
          (elements[index]?.map fun value => (hit.1 ++ [JsonKey.index index], value)).toList
      | none => []
  | _ => []

def step (hit : JsonHit) : JsonStep → List JsonHit
  | .field name => hit.field name
  | .index position => hit.element position
  | .wildcard => hit.children
  | .descendant name => (selfAndDescendants hit.1 hit.2).flatMap (field name)
  | .descendantWildcard => (selfAndDescendants hit.1 hit.2).flatMap children

end JsonHit

def JsonPath.selectFrom (path : JsonPath) (hit : JsonHit) : List JsonHit :=
  path.steps.foldl (fun hits step => hits.flatMap fun h => JsonHit.step h step) [hit]

def JsonPath.select (path : JsonPath) (root : Json) : List JsonHit := path.selectFrom ([], root)

end RdfMapping
