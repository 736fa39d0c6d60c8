import RdfMapping.Text.Numeral
import RdfMapping.Xml.Document
/-!
Paths into XML documents. A path is a list of steps, taken from the document if it
begins with a slash and from a context element otherwise. A step goes to the
children of an element, or to those of all elements at or below it, tests what it
finds, and filters it by position or by the value of an attribute. What a step
reaches twice is selected once.
-/

namespace RdfMapping

namespace XPath

inductive Axis where
  | child
  | descendant
  deriving DecidableEq, Repr

/-- What a step looks for at an element; without a name, any name will do. -/
inductive Test where
  | element (name : Option String)
  | attribute (name : Option String)
  | text
  | self
  | parent
  deriving DecidableEq, Repr

inductive Filter where
  /-- The node at a position, counted from 1. -/
  | position (position : Nat)
  /-- The elements with an attribute of a name and a value. -/
  | attribute (name value : String)
  deriving DecidableEq, Repr

structure Step where
  axis : Axis
  test : Test
  filters : List Filter
  deriving DecidableEq, Repr

end XPath

structure XPath where
  absolute : Bool
  steps : List XPath.Step
  deriving DecidableEq, Repr

namespace XPath

/-! ### Reading -/

inductive Fault where
  | emptyExpression
  | emptyStep
  | unsupportedStep (step : String)
  | unclosedBracket
  | zeroPosition
  | unsupportedFilter (content : String)
  | unexpected (rest : String)
  | trailingSlash
  deriving DecidableEq, Repr

def Fault.detail : Fault → String
  | .emptyExpression => "empty expression"
  | .emptyStep => "empty step"
  | .unsupportedStep step => "unsupported step '" ++ step ++ "'"
  | .unclosedBracket => "unclosed '['"
  | .zeroPosition => "positions start at 1"
  | .unsupportedFilter content => "unsupported predicate '[" ++ content ++ "]'"
  | .unexpected rest => "unexpected '" ++ rest ++ "'"
  | .trailingSlash => "trailing '/'"

/-- The text up to the first slash outside quotes and brackets, and the rest from
that slash on. `depth` counts the open brackets, and `quote` is the open quote. -/
def cutStep : (depth : Nat) → (quote : Option Char) → List Char → List Char × List Char
  | _, _, [] => ([], [])
  | depth, some mark, c :: rest =>
      let parts := cutStep depth (if c = mark then none else some mark) rest
      (c :: parts.1, parts.2)
  | depth, none, c :: rest =>
      if c = '/' ∧ depth = 0 then ([], c :: rest)
      else
        let parts :=
          if c = '\'' ∨ c = '"' then cutStep depth (some c) rest
          else if c = '[' then cutStep (depth + 1) none rest
          else if c = ']' then cutStep (depth - 1) none rest
          else cutStep depth none rest
        (c :: parts.1, parts.2)

theorem append_cutStep (depth : Nat) (quote : Option Char) (text : List Char) :
    (cutStep depth quote text).1 ++ (cutStep depth quote text).2 = text := by
  fun_induction cutStep depth quote text with
  | case1 => rfl
  | case2 depth mark c rest parts ih => exact congrArg (c :: ·) ih
  | case3 => rfl
  | case4 depth c rest _ parts ih ih' ih'' ih''' =>
      apply congrArg (c :: ·)
      show parts.1 ++ parts.2 = rest
      unfold parts
      split
      · assumption
      · split
        · assumption
        · split
          · assumption
          · assumption

def readTest (head : List Char) : Except Fault Test :=
  match head with
  | [] => .error .emptyStep
  | ['.'] => .ok .self
  | ['.', '.'] => .ok .parent
  | ['*'] => .ok (.element none)
  | ['@', '*'] => .ok (.attribute none)
  | '@' :: name => .ok (.attribute (some (String.ofList name)))
  | name =>
      if name = "text()".toList then .ok .text
      else if name.any fun c => c == '(' || c == ')' || c == '=' || c == ' ' then
        .error (.unsupportedStep (String.ofList name))
      else .ok (.element (some (String.ofList name)))

def attributeFilter? (content : List Char) : Option Filter := do
  let (left, right) ← Text.cutAt? ['='] content
  let name ← Text.dropStart? ['@'] (Text.trim Text.isBlank left)
  let quoted := Text.trim Text.isBlank right
  let value ← (Text.unquote? '\'' quoted).or (Text.unquote? '"' quoted)
  some (.attribute (String.ofList name) (String.ofList value))

def readFilter (content : List Char) : Except Fault Filter :=
  match Text.index? content with
  | some 0 => .error .zeroPosition
  | some position => .ok (.position position)
  | none =>
      match attributeFilter? content with
      | some filter => .ok filter
      | none => .error (.unsupportedFilter (String.ofList content))

/-- The filters at the end of a step. The first closing bracket closes, even in
quotes. -/
def readFilters (text : List Char) : Except Fault (List Filter) :=
  match text with
  | [] => .ok []
  | '[' :: rest =>
      match _found : Text.cutAt? [']'] rest with
      | none => .error .unclosedBracket
      | some (content, after) => do
          let filter ← readFilter (Text.trim Text.isBlank content)
          let filters ← readFilters after
          return filter :: filters
  | rest => .error (.unexpected (String.ofList rest))
termination_by text.length
decreasing_by
  have whole := Text.eq_of_cutAt? _found
  simp [whole]
  omega

def readStep (axis : Axis) (text : List Char) : Except Fault Step := do
  let test ← readTest (text.takeWhile (· != '['))
  let filters ← readFilters (text.dropWhile (· != '['))
  return ⟨axis, test, filters⟩

/-- The axis of a step that follows a slash: a second slash makes it a descendant
step. -/
def takeAxis : List Char → Axis × List Char
  | '/' :: rest => (.descendant, rest)
  | rest => (.child, rest)

theorem length_takeAxis_le (text : List Char) : (takeAxis text).2.length ≤ text.length := by
  fun_cases takeAxis text with
  | case1 rest => simp
  | case2 => exact Nat.le_refl _

def readSteps (axis : Axis) (text : List Char) : Except Fault (List Step) := do
  let step ← readStep axis (cutStep 0 none text).1
  match _cut : (cutStep 0 none text).2 with
  | [] => return [step]
  | _slash :: after =>
      if (takeAxis after).2.isEmpty then .error .trailingSlash
      else do
        let steps ← readSteps (takeAxis after).1 (takeAxis after).2
        return step :: steps
termination_by text.length
decreasing_by
  have whole := congrArg List.length (append_cutStep 0 none text)
  have shorter := length_takeAxis_le after
  rw [List.length_append, _cut, List.length_cons] at whole
  omega

def read (text : List Char) : Except Fault XPath :=
  match text with
  | [] => .error .emptyExpression
  | '/' :: rest =>
      if (takeAxis rest).2.isEmpty then .ok ⟨true, []⟩
      else (readSteps (takeAxis rest).1 (takeAxis rest).2).map (⟨true, ·⟩)
  | _ => (readSteps .child text).map (⟨false, ·⟩)

def parse (text : String) : Outcome XPath :=
  match read (Text.trim Text.isBlank text.toList) with
  | .ok path => .ok path
  | .error fault => .error (.invalidSelector text fault.detail)

/-! ### Evaluation -/

/-- A node of a document: an element, an attribute of it, or the character data
that stands directly in it. -/
inductive Hit where
  | element (index : Nat)
  | attribute (index : Nat) (name value : String)
  | text (index : Nat)
  deriving DecidableEq, Repr

namespace Hit

def owner : Hit → Nat
  | .element index => index
  | .attribute index _ _ => index
  | .text index => index

def path (document : Xml.Document) : Hit → String
  | .element index => document.path index
  | .attribute index name _ => document.path index ++ "/@" ++ name
  | .text index => document.path index ++ "/text()"

def value (document : Xml.Document) : Hit → String
  | .element index => document.stringValue index
  | .attribute _ _ value => value
  | .text index => document.text index

end Hit

def Axis.origins (document : Xml.Document) (index : Nat) : Axis → List Nat
  | .child => [index]
  | .descendant => document.selfAndDescendants index

def admits (wanted : Option String) (name : String) : Bool :=
  match wanted with
  | some expected => name = expected
  | none => true

def Test.find (document : Xml.Document) (index : Nat) : Test → List Hit
  | .element wanted =>
      ((document.children index).filter (admits wanted <| document.name ·)).map .element
  | .attribute wanted =>
      ((document.attributes index).filter (admits wanted ·.1)).map fun entry =>
        .attribute index entry.1 entry.2
  | .text => if (document.text index).isEmpty then [] else [.text index]
  | .self => [.element index]
  | .parent =>
      (((document.element? index).bind Xml.Element.parent).map Hit.element).toList

def Filter.apply (document : Xml.Document) (hits : List Hit) : Filter → List Hit
  | .position count => (hits[count - 1]?).toList
  | .attribute name value =>
      hits.filter fun
        | .element index => document.attribute? index name = some value
        | _ => false

def Step.selectAt (document : Xml.Document) (step : Step) (index : Nat) : List Hit :=
  step.filters.foldl (Filter.apply document) (step.test.find document index)

def Step.selectFrom (document : Xml.Document) (step : Step) : Hit → List Hit
  | .element index => (step.axis.origins document index).flatMap (step.selectAt document)
  | _ => []

/-- What a step selects from nodes, each node once. -/
def Step.select (document : Xml.Document) (hits : List Hit) (step : Step) : List Hit :=
  (hits.flatMap (step.selectFrom document)).eraseDups

def select (path : XPath) (document : Xml.Document) (context : Nat) : List Hit :=
  path.steps.foldl (Step.select document) [.element (if path.absolute then 0 else context)]

end XPath

end RdfMapping
