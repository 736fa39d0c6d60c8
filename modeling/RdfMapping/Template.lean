import RdfMapping.Error
import RdfMapping.Text.Percent
/-!
String templates. A template is literal text with placeholders in braces, each
naming a selector. A backslash takes the next character literally, inside a
placeholder as well as outside. An unescaped closing brace outside a placeholder is
literal text.

A template expands to one string for every choice of one value for each
placeholder, the first placeholder varying slowest.
-/

namespace RdfMapping

inductive Segment where
  | literal (text : String)
  | reference (selector : String)
  deriving DecidableEq, Repr

structure Template where
  source : String
  segments : List Segment
  deriving DecidableEq, Repr

namespace Template

/-! ### Reading -/

inductive Fault where
  /-- The text ends in an unescaped backslash. -/
  | danglingEscape
  /-- An opening brace inside a placeholder. -/
  | nestedBrace
  /-- A placeholder without content. -/
  | emptyPlaceholder
  /-- A placeholder that is still open at the end. -/
  | unclosedBrace
  deriving DecidableEq, Repr

def Fault.detail : Fault → String
  | .danglingEscape => "dangling escape"
  | .nestedBrace => "nested '\x7b'"
  | .emptyPlaceholder => "empty placeholder"
  | .unclosedBrace => "unclosed '\x7b'"

/-- Where a reader of templates stands, with the characters of the current
segment, the last one first. -/
inductive Place where
  | outside (text : List Char)
  | inside (selector : List Char)

def Place.push (c : Char) : Place → Place
  | .outside text => .outside (c :: text)
  | .inside selector => .inside (c :: selector)

/-- The segment of the literal text gathered so far; no text makes no segment. -/
def literalSegment (text : List Char) : List Segment :=
  if text.isEmpty then [] else [.literal (String.ofList text.reverse)]

def readFrom : Place → List Char → Except Fault (List Segment)
  | .outside text, [] => .ok (literalSegment text)
  | .inside _, [] => .error .unclosedBrace
  | _, ['\\'] => .error .danglingEscape
  | place, '\\' :: c :: rest => readFrom (place.push c) rest
  | .outside text, '\x7b' :: rest => do
      let segments ← readFrom (.inside []) rest
      return literalSegment text ++ segments
  | .inside _, '\x7b' :: _ => .error .nestedBrace
  | .outside text, '\x7d' :: rest => readFrom (.outside ('\x7d' :: text)) rest
  | .inside [], '\x7d' :: _ => .error .emptyPlaceholder
  | .inside selector, '\x7d' :: rest => do
      let segments ← readFrom (.outside []) rest
      return .reference (String.ofList selector.reverse) :: segments
  | place, c :: rest => readFrom (place.push c) rest

def read (text : List Char) : Except Fault (List Segment) := readFrom (.outside []) text

def parse (source : String) : Outcome Template :=
  match read source.toList with
  | .ok segments => .ok ⟨source, segments⟩
  | .error fault => .error (.invalidValue "rr:template" (fault.detail ++ " in '" ++ source ++ "'"))

/-! ### Writing -/

def escape (text : List Char) : List Char :=
  text.flatMap fun c =>
    if c = '\\' ∨ c = '\x7b' ∨ c = '\x7d' then ['\\', c] else [c]

def Segment.write : Segment → List Char
  | .literal text => escape text.toList
  | .reference selector => '\x7b' :: escape selector.toList ++ ['\x7d']

def write (segments : List Segment) : List Char := segments.flatMap Segment.write

/-! ### Expansion -/

/-- The strings that `prefixes` grow into when the segments are appended. Once a
placeholder has no value, no further one is looked up. -/
def expandFrom {m : Type → Type} [Monad m] (encode : String → String)
    (values : String → m (List String)) : List String → List Segment → m (List String)
  | prefixes, [] => pure prefixes
  | prefixes, .literal text :: rest =>
      expandFrom encode values (prefixes.map (· ++ text)) rest
  | prefixes, .reference selector :: rest => do
      let substitutions := (← values selector).map encode
      if substitutions.isEmpty then pure []
      else
        expandFrom encode values
          (prefixes.flatMap fun start => substitutions.map (start ++ ·)) rest

/-- The expansions of a template. Values are percent-encoded unless the template
stands for `plain` text. -/
def expand {m : Type → Type} [Monad m] (template : Template) (plain : Bool)
    (values : String → m (List String)) : m (List String) :=
  expandFrom (if plain then id else Text.percentEncode) values [""] template.segments

end Template

end RdfMapping
