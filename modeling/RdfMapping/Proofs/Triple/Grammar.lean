import Mathlib.Data.List.Forall2
import RdfMapping.Json.Parser
import RdfMapping.LanguageTag
import RdfMapping.Record.Triples
/-!
The grammar of N-Triples. A document is read line by line; a line is a subject, a
predicate, an object and a full stop, with blanks between them and a comment at the end.
Characters of IRIs and strings may be escaped by their numbers, those of strings by name
as well. A line is read in one way at most.
-/

namespace RdfMapping.NTriples

/-! ### Characters -/

def isEndOfLine (c : Char) : Bool := c == '\n' || c == '\r'

def isBlank (c : Char) : Bool := c == ' ' || c == '\t'

def isIriChar (c : Char) : Bool :=
  0x20 < c.toNat && !"<>\"\x7b\x7d|^`\\".toList.contains c

def isStringChar (c : Char) : Bool := c != '"' && c != '\\' && !isEndOfLine c

def namedEscape? : Char → Option Char
  | 't' => some '\t'
  | 'b' => some '\x08'
  | 'n' => some '\n'
  | 'r' => some '\r'
  | 'f' => some '\x0c'
  | '"' => some '"'
  | '\'' => some '\''
  | '\\' => some '\\'
  | _ => none

def hexNumber? (digits : List Char) : Option Nat :=
  digits.foldlM (fun number digit => (Json.hexValue? digit).map (number * 16 + ·)) 0

/-- The code points with which a name may begin, both ends of each range included. -/
def nameStartRanges : List (Nat × Nat) :=
  [(0x3A, 0x3A), (0x41, 0x5A), (0x5F, 0x5F), (0x61, 0x7A), (0xC0, 0xD6), (0xD8, 0xF6),
   (0xF8, 0x2FF), (0x370, 0x37D), (0x37F, 0x1FFF), (0x200C, 0x200D), (0x2070, 0x218F),
   (0x2C00, 0x2FEF), (0x3001, 0xD7FF), (0xF900, 0xFDCF), (0xFDF0, 0xFFFD),
   (0x10000, 0xEFFFF)]

/-- The code points that may stand in a name besides those. -/
def nameOtherRanges : List (Nat × Nat) :=
  [(0x2D, 0x2D), (0x30, 0x39), (0xB7, 0xB7), (0x300, 0x36F), (0x203F, 0x2040)]

def isIn (ranges : List (Nat × Nat)) (c : Char) : Bool :=
  ranges.any fun range => range.1 ≤ c.toNat && c.toNat ≤ range.2

def isNameChar (c : Char) : Bool := isIn nameStartRanges c || isIn nameOtherRanges c

def isLabelStart (c : Char) : Bool := isIn nameStartRanges c || c.isDigit

def isLabelChar (c : Char) : Bool := isNameChar c || c == '.'

/-- A label of a blank node: it begins with a digit or as a name does, and does not end in
a full stop. -/
def isLabel : List Char → Bool
  | [] => false
  | first :: rest =>
      isLabelStart first && rest.all isLabelChar && rest.getLast? != some '.'

def isSubtag (subtag : List Char) : Bool := !subtag.isEmpty && subtag.all Char.isAlphanum

/-- A language tag: letters, then subtags of letters and digits behind hyphens. -/
def isTag (tag : List Char) : Bool :=
  match tag.splitOn '-' with
  | [] => false
  | first :: rest => !first.isEmpty && first.all Char.isAlpha && rest.all isSubtag

/-! ### Quoted texts -/

/-- How characters are written up to a closing mark. -/
structure Quoting where
  plain : Char → Bool
  named : Char → Option Char
  closing : Char
  backslash : plain '\\' = false
  unnamed : named 'u' = none ∧ named 'U' = none
  unquoted : plain closing = false
  apart : '\\' ≠ closing

def iriQuoting : Quoting where
  plain := isIriChar
  named := fun _ => none
  closing := '>'
  backslash := by decide
  unnamed := ⟨rfl, rfl⟩
  unquoted := by decide
  apart := by decide

def stringQuoting : Quoting where
  plain := isStringChar
  named := namedEscape?
  closing := '"'
  backslash := by decide
  unnamed := ⟨rfl, rfl⟩
  unquoted := by decide
  apart := by decide

namespace Quoting

variable (quoting : Quoting)

/-- What follows a backslash to stand for one character. -/
inductive Escape : List Char → Char → Prop
  | named {name c : Char} (known : quoting.named name = some c) : Escape [name] c
  | short {digits : List Char} {c : Char} (length : digits.length = 4)
      (number : hexNumber? digits = some c.toNat) : Escape ('u' :: digits) c
  | long {digits : List Char} {c : Char} (length : digits.length = 8)
      (number : hexNumber? digits = some c.toNat) : Escape ('U' :: digits) c

/-- A text that stands for one character. -/
inductive Writes : List Char → Char → Prop
  | plain {c : Char} (isPlain : quoting.plain c = true) : Writes [c] c
  | escaped {text : List Char} {c : Char} (escape : quoting.Escape text c) :
      Writes ('\\' :: text) c

inductive Body : List Char → List Char → Prop
  | nil : Body [] []
  | cons {text rest value : List Char} {c : Char} (first : quoting.Writes text c)
      (later : Body rest value) : Body (text ++ rest) (c :: value)

end Quoting

/-! ### Terms -/

inductive IriText : List Char → String → Prop
  | mk {text : List Char} {iri : String} (body : iriQuoting.Body text iri.toList) :
      IriText ('<' :: (text ++ ['>'])) iri

inductive ResourceText : List Char → Term → Prop
  | iri {text : List Char} {iri : String} (given : IriText text iri) :
      ResourceText text (.iri iri)
  | blank {label : String} (isLabel : isLabel label.toList = true) :
      ResourceText ('_' :: ':' :: label.toList) (.blank label)

def Blanks (text : List Char) : Prop := ∀ c ∈ text, isBlank c = true

def Spaced {α : Type} (reads : List Char → α → Prop) (text : List Char) (value : α) : Prop :=
  ∃ blanks token, Blanks blanks ∧ reads token value ∧ text = blanks ++ token

/-- The literals of a string, by what follows its closing quote. A string without more is of
the datatype of strings. -/
inductive SuffixText (value : String) : List Char → Term → Prop
  | none : SuffixText value [] (.typed value Vocabulary.xsdString)
  | typed {blanks text : List Char} {datatype : String} (spaced : Blanks blanks)
      (given : Spaced IriText text datatype) :
      SuffixText value (blanks ++ '^' :: '^' :: text) (.typed value datatype)
  | inLanguage {blanks : List Char} {tag : String} (spaced : Blanks blanks)
      (isTag : isTag tag.toList = true) :
      SuffixText value (blanks ++ '@' :: tag.toList) (.inLanguage value tag)

inductive ObjectText : List Char → Term → Prop
  | resource {text : List Char} {term : Term} (given : ResourceText text term) :
      ObjectText text term
  | literal {text suffix : List Char} {value : String} {term : Term}
      (body : stringQuoting.Body text value.toList) (given : SuffixText value suffix term) :
      ObjectText ('"' :: (text ++ '"' :: suffix)) term

/-- The full stop at the end of a line, and a comment. -/
def EndText (text : List Char) : Prop :=
  ∃ before after comment, Blanks before ∧ Blanks after ∧
    (comment = [] ∨ comment.head? = some '#') ∧ text = before ++ '.' :: (after ++ comment)

def Line (text : List Char) (triple : Triple) : Prop :=
  ∃ subject predicate object ending iri,
    Spaced ResourceText subject triple.subject ∧ Spaced IriText predicate iri ∧
      triple.predicate = .iri iri ∧ Spaced ObjectText object triple.object ∧ EndText ending ∧
      text = subject ++ (predicate ++ (object ++ ending))

def lines (text : List Char) : List (List Char) :=
  (text.splitOnP isEndOfLine).filter fun line => !line.isEmpty

def Document (text : String) (triples : List Triple) : Prop :=
  List.Forall₂ Line (lines text.toList) triples

end RdfMapping.NTriples
