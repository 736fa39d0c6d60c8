/-!
White space as Unicode's White_Space property has it, and cutting it off the
ends of a text. The ASCII blanks of XML are a smaller class of their own, and the
byte order mark is no blank at all.
-/

namespace RdfMapping.Text

/-- The code point ranges of the White_Space property, both ends included. -/
def blankRanges : List (Nat × Nat) :=
  [(0x9, 0xD), (0x20, 0x20), (0x85, 0x85), (0xA0, 0xA0), (0x1680, 0x1680),
   (0x2000, 0x200A), (0x2028, 0x2029), (0x202F, 0x202F), (0x205F, 0x205F),
   (0x3000, 0x3000)]

def isBlank (c : Char) : Bool :=
  blankRanges.any fun range => range.1 ≤ c.toNat && c.toNat ≤ range.2

/-- The four blanks of XML: space, tab, carriage return and line feed. -/
def isXmlBlank (c : Char) : Bool :=
  c == ' ' || c == '\t' || c == '\r' || c == '\n'

def trimEnd (blank : Char → Bool) (text : List Char) : List Char :=
  (text.reverse.dropWhile blank).reverse

def trim (blank : Char → Bool) (text : List Char) : List Char :=
  trimEnd blank (text.dropWhile blank)

theorem trimEnd_concat_of_not (blank : Char → Bool) (text : List Char) (c : Char)
    (visible : blank c = false) : trimEnd blank (text ++ [c]) = text ++ [c] := by
  simp [trimEnd, visible]

def trimBlanks (text : String) : String :=
  String.ofList (trim isBlank text.toList)

def dropMark : List Char → List Char
  | '\ufeff' :: rest => rest
  | text => text

end RdfMapping.Text
