import RdfMapping.Json.Basic
import RdfMapping.Text.Numeral
/-!
Reading JSON text. The whole text must be one value, with blanks around its
parts. Arrays and objects nest at most `Json.maxDepth` deep. A number without a
fraction and an exponent is whole if it fits a 64-bit word; every other number is
a double, found in two roundings: the digits are gathered into a 64-bit word as
far as they fit, and the word is then multiplied or divided by a power of ten.
-/

namespace RdfMapping.Json

def maxDepth : Nat := 127

def isJsonBlank (c : Char) : Bool := c == ' ' || c == '\n' || c == '\t' || c == '\r'

def skipBlanks (text : List Char) : List Char := text.dropWhile isJsonBlank

/-! ### Numbers -/

def wordLimit : Nat := Nat.pow 2 64

/-- A number under construction: the digits gathered so far, and the power of
ten to scale them by. -/
structure Gathered where
  word : Nat
  exponent : Int

/-- Digits before the point. A digit that no longer fits the word, and every
digit after it, only counts towards the exponent. -/
def gatherWhole : Gathered → List Nat → Gathered
  | g, [] => g
  | g, digit :: digits =>
      let word := 10 * g.word + digit
      if g.exponent = 0 ∧ word < wordLimit then gatherWhole ⟨word, 0⟩ digits
      else gatherWhole ⟨g.word, g.exponent + 1⟩ digits

/-- Digits after the point. From the first digit that no longer fits the word
on, they are dropped. -/
def gatherFraction : Gathered → List Nat → Gathered
  | g, [] => g
  | g, digit :: digits =>
      let word := 10 * g.word + digit
      if word < wordLimit then gatherFraction ⟨word, g.exponent - 1⟩ digits else g

/-- Scales a double by a negative power of ten in steps of at most 308. -/
def scaleDown : Nat → Double → Nat → Option Double
  | 0, x, _ => some x
  | fuel + 1, x, places =>
      if x.significand = 0 then some x
      else if places ≤ 308 then (Double.powerOfTen? places).bind x.div?
      else ((Double.powerOfTen? 308).bind x.div?).bind fun y => scaleDown fuel y (places - 308)

def Gathered.toDouble? (g : Gathered) : Option Double :=
  (Double.ofNat? g.word).bind fun x =>
    if g.exponent < 0 then scaleDown 4 x (-g.exponent).toNat
    else if x.significand = 0 then some x
    else if g.exponent ≤ 308 then (Double.powerOfTen? g.exponent.toNat).bind x.mul?
    else none

def takeExponent (text : List Char) : Option (Int × List Char) :=
  let signed := Text.takeSign text
  match Text.takeDigits signed.2 with
  | ([], _) => none
  | (digits, rest) =>
      let value : Int := Double.digitsValue digits
      some (if signed.1 then -value else value, rest)

def takeUnsigned (negative : Bool) (text : List Char) : Option (Number × List Char) := do
  let (digits, rest) := Text.takeDigits text
  if digits.isEmpty ∨ (digits.head? = some 0 ∧ 1 < digits.length) then none
  let whole := gatherWhole ⟨0, 0⟩ digits
  let (fractional, gathered, rest) ←
    match rest with
    | '.' :: rest =>
        let (fraction, rest) := Text.takeDigits rest
        if fraction.isEmpty then none
        else some (true, gatherFraction whole fraction, rest)
    | rest => some (false, whole, rest)
  let (scaled, gathered, rest) ←
    match rest with
    | c :: after =>
        if c = 'e' ∨ c = 'E' then do
          let (exponent, rest) ← takeExponent after
          some (true, { gathered with exponent := gathered.exponent + exponent }, rest)
        else some (false, gathered, rest)
    | [] => some (false, gathered, rest)
  let isWhole := !fractional && !scaled && whole.exponent = 0 &&
    (!negative || (whole.word ≠ 0 && whole.word ≤ Nat.pow 2 63))
  if isWhole then
    some (.integer (if negative then -(whole.word : Int) else whole.word), rest)
  else do
    let value ← gathered.toDouble?
    some (.real { value with negative := negative }, rest)

def takeNumber : List Char → Option (Number × List Char)
  | '-' :: rest => takeUnsigned true rest
  | text => takeUnsigned false text

/-! ### Strings -/

def hexValue? (c : Char) : Option Nat :=
  if '0' ≤ c ∧ c ≤ '9' then some (c.toNat - '0'.toNat)
  else if 'a' ≤ c ∧ c ≤ 'f' then some (c.toNat - 'a'.toNat + 10)
  else if 'A' ≤ c ∧ c ≤ 'F' then some (c.toNat - 'A'.toNat + 10)
  else none

def codeUnit? (a b c d : Char) : Option Nat := do
  let a ← hexValue? a
  let b ← hexValue? b
  let c ← hexValue? c
  let d ← hexValue? d
  some (((a * 16 + b) * 16 + c) * 16 + d)

def simpleEscape? : Char → Option Char
  | '"' => some '"'
  | '\\' => some '\\'
  | '/' => some '/'
  | 'b' => some '\x08'
  | 'f' => some '\x0c'
  | 'n' => some '\n'
  | 'r' => some '\r'
  | 't' => some '\t'
  | _ => none

/-- The characters of a string up to its closing quote, and what follows it. A
code unit escape of a surrogate counts only as half of a pair. -/
def takeString : List Char → Option (List Char × List Char)
  | [] => none
  | '"' :: rest => some ([], rest)
  | '\\' :: 'u' :: a :: b :: c :: d :: rest => do
      let unit ← codeUnit? a b c d
      if 0xD800 ≤ unit ∧ unit < 0xDC00 then
        match rest with
        | '\\' :: 'u' :: a :: b :: c :: d :: rest => do
            let low ← codeUnit? a b c d
            if 0xDC00 ≤ low ∧ low < 0xE000 then
              let (chars, rest) ← takeString rest
              let code := 0x10000 + (unit - 0xD800) * 0x400 + (low - 0xDC00)
              some (Char.ofNat code :: chars, rest)
            else none
        | _ => none
      else if 0xDC00 ≤ unit ∧ unit < 0xE000 then none
      else
        let (chars, rest) ← takeString rest
        some (Char.ofNat unit :: chars, rest)
  | '\\' :: letter :: rest => do
      let char ← simpleEscape? letter
      let (chars, rest) ← takeString rest
      some (char :: chars, rest)
  | c :: rest =>
      if c.toNat < 0x20 ∨ c = '\\' then none
      else do
        let (chars, rest) ← takeString rest
        some (c :: chars, rest)

/-! ### Values -/

mutual

/-- A value that begins a text, after blanks. `depth` bounds how deep it may
nest; `fuel` bounds the number of calls. -/
def takeValue (depth : Nat) : Nat → List Char → Option (Json × List Char)
  | 0, _ => none
  | fuel + 1, text =>
      match skipBlanks text with
      | 'n' :: 'u' :: 'l' :: 'l' :: rest => some (.null, rest)
      | 't' :: 'r' :: 'u' :: 'e' :: rest => some (.bool true, rest)
      | 'f' :: 'a' :: 'l' :: 's' :: 'e' :: rest => some (.bool false, rest)
      | '"' :: rest => do
          let (chars, rest) ← takeString rest
          some (.string (String.ofList chars), rest)
      | '[' :: rest =>
          if depth = 0 then none
          else match skipBlanks rest with
            | ']' :: rest => some (.array [], rest)
            | rest => do
                let (elements, rest) ← takeElements (depth - 1) fuel rest
                some (.array elements, rest)
      | '\x7b' :: rest =>
          if depth = 0 then none
          else match skipBlanks rest with
            | '\x7d' :: rest => some (.object [], rest)
            | rest => do
                let (members, rest) ← takeMembers (depth - 1) fuel rest
                some (Json.ofMembers members, rest)
      | text => do
          let (value, rest) ← takeNumber text
          some (.number value, rest)

def takeElements (depth : Nat) : Nat → List Char → Option (List Json × List Char)
  | 0, _ => none
  | fuel + 1, text => do
      let (element, rest) ← takeValue depth fuel text
      match skipBlanks rest with
      | ']' :: rest => some ([element], rest)
      | ',' :: rest => do
          let (elements, rest) ← takeElements depth fuel rest
          some (element :: elements, rest)
      | _ => none

def takeMembers (depth : Nat) : Nat → List Char → Option (List (String × Json) × List Char)
  | 0, _ => none
  | fuel + 1, text =>
      match skipBlanks text with
      | '"' :: rest => do
          let (name, rest) ← takeString rest
          match skipBlanks rest with
          | ':' :: rest => do
              let (value, rest) ← takeValue depth fuel rest
              match skipBlanks rest with
              | '\x7d' :: rest => some ([(String.ofList name, value)], rest)
              | ',' :: rest => do
                  let (members, rest) ← takeMembers depth fuel rest
                  some ((String.ofList name, value) :: members, rest)
              | _ => none
          | _ => none
      | _ => none

end

/-- The value of a JSON text. Every call of the readers above takes a character
or is the first after one, so that twice the length is fuel enough. -/
def parse? (text : String) : Option Json := do
  let chars := text.toList
  let (value, rest) ← takeValue maxDepth (2 * chars.length + 2) chars
  if (skipBlanks rest).isEmpty then some value else none

end RdfMapping.Json
