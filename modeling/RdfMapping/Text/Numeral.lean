import RdfMapping.Double.Decimal
/-!
Numbers written as text: whole numbers in the range of a machine word, and
decimal fractions as doubles. A text is a numeral as a whole or not at all.
-/

namespace RdfMapping.Text

def digitValue (c : Char) : Nat := c.toNat - '0'.toNat

def takeDigits (text : List Char) : List Nat × List Char :=
  ((text.takeWhile Char.isDigit).map digitValue, text.dropWhile Char.isDigit)

/-- The natural number that a text of digits only, and at least one, denotes. -/
def natural? (text : List Char) : Option Nat :=
  match takeDigits text with
  | (digit :: digits, []) => some (Double.digitsValue (digit :: digits))
  | _ => none

def takeSign : List Char → Bool × List Char
  | '-' :: rest => (true, rest)
  | '+' :: rest => (false, rest)
  | text => (false, text)

/-- A natural number below `2 ^ 64`; a plus sign may precede it. -/
def index? (text : List Char) : Option Nat :=
  match text with
  | '-' :: _ => none
  | _ => (natural? (takeSign text).2).filter (· < Nat.pow 2 64)

/-- A whole number from `-2 ^ 63` below `2 ^ 63`; a sign may precede it. -/
def integer? (text : List Char) : Option Int :=
  match takeSign text with
  | (true, rest) => ((natural? rest).filter (· ≤ Nat.pow 2 63)).map fun n => -(n : Int)
  | (false, rest) => ((natural? rest).filter (· < Nat.pow 2 63)).map fun n => (n : Int)

/-- The exponent of a decimal fraction: nothing, or `e` and a whole number of
any size. -/
def exponent? : List Char → Option Int
  | [] => some 0
  | c :: rest =>
      if c = 'e' ∨ c = 'E' then
        let signed := takeSign rest
        (natural? signed.2).map fun n => if signed.1 then -(n : Int) else (n : Int)
      else none

/-- A decimal fraction as it is written: the number that its digits denote without
the point, times a power of ten. -/
structure Fraction where
  negative : Bool
  digits : List Nat
  exponent : Int
  deriving DecidableEq, Repr

/-- A decimal fraction with an optional sign, an optional point among or at the
ends of its digits, and an optional exponent. -/
def fraction? (text : List Char) : Option Fraction :=
  let signed := takeSign text
  let whole := takeDigits signed.2
  let rest : List Nat × List Char :=
    match whole.2 with
    | '.' :: rest => takeDigits rest
    | rest => ([], rest)
  if whole.1.isEmpty && rest.1.isEmpty then none
  else (exponent? rest.2).map fun exponent =>
    ⟨signed.1, whole.1 ++ rest.1, exponent - rest.1.length⟩

def Fraction.toDouble? (fraction : Fraction) : Option Double :=
  Double.ofDecimal? fraction.negative fraction.digits fraction.exponent

def double? (text : List Char) : Option Double := (fraction? text).bind Fraction.toDouble?

/-- Whether a text names an infinity or "not a number", with an optional sign. -/
def isNonFinite (text : List Char) : Bool :=
  ["inf", "infinity", "nan"].contains (String.ofList ((takeSign text).2.map Char.toLower))

end RdfMapping.Text
