import RdfMapping.Double.Basic
/-!
Doubles from decimal notation: the double nearest to a decimal fraction, however
many digits and however large an exponent it is written with.
-/

namespace RdfMapping.Double

def digitsValue (digits : List Nat) : Nat :=
  digits.foldl (fun value digit => 10 * value + digit) 0

/-- The double nearest to `digits * 10 ^ exponent`. An exponent so large or so
small that the digits no longer matter is not raised to a power. -/
def ofDecimal? (negative : Bool) (digits : List Nat) (exponent : Int) : Option Double :=
  let value := digitsValue digits
  if value = 0 then some (zero negative)
  else if 310 < exponent then none
  else if (digits.length : Int) + exponent < -330 then some (zero negative)
  else if 0 ≤ exponent then ofQuotient? negative (value * Nat.pow 10 exponent.toNat) 1
  else ofQuotient? negative value (Nat.pow 10 (-exponent).toNat)

def powerOfTen? (exponent : Nat) : Option Double := ofDecimal? false [1] exponent

end RdfMapping.Double
