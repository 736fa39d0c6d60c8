/-!
Binary floating point numbers of double precision, as exact data: a sign, a
significand and a power of two. Every operation computes with whole numbers and
rounds once, to the nearest double, a tie going to the even significand. There
are no infinities and no "not a number": an operation whose result would be one
of them has no value.
-/

namespace RdfMapping

/-- The number `significand * 2 ^ exponent`, negated when `negative`. Zero keeps
its sign. -/
structure Double where
  negative : Bool
  significand : Nat
  exponent : Int
  deriving DecidableEq, Repr

namespace Double

def significandLimit : Nat := Nat.pow 2 53

def leastExponent : Int := -1074

def greatestExponent : Int := 971

/-- The one representation of a value: a significand with all its bits unless
the exponent is the least one. -/
def IsCanonical (x : Double) : Prop :=
  x.significand < significandLimit ∧ leastExponent ≤ x.exponent ∧
    x.exponent ≤ greatestExponent ∧
    (Nat.pow 2 52 ≤ x.significand ∨ x.exponent = leastExponent)

instance (x : Double) : Decidable x.IsCanonical := by
  unfold IsCanonical; infer_instance

def zero (negative : Bool) : Double := ⟨negative, 0, leastExponent⟩

/-! ### Rounding a quotient -/

/-- The whole number nearest to `numerator / denominator`, a tie going to the
even neighbour. -/
def nearestEven (numerator denominator : Nat) : Nat :=
  let whole := numerator / denominator
  let twice := 2 * (numerator % denominator)
  if twice < denominator then whole
  else if denominator < twice then whole + 1
  else if whole % 2 = 0 then whole
  else whole + 1

def scaleByTwo (numerator denominator : Nat) (power : Int) : Nat × Nat :=
  if 0 ≤ power then (numerator * Nat.pow 2 power.toNat, denominator)
  else (numerator, denominator * Nat.pow 2 (-power).toNat)

/-- The greatest `k` with `2 ^ k ≤ numerator / denominator`, both positive. -/
def floorLog2 (numerator denominator : Nat) : Int :=
  let guess : Int := (numerator.log2 : Int) - (denominator.log2 : Int)
  let scaled := scaleByTwo numerator denominator (-guess)
  if scaled.2 ≤ scaled.1 then guess else guess - 1

/-- The double nearest to `numerator / denominator`, for a positive
denominator. Values beyond the greatest double have none. -/
def ofQuotient? (negative : Bool) (numerator denominator : Nat) : Option Double :=
  if numerator = 0 then some (zero negative)
  else
    let exponent := max (floorLog2 numerator denominator - 52) leastExponent
    let scaled := scaleByTwo numerator denominator (-exponent)
    let significand := nearestEven scaled.1 scaled.2
    let rounded : Double :=
      if significand = significandLimit then ⟨negative, Nat.pow 2 52, exponent + 1⟩
      else ⟨negative, significand, exponent⟩
    if rounded.exponent ≤ greatestExponent then some rounded else none

def toQuotient (x : Double) : Nat × Nat := scaleByTwo x.significand 1 x.exponent

def ofNat? (n : Nat) : Option Double := ofQuotient? false n 1

/-! ### Arithmetic -/

def mul? (x y : Double) : Option Double :=
  let p := x.toQuotient
  let q := y.toQuotient
  ofQuotient? (x.negative != y.negative) (p.1 * q.1) (p.2 * q.2)

def div? (x y : Double) : Option Double :=
  let p := x.toQuotient
  let q := y.toQuotient
  if q.1 = 0 then none
  else ofQuotient? (x.negative != y.negative) (p.1 * q.2) (p.2 * q.1)

/-- The nearest whole number to the absolute value, a half going up. -/
def nearestAway (x : Double) : Nat :=
  let q := x.toQuotient
  (2 * q.1 + q.2) / (2 * q.2)

end Double

end RdfMapping
