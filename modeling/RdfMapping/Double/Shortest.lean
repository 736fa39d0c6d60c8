import RdfMapping.Double.Basic
/-!
The shortest decimal notation of a double. Of all decimal fractions that the
double is the nearest one to, those with the fewest digits are sought, and among
them the one nearest to the double itself, a tie going to the even last digit.
Which digits these are is decided here by exact arithmetic; how they are laid
out is a `Layout`.
-/

namespace RdfMapping.Double

/-- The decimal fraction `digits * 10 ^ exponent`. -/
structure Decimal where
  digits : Nat
  exponent : Int
  deriving DecidableEq, Repr

def Decimal.toQuotient (d : Decimal) : Nat × Nat :=
  if 0 ≤ d.exponent then (d.digits * Nat.pow 10 d.exponent.toNat, 1)
  else (d.digits, Nat.pow 10 (-d.exponent).toNat)

def Decimal.trimmed (d : Decimal) : Decimal :=
  let rec go : Nat → Nat → Int → Decimal
    | 0, digits, exponent => ⟨digits, exponent⟩
    | fuel + 1, digits, exponent =>
        if digits ≠ 0 ∧ digits % 10 = 0 then go fuel (digits / 10) (exponent + 1)
        else ⟨digits, exponent⟩
  go 20 d.digits d.exponent

def readsBack (x : Double) (d : Decimal) : Bool :=
  let q := d.toQuotient
  ofQuotient? false q.1 q.2 = some { x with negative := false }

/-- The greatest `k` with `10 ^ k ≤ numerator / denominator`, found by stepping
up from a lower bound of it. -/
def floorLog10 (numerator denominator : Nat) : Int :=
  let rec go : Nat → Int → Int
    | 0, k => k
    | fuel + 1, k =>
        let next := Decimal.toQuotient ⟨1, k + 1⟩
        if next.1 * denominator ≤ numerator * next.2 then go fuel (k + 1) else k
  -- a power of two is at least the power of ten with three tenths of its exponent
  let low := Int.fdiv (floorLog2 numerator denominator * 3) 10
  go 60 (if low < 0 then low - 30 else low)

/-- The two neighbours of `numerator / denominator` among the multiples of
`10 ^ exponent`, the nearer one first; a tie puts the even one first. -/
def neighbours (numerator denominator : Nat) (exponent : Int) : List Decimal :=
  let unit := Decimal.toQuotient ⟨1, exponent⟩
  let top := numerator * unit.2
  let bottom := denominator * unit.1
  let low : Decimal := ⟨top / bottom, exponent⟩
  let high : Decimal := ⟨top / bottom + 1, exponent⟩
  if nearestEven top bottom = low.digits then [low, high] else [high, low]

/-- The shortest decimal fraction that reads back as the absolute value of `x`,
with no zero at its end. Seventeen digits always suffice. -/
def shortest (x : Double) : Decimal :=
  if x.significand = 0 then ⟨0, 0⟩
  else
    let q := x.toQuotient
    let magnitude := floorLog10 q.1 q.2
    let candidates := (List.range 17).flatMap fun (count : Nat) =>
      neighbours q.1 q.2 (magnitude - count)
    match candidates.find? (readsBack x) with
    | some d => d.trimmed
    | none => ⟨x.significand, 0⟩

/-! ### Layout -/

structure Layout where
  /-- The least and the greatest exponent of the first digit for which the
  number is written without an exponent. -/
  positionalFrom : Int
  positionalTo : Int
  /-- What ends a whole number that is written without an exponent. -/
  wholeMark : String
  /-- What stands between the digits and a positive or negative exponent. -/
  positiveMark : String
  negativeMark : String

def zeros (count : Nat) : String := String.ofList (List.replicate count '0')

def Layout.render (layout : Layout) (x : Double) : String :=
  let d := x.shortest
  let text := toString d.digits
  let leading : Int := d.exponent + text.length - 1
  let body :=
    if layout.positionalFrom ≤ leading ∧ leading ≤ layout.positionalTo then
      if 0 ≤ d.exponent then text ++ zeros d.exponent.toNat ++ layout.wholeMark
      else if 0 ≤ leading then
        String.ofList (text.toList.take (leading.toNat + 1)) ++ "." ++
          String.ofList (text.toList.drop (leading.toNat + 1))
      else "0." ++ zeros ((-leading).toNat - 1) ++ text
    else
      let fraction := text.toList.drop 1
      String.ofList (text.toList.take 1) ++
        (if fraction.isEmpty then "" else "." ++ String.ofList fraction) ++
        (if 0 ≤ leading then layout.positiveMark else layout.negativeMark) ++
        toString leading.natAbs
  if x.negative then "-" ++ body else body

end RdfMapping.Double
