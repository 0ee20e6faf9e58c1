import RecordTables.Number.Floating

/-!
# Decimal digits of binary numbers

`Decimal.shortest` gives the fewest digits that read back as a given number, and among these the ones nearest to
it.  It looks at ever finer decimal grids; on each grid only the two neighbours of the number can qualify.
-/

namespace RecordTables

/-- The number `coefficient * 10 ^ exponent`. -/
structure Decimal where
  coefficient : Nat
  exponent : Int
  deriving DecidableEq, Repr

/-- Which of two equally near neighbours is taken. -/
inductive TieRule where
  | even
  | up
  deriving DecidableEq, Repr

namespace Decimal

def ratio (d : Decimal) : Ratio := .scaled 10 d.coefficient d.exponent

/-- The digits of the coefficient. -/
def digits (d : Decimal) : List Char := Nat.toDigits 10 d.coefficient

/-- The power of ten of the first digit. -/
def magnitude (d : Decimal) : Int := d.exponent + d.digits.length - 1

/-- Trailing zeros of the coefficient move into the exponent. -/
def trim (d : Decimal) : Decimal :=
  go d.coefficient d.coefficient d.exponent
where
  go : Nat → Nat → Int → Decimal
    | 0, c, e => ⟨c, e⟩
    | fuel + 1, c, e => if c % 10 = 0 ∧ c ≠ 0 then go fuel (c / 10) (e + 1) else ⟨c, e⟩

/-- The numbers that round to one binary number: all between the ends, the ends too if `closed`. -/
structure Interval where
  low : Ratio
  centre : Ratio
  high : Ratio
  closed : Bool

/-- The numbers that round to `significand * 2 ^ exponent`.  Below the least significand of a binade the next
number is only half as far away. -/
def Interval.of (f : BinaryFormat) (significand : Nat) (exponent : Int) : Interval :=
  let quarters (n : Nat) : Ratio := .scaled 2 n (exponent - 2)
  let narrow := significand = 2 ^ f.fractionBits ∧ f.leastExponent < exponent
  { low := quarters (4 * significand - (if narrow then 1 else 2))
    centre := quarters (4 * significand)
    high := quarters (4 * significand + 2)
    closed := significand % 2 == 0 }

/-- Whether `r` rounds to the number of the interval. -/
def Interval.holds (i : Interval) (r : Ratio) : Bool :=
  match i.low.order r, r.order i.high with
  | .lt, .lt => true
  | .gt, _ => false
  | _, .gt => false
  | _, _ => i.closed

/-- The neighbour of the centre on the grid of multiples of `10 ^ exponent` that lies in the interval, the nearer
one if both do. -/
def Interval.onGrid? (i : Interval) (tie : TieRule) (exponent : Int) : Option Decimal :=
  let steps := i.centre.div (.scaled 10 1 exponent)
  let below := steps.num / steps.den
  let lower : Decimal := ⟨below, exponent⟩
  let upper : Decimal := ⟨below + 1, exponent⟩
  let fitsBelow := below != 0 && i.holds lower.ratio
  let fitsAbove := i.holds upper.ratio
  if fitsBelow && fitsAbove then
    match compare (2 * (steps.num % steps.den)) steps.den with
    | .lt => some lower
    | .gt => some upper
    | .eq => some (if tie = .even ∧ below % 2 = 0 then lower else upper)
  else if fitsBelow then some lower
  else if fitsAbove then some upper
  else none

/-- The first of the grids `10 ^ exponent`, `10 ^ (exponent - 1)`, … that has a point in the interval. -/
def Interval.coarsest (i : Interval) (tie : TieRule) : Nat → Int → Decimal
  | 0, exponent => ⟨i.centre.num * 10 ^ (-exponent).toNat / i.centre.den, exponent⟩
  | fuel + 1, exponent =>
      match i.onGrid? tie exponent with
      | some d => d
      | none => i.coarsest tie fuel (exponent - 1)

/-- A power of ten that is certainly above the number. -/
def ceilingExponent (r : Ratio) : Int :=
  ((r.num.log2 : Int) - r.den.log2 + 1) * 30103 / 100000 + 1

/-- The shortest digits that read back as `significand * 2 ^ exponent`; zero has the digit 0.  Seventeen digits
always suffice, and the search starts at most three grids above the first digit. -/
def shortest (f : BinaryFormat) (tie : TieRule) (significand : Nat) (exponent : Int) : Decimal :=
  if significand = 0 then ⟨0, 0⟩
  else
    let i := Interval.of f significand exponent
    (i.coarsest tie 24 (ceilingExponent i.centre)).trim

end Decimal

end RecordTables
