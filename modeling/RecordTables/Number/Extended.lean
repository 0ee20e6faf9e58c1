import RecordTables.Number.Decimal

/-!
# Powers of ten in extended precision

Extended precision keeps sixty-four significant bits.  A number is carried to another power of ten by factors of
at most a hundred places, and every product is rounded, so what comes out is near to the exact product and not
always the nearest number to it.  `Extended.scale` does this by a given count of places, and
`Extended.significant` brings a number into a fixed range first and then takes its leading digits.
-/

namespace RecordTables

namespace BinaryFormat

/-- Ten bytes: 63 bits of fraction below the leading one, 15 of exponent. -/
def extended : BinaryFormat := ⟨63, 15⟩

/-- The number of the format nearest to `r`, ties to even, as if there were no largest one. -/
def nearest (f : BinaryFormat) (r : Ratio) : Ratio :=
  if r.num = 0 then r
  else
    let exponent := f.exponentFor r
    .scaled 2 (r.div (.scaled 2 1 exponent)).nearestEven exponent

end BinaryFormat

namespace Extended

/-- A rounded product. -/
def product (x y : Ratio) : Ratio := BinaryFormat.extended.nearest (x.mul y)

/-- A rounded power of ten. -/
def powerOfTen (k : Int) : Ratio := BinaryFormat.extended.nearest (.scaled 10 1 k)

/-- Multiplies by the same factor several times. -/
def multiply (factor : Ratio) : Nat → Ratio → Ratio
  | 0, x => x
  | count + 1, x => multiply factor count (product x factor)

/-- Multiplies by ten to the power `k`: by hundreds of places first, then by tens, then by single ones. -/
def scale (k : Int) (x : Ratio) : Ratio :=
  let places := k.natAbs
  let hundreds := multiply (powerOfTen (100 * k.sign)) (places / 100) x
  let tens := multiply (powerOfTen (10 * k.sign)) (places / 10 % 10) hundreds
  multiply (powerOfTen k.sign) (places % 10) tens

/-- A number, and the power of ten that it has still to be multiplied by. -/
structure Carried where
  number : Ratio
  exponent : Int

/-- Whether a number is at least a power of ten. -/
def reaches (k : Int) (x : Ratio) : Bool := ((powerOfTen k).order x).isLE

/-- Carries a number on by `step` places at a time while a test holds. -/
def carryWhile (test : Ratio → Bool) (step : Int) : Nat → Carried → Carried
  | 0, c => c
  | fuel + 1, c =>
      if test c.number then
        carryWhile test step fuel ⟨product c.number (powerOfTen step), c.exponent - step⟩
      else c

/-- Carries a positive double to where its whole part has eighteen or nineteen digits.  No stage needs more than
a dozen steps. -/
def carry (x : Ratio) : Carried :=
  let start : Carried := ⟨x, 0⟩
  if reaches 19 x then
    let near := carryWhile (reaches 119) (-100) 12 start
    let nearer := carryWhile (reaches 29) (-10) 12 near
    carryWhile (reaches 19) (-1) 12 nearer
  else
    let near := carryWhile (fun y => !reaches (-97) y) 100 12 start
    let nearer := carryWhile (fun y => !reaches 7 y) 10 12 near
    carryWhile (fun y => !reaches 17 y) 1 12 nearer

/-- The first `count` digits of a positive number; the digit behind them decides whether the last one is
raised. -/
def significant (count : Nat) (x : Ratio) : Decimal :=
  let c := carry x
  let whole := c.number.num / c.number.den
  let dropped := (Nat.toDigits 10 whole).length - count
  let kept := whole / 10 ^ dropped
  let raised := if 5 * 10 ^ dropped ≤ 10 * (whole % 10 ^ dropped) ∧ 0 < dropped then kept + 1 else kept
  Decimal.trim ⟨raised, c.exponent + dropped⟩

end Extended

end RecordTables
