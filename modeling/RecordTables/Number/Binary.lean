/-!
# Binary interchange formats

A number of such a format is a sign, and either a multiple of a power of two, an infinity or no number at all.
`BinaryFormat.unpack` reads a bit pattern as that value, and `BinaryFormat.round` gives the pattern nearest to a
ratio of natural numbers, ties to the even pattern.  Everything is exact arithmetic on `Nat` and `Int`; no
machine arithmetic takes part.
-/

namespace RecordTables

-- A power is the core library's, whatever else is imported: definitions and statements speak of the same one.
attribute [instance (2000)] instPowNat

/-- The widths of the two fields below the sign. -/
structure BinaryFormat where
  fractionBits : Nat
  exponentBits : Nat

/-- What a bit pattern stands for.  A finite value is `significand * 2 ^ exponent`, negated if `negative`. -/
inductive BinaryValue where
  | nan
  | infinite (negative : Bool)
  | finite (negative : Bool) (significand : Nat) (exponent : Int)
  deriving DecidableEq, Repr

/-- A nonnegative ratio; the denominator is meant to be positive. -/
structure Ratio where
  num : Nat
  den : Nat

namespace Ratio

/-- The ratio `significand * base ^ exponent`. -/
def scaled (base significand : Nat) (exponent : Int) : Ratio :=
  if 0 ≤ exponent then ⟨significand * base ^ exponent.toNat, 1⟩
  else ⟨significand, base ^ (-exponent).toNat⟩

def mul (a b : Ratio) : Ratio := ⟨a.num * b.num, a.den * b.den⟩

def div (a b : Ratio) : Ratio := ⟨a.num * b.den, a.den * b.num⟩

/-- Cross multiplication decides the order of two ratios. -/
def order (a b : Ratio) : Ordering := compare (a.num * b.den) (b.num * a.den)

/-- The quotient rounded to the nearest natural number, a tie to the even one. -/
def nearestEven (a : Ratio) : Nat :=
  let quotient := a.num / a.den
  let twice := 2 * (a.num % a.den)
  if twice < a.den then quotient
  else if a.den < twice then quotient + 1
  else if quotient % 2 = 0 then quotient else quotient + 1

end Ratio

namespace BinaryFormat

/-- Eight bytes: 52 bits of fraction, 11 of exponent. -/
def double : BinaryFormat := ⟨52, 11⟩

/-- Four bytes: 23 bits of fraction, 8 of exponent. -/
def single : BinaryFormat := ⟨23, 8⟩

variable (f : BinaryFormat)

/-- The exponent of the least positive number. -/
def leastExponent : Int := 2 - 2 ^ (f.exponentBits - 1) - f.fractionBits

/-- The magnitude pattern of infinity; the finite ones lie below it. -/
def infinityBits : Nat := (2 ^ f.exponentBits - 1) * 2 ^ f.fractionBits

/-- The weight of the sign bit. -/
def signBit : Nat := 2 ^ (f.fractionBits + f.exponentBits)

/-- The value of a bit pattern. -/
def unpack (bits : Nat) : BinaryValue :=
  let negative := bits / f.signBit % 2 == 1
  let biased := bits / 2 ^ f.fractionBits % 2 ^ f.exponentBits
  let fraction := bits % 2 ^ f.fractionBits
  if biased = 2 ^ f.exponentBits - 1 then
    if fraction = 0 then .infinite negative else .nan
  else if biased = 0 then
    .finite negative fraction f.leastExponent
  else
    .finite negative (2 ^ f.fractionBits + fraction) (f.leastExponent + (biased - 1))

/-- The exponent at which `r` has one more significant bit than the fraction holds, or the least exponent if
that is larger. -/
def exponentFor (r : Ratio) : Int :=
  let guess : Int := (r.num.log2 : Int) - r.den.log2 - f.fractionBits
  let digits := r.div (.scaled 2 1 guess)
  let exponent := if digits.num / digits.den < 2 ^ f.fractionBits then guess - 1 else guess
  max exponent f.leastExponent

/-- The magnitude pattern nearest to `r`, ties to even, infinity from half a unit above the largest number on. -/
def roundMagnitude (r : Ratio) : Nat :=
  if r.num = 0 then 0
  else
    let exponent := f.exponentFor r
    let significand := (r.div (.scaled 2 1 exponent)).nearestEven
    min f.infinityBits ((exponent - f.leastExponent).toNat * 2 ^ f.fractionBits + significand)

/-- The pattern nearest to `r` with the given sign. -/
def round (negative : Bool) (r : Ratio) : Nat :=
  (if negative then f.signBit else 0) + f.roundMagnitude r

/-- The pattern of a value of any format: rounded if it is finite, a quiet pattern without payload for `nan`. -/
def pack : BinaryValue → Nat
  | .nan => f.infinityBits + 2 ^ (f.fractionBits - 1)
  | .infinite negative => (if negative then f.signBit else 0) + f.infinityBits
  | .finite negative significand exponent => f.round negative (.scaled 2 significand exponent)

end BinaryFormat

namespace BinaryValue

/-- The integer that a finite value denotes, if it denotes one. -/
def toInt? : BinaryValue → Option Int
  | .finite negative significand exponent =>
      let r := Ratio.scaled 2 significand exponent
      if r.num % r.den = 0 then
        let n : Int := r.num / r.den
        some (if negative then -n else n)
      else none
  | _ => none

/-- Order of the extended real numbers; `none` if one side is not a number.  The two zeros are equal. -/
def order? : BinaryValue → BinaryValue → Option Ordering
  | .nan, _ => none
  | _, .nan => none
  | .infinite a, .infinite b => some (compare b.toNat a.toNat)
  | .infinite a, .finite .. => some (if a then .lt else .gt)
  | .finite .., .infinite b => some (if b then .gt else .lt)
  | .finite a m e, .finite b n k =>
      let x := Ratio.scaled 2 m e
      let y := Ratio.scaled 2 n k
      let left : Int := x.num * y.den
      let right : Int := y.num * x.den
      some (compare (if a then -left else left) (if b then -right else right))

/-- The value of an integer. -/
def ofInt (n : Int) : BinaryValue := .finite (n < 0) n.natAbs 0

end BinaryValue

end RecordTables
