import RecordTables.Number.Text

/-!
# Numbers of documents

A numeral without fraction and exponent is a whole number of any size; every other numeral is read as a double.
The reading of doubles keeps at most as many leading digits as fit into eight bytes, and then multiplies or
divides by powers of ten, rounding at each step.  A numeral beyond the largest double is `huge`: it is well
formed, but it has no value.
-/

namespace RecordTables.Json

/-- A number of a document. -/
inductive Number where
  /-- Digits alone, with or without a minus sign.  Minus zero is not zero. -/
  | whole (negative : Bool) (n : Nat)
  | real (x : Double)
  /-- A number that is written with the digits that tell apart numbers of four bytes. -/
  | single (x : Single)
  | huge
  deriving DecidableEq, Repr, Inhabited

/-- No exponent while the power of ten of the first digit is from -5 to 15, and always a point without one. -/
def numberStyle : DecimalStyle where
  tie := .even
  plain := some (-5, 15)
  point := true
  pointBeforeExponent := false
  exponentDigits := 1

/-- A number of four bytes has no exponent while the power of ten of its first digit is from -6 to 12. -/
def singleStyle : DecimalStyle := { numberStyle with plain := some (-6, 12) }

/-! ## Reading -/

/-- Continues a number with leading digits while it fits into eight bytes, and gives the digits left over. -/
def absorb (n : Nat) : List Char → Nat × List Char
  | [] => (n, [])
  | c :: rest =>
      let next := digitsValue n [c]
      if next < UInt64.size then absorb next rest else (n, c :: rest)

/-- The leading digits of a numeral as one number, and the power of ten of its last place.  Digits left over
before the point raise the power; digits left over behind it are dropped. -/
def leadingDigits (whole fraction : List Char) : Nat × Int :=
  let (high, dropped) := absorb 0 whole
  let (n, unread) := absorb high fraction
  (n, (dropped.length : Int) - ((fraction.length : Int) - unread.length))

/-- The double nearest to a power of ten. -/
def powerOfTen (k : Nat) : Double := .ofRatio false ⟨10 ^ k, 1⟩

/-- The magnitude of a product, rounded. -/
def product (x y : Double) : Double := .ofRatio false (x.magnitude.mul y.magnitude)

/-- The magnitude of a quotient, rounded. -/
def quotient (x y : Double) : Double := .ofRatio false (x.magnitude.div y.magnitude)

/-- Divides by ten to the power `k`, at most 308 of it at a time. -/
def shrink : Nat → Double → Nat → Double
  | 0, x, _ => x
  | fuel + 1, x, k =>
      if x.bits = 0 then x
      else if k ≤ 308 then quotient x (powerOfTen k)
      else shrink fuel (quotient x (powerOfTen 308)) (k - 308)

/-- Multiplies a positive double by a power of ten; `none` if the result is too large. -/
def scale? (x : Double) (exponent : Int) : Option Double :=
  if exponent < 0 then some (shrink (exponent.natAbs / 308 + 1) x exponent.natAbs)
  else if x.bits = 0 then some x
  else if 308 < exponent then none
  else
    let scaled := product x (powerOfTen exponent.toNat)
    if scaled.isFinite then some scaled else none

/-- The double of a numeral, `none` beyond the largest one. -/
def readReal? (negative : Bool) (whole fraction : List Char) (exponent : Int) : Option Double :=
  let (n, place) := leadingDigits whole fraction
  (scale? (.ofInt n) (place + exponent)).map fun x => if negative then x.negate else x

namespace Number

def ofInt (n : Int) : Number := .whole (n < 0) n.natAbs

/-- The integer of a whole number that fits into eight bytes, signed or unsigned. -/
def int? : Number → Option Int
  | .whole false n => if n < UInt64.size then some n else none
  | .whole true n => if n ≠ 0 ∧ n ≤ UInt64.size / 2 then some (-n) else none
  | _ => none

/-- The number as a double. -/
def double? : Number → Option Double
  | .whole negative n =>
      if n < UInt64.size then
        some (if negative then (Double.ofInt n).negate else .ofInt n)
      else readReal? negative (Nat.toDigits 10 n) [] 0
  | .real x => some x
  | .single x => some x.widen
  | .huge => none

/-- The number as a single; an integer is rounded only once. -/
def single? (n : Number) : Option Single :=
  match n with
  | .single x => some x
  | _ =>
      match n.int? with
      | some k => some (.ofValue (.ofInt k))
      | none => n.double?.map Double.narrow

/-- The text of a number.  A number that is not finite has none and stands as `null`. -/
def text : Number → String
  | .whole negative n => (if negative then "-" else "") ++ toString n
  | .real x => match x.value with
      | .finite negative significand exponent =>
          numberStyle.shortestText .double negative significand exponent
      | _ => "null"
  | .single x => match x.value with
      | .finite negative significand exponent =>
          singleStyle.shortestText .single negative significand exponent
      | _ => "null"
  | .huge => "1e999"

end Number

end RecordTables.Json
