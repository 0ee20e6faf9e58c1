import RecordTables.Value
import RecordTables.Number.Extended

/-!
# Real numbers of the engine

The engine reads and writes real numbers in extended precision.  `Numeral.toReal` gives the number of a numeral,
and `realText` the fifteen digits under which a number is kept as a text.
-/

namespace RecordTables

namespace Numeral

/-- A number with this many digits takes no more of them. -/
def fullDigits : Nat := (UInt64.size - 10) / 10

/-- The digits taken so far as one number, and the power of ten of the last of them. -/
structure Taken where
  digits : Nat
  place : Int

/-- Takes a digit before the point; one for which there is no room only raises the place. -/
def Taken.whole (t : Taken) (c : Char) : Taken :=
  if t.digits < fullDigits then ⟨digitsValue t.digits [c], t.place⟩ else ⟨t.digits, t.place + 1⟩

/-- Takes a digit behind the point; one for which there is no room is dropped. -/
def Taken.fraction (t : Taken) (c : Char) : Taken :=
  if t.digits < fullDigits then ⟨digitsValue t.digits [c], t.place - 1⟩ else t

/-- An exponent of more than five digits counts as ten thousand. -/
def boundedExponent (e : Int) : Int := if 100000 ≤ e.natAbs then 10000 * e.sign else e

/-- The leading digits of a numeral. -/
def taken (n : Numeral) : Taken :=
  let whole := n.whole.foldl Taken.whole ⟨0, 0⟩
  let all := n.fraction.foldl Taken.fraction whole
  { all with place := all.place + boundedExponent n.exponent }

/-- Moves a positive power of ten into the digits while they are below the full count, and zeros at the end of
the digits into a negative one. -/
def Taken.settle (t : Taken) : Nat → Taken
  | 0 => t
  | fuel + 1 =>
      if 0 < t.place ∧ t.digits < (UInt64.size - 1) / 10 then settle ⟨10 * t.digits, t.place - 1⟩ fuel
      else if t.place < 0 ∧ t.digits % 10 = 0 then settle ⟨t.digits / 10, t.place + 1⟩ fuel
      else t

/-- The largest finite double. -/
def largest : Ratio := .scaled 2 0x1fffffffffffff 971

/-- The number of digits at their place, in extended precision.  A number above the largest double is infinite;
what is far outside of the range needs no computation. -/
def Taken.toReal (t : Taken) (negative : Bool) : Double :=
  if 400 < t.place then .ofValue (.infinite negative)
  else if t.place < -400 then .ofRatio negative ⟨0, 1⟩
  else
    let x := Extended.scale t.place ⟨t.digits, 1⟩
    if largest.order x = .lt then .ofValue (.infinite negative) else .ofRatio negative x

/-- The real number of a numeral.  Twenty moves settle any count of digits. -/
def toReal (n : Numeral) (negative : Bool) : Double :=
  let t := n.taken
  if t.digits = 0 then .ofRatio negative ⟨0, 1⟩ else (t.settle 20).toReal negative

end Numeral

namespace Engine

/-- Always with a point, and an exponent of at least two digits where fifteen digits do not reach. -/
def realTextStyle : DecimalStyle where
  tie := .even
  plain := some (-4, 14)
  point := true
  pointBeforeExponent := true
  exponentDigits := 2

/-- The text under which a real number is kept. -/
def realText (x : Double) : String :=
  match x.value with
  | .nan => ""
  | .infinite negative => if negative then "-Inf" else "Inf"
  | .finite negative significand exponent =>
      if significand = 0 then realTextStyle.text ⟨0, 0⟩
      else
        let d := Extended.significant 15 (.scaled 2 significand exponent)
        (if negative then "-" else "") ++ realTextStyle.text d

end Engine

end RecordTables
