import RecordTables.Number.Binary

/-!
# Doubles and singles

The two formats that records and values use, held as bit patterns.  Equality of the types is equality of
patterns; `Double.same` is the comparison of numbers, under which `nan` differs from itself and the two zeros
agree.
-/

namespace RecordTables

/-- A binary number of eight bytes. -/
structure Double where
  bits : UInt64
  deriving DecidableEq, Repr, Inhabited

/-- A binary number of four bytes. -/
structure Single where
  bits : UInt32
  deriving DecidableEq, Repr, Inhabited

namespace Double

def value (x : Double) : BinaryValue := BinaryFormat.double.unpack x.bits.toNat

/-- The nearest double, ties to even. -/
def ofValue (v : BinaryValue) : Double := ⟨UInt64.ofNat (BinaryFormat.double.pack v)⟩

/-- The double nearest to a signed ratio. -/
def ofRatio (negative : Bool) (r : Ratio) : Double := ⟨UInt64.ofNat (BinaryFormat.double.round negative r)⟩

/-- The double nearest to an integer. -/
def ofInt (n : Int) : Double := ofValue (.ofInt n)

/-- The integer that `x` denotes, if it denotes one. -/
def toInt? (x : Double) : Option Int := x.value.toInt?

def isNaN (x : Double) : Bool := x.value == .nan

/-- Neither an infinity nor `nan`. -/
def isFinite (x : Double) : Bool :=
  match x.value with
  | .finite .. => true
  | _ => false

/-- Equality of numbers. -/
def same (x y : Double) : Bool := x.value.order? y.value == some .eq

def negate (x : Double) : Double :=
  match x.value with
  | .nan => x
  | .infinite negative => ofValue (.infinite !negative)
  | .finite negative significand exponent => ofValue (.finite (!negative) significand exponent)

/-- The magnitude as a ratio; a value that is not finite counts as zero. -/
def magnitude (x : Double) : Ratio :=
  match x.value with
  | .finite _ significand exponent => .scaled 2 significand exponent
  | _ => ⟨0, 1⟩

end Double

namespace Single

def value (x : Single) : BinaryValue := BinaryFormat.single.unpack x.bits.toNat

/-- The nearest single, ties to even. -/
def ofValue (v : BinaryValue) : Single := ⟨UInt32.ofNat (BinaryFormat.single.pack v)⟩

/-- Every single is also a double. -/
def widen (x : Single) : Double := .ofValue x.value

def isFinite (x : Single) : Bool :=
  match x.value with
  | .finite .. => true
  | _ => false

end Single

/-- The single nearest to a double. -/
def Double.narrow (x : Double) : Single := .ofValue x.value

end RecordTables
