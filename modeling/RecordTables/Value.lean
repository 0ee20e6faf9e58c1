import RecordTables.Number.Text

/-!
# Values and their storage classes

A value is what a statement binds and what a row holds.  A stored value is the form in which it crosses into the
store: there a text is bytes that need not be UTF-8.  `Value.ofStored_toStored` says that the way there and back
loses nothing; the other way, only a text of invalid bytes comes back as something else, a blob.
-/

namespace RecordTables

-- Bytes are compared by the core library, whatever else is imported.
attribute [instance (2000)] ByteArray.instDecidableEq

/-- The integers of eight signed bytes are those from its negative up to the one before it. -/
def signedBound : Int := 0x8000000000000000

/-- An integer as one of eight signed bytes. -/
def signedInteger? (n : Int) : Option Int64 :=
  if -signedBound ≤ n ∧ n < signedBound then some (Int64.ofInt n) else none

/-- The storage classes that a column can ask for. -/
inductive ColumnType where
  | blob
  | integer
  | real
  | text
  deriving DecidableEq, Repr, Inhabited

/-- The keyword of a storage class. -/
def ColumnType.keyword : ColumnType → String
  | .blob => "BLOB"
  | .integer => "INTEGER"
  | .real => "REAL"
  | .text => "TEXT"

/-- A value bound to a parameter or held by a row. -/
inductive Value where
  | null
  | blob (bytes : ByteArray)
  | int (n : Int64)
  | real (x : Double)
  | text (s : String)
  deriving DecidableEq, Inhabited

/-- Plain decimal digits: never an exponent, no point in a whole number. -/
def realStyle : DecimalStyle where
  tie := .up
  plain := none
  point := false
  pointBeforeExponent := false
  exponentDigits := 1

/-- The text of a real number where a text is asked for. -/
def Double.text (x : Double) : String :=
  match x.value with
  | .nan => "NaN"
  | .infinite negative => if negative then "-inf" else "inf"
  | .finite negative significand exponent => realStyle.shortestText .double negative significand exponent

namespace Value

/-- The storage class of a value; `null` has none. -/
def columnType? : Value → Option ColumnType
  | .null => none
  | .blob _ => some .blob
  | .int _ => some .integer
  | .real _ => some .real
  | .text _ => some .text

def isNull (v : Value) : Bool := v.columnType?.isNone

/-- Equality in which real numbers compare as numbers. -/
def same : Value → Value → Bool
  | .real x, .real y => x.same y
  | v, w => v == w

/-- True is stored as all bits set. -/
def ofBool (b : Bool) : Value := .int (if b then -1 else 0)

/-- An integer within the range of eight signed bytes. -/
def ofInt? (n : Int) : Option Value := (signedInteger? n).map .int

end Value

/-- A value as the store holds it. -/
inductive StoredValue where
  | null
  | int (n : Int64)
  | real (x : Double)
  | text (bytes : ByteArray)
  | blob (bytes : ByteArray)
  deriving DecidableEq, Inhabited

namespace Value

/-- The form in which a value is handed to the store. -/
def toStored : Value → StoredValue
  | .null => .null
  | .blob bytes => .blob bytes
  | .int n => .int n
  | .real x => .real x
  | .text s => .text s.toUTF8

/-- A stored value read back.  Text that is not UTF-8 keeps its bytes as a blob. -/
def ofStored : StoredValue → Value
  | .null => .null
  | .int n => .int n
  | .real x => .real x
  | .text bytes => match String.fromUTF8? bytes with
      | some s => .text s
      | none => .blob bytes
  | .blob bytes => .blob bytes

/-- Handing a value over and reading it back gives the value. -/
theorem ofStored_toStored (v : Value) : ofStored v.toStored = v := by
  cases v with
  | text s =>
      have h : String.fromUTF8? s.toByteArray = some s := by
        simp only [String.fromUTF8?, dif_pos s.isValidUTF8]
        rfl
      simp [toStored, ofStored, h]
  | _ => rfl

end Value

end RecordTables
