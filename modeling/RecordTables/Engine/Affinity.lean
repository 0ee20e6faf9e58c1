import RecordTables.Engine.Real

/-!
# Affinities

A column prefers values of one kind: its affinity, which follows from its declared type.  Stored values are
converted to that kind where nothing is lost, and compared values where one side prefers a kind.
-/

namespace RecordTables.Engine

/-- The kind of value that a column prefers. -/
inductive Affinity where
  | blob
  | text
  | numeric
  | integer
  | real
  deriving DecidableEq, Repr, Inhabited

namespace Affinity

/-! ## Declared types -/

/-- The last four bytes of a scan, as one number, after one more byte. -/
def pushByte (window : Nat) (byte : UInt8) : Nat := (window * 256 + byte.toNat) % 0x100000000

/-- A word of up to four letters as a window. -/
def windowOf (word : String) : Nat := word.toUTF8.toList.foldl pushByte 0

/-- What the window makes of the affinity found so far; `none` stops the scan at an integer. -/
def scanStep (found : Affinity) (window : Nat) : Option Affinity :=
  if window = windowOf "char" || window = windowOf "clob" || window = windowOf "text" then some .text
  else if window = windowOf "blob" && (found = .numeric || found = .real) then some .blob
  else if (window = windowOf "real" || window = windowOf "floa" || window = windowOf "doub") && found = .numeric
    then some .real
  else if window % 0x1000000 = windowOf "int" then none
  else some found

/-- One pass over the bytes of a declared type. -/
def scanType (found : Affinity) (window : Nat) : List UInt8 → Affinity
  | [] => found
  | byte :: rest =>
      let window := pushByte window byte
      match scanStep found window with
      | some next => scanType next window rest
      | none => .integer

/-- The affinity of a declared type.  Letters count in both cases; a column without a type prefers nothing. -/
def ofDeclared (declared : String) : Affinity :=
  if declared.isEmpty then .blob
  else scanType .numeric 0 (declared.toLower.toUTF8.toList)

end Affinity

/-! ## Numbers in texts -/

/-- The blanks around a number in a text. -/
def isSpace (c : Char) : Bool := c == ' ' || (0x09 ≤ c.toNat && c.toNat ≤ 0x0d)

/-- Bytes as characters of one byte each; numbers consist of ASCII alone. -/
def asciiChars (bytes : ByteArray) : List Char := bytes.toList.map fun b => Char.ofNat b.toNat

def trimSpaces (cs : List Char) : List Char :=
  ((cs.dropWhile isSpace).reverse.dropWhile isSpace).reverse

/-- A number from its sign and its digits: an integer if it is one of eight bytes, else a real number. -/
def signedInteger (negative : Bool) (digits : List Char) : StoredValue :=
  let n : Int := digitsValue 0 digits
  match signedInteger? (if negative then -n else n) with
  | some n => .int n
  | none => .real (Numeral.toReal ⟨digits, [], 0⟩ negative)

/-- The number that a text consists of. -/
def wholeNumber? (bytes : ByteArray) : Option StoredValue :=
  let (negative, body) := splitSign (trimSpaces (asciiChars bytes))
  if !body.isEmpty && body.all Char.isDigit then some (signedInteger negative body)
  else (readNumeral? body).map fun n => .real (n.toReal negative)

/-- The number that a text starts with; zero if there is none. -/
def leadingNumber (bytes : ByteArray) : StoredValue :=
  let (negative, body) := splitSign ((asciiChars bytes).dropWhile isSpace)
  let whole := body.takeWhile Char.isDigit
  let rest := body.drop whole.length
  let (fraction, tail) := match rest with
    | '.' :: more => (some (more.takeWhile Char.isDigit), more.dropWhile Char.isDigit)
    | _ => (none, rest)
  let exponent : Option Int := match tail with
    | c :: more =>
        let (below, digits) := splitSign more
        let digits := digits.takeWhile Char.isDigit
        if (c == 'e' || c == 'E') && !digits.isEmpty then
          let n : Int := digitsValue 0 digits
          some (if below then -n else n)
        else none
    | [] => none
  if whole.isEmpty && (fraction.getD []).isEmpty then .int 0
  else if fraction.isNone && exponent.isNone then signedInteger negative whole
  else .real (Numeral.toReal ⟨whole, fraction.getD [], exponent.getD 0⟩ negative)

/-! ## Conversions -/

/-- The integer that a real number equals, if it lies strictly between the ends of the range of eight bytes. -/
def exactInteger? (x : Double) : Option Int64 :=
  match x.toInt? with
  | some n => if -signedBound < n ∧ n < signedBound then some (Int64.ofInt n) else none
  | none => none

/-- An integral real number as an integer. -/
def integral : StoredValue → StoredValue
  | .real x => match exactInteger? x with
      | some n => .int n
      | none => .real x
  | v => v

/-- A number as a real number; the sign of zero is lost. -/
def asReal : StoredValue → StoredValue
  | .int n => .real (.ofInt n.toInt)
  | .real x => match exactInteger? x with
      | some n => .real (.ofInt n.toInt)
      | none => .real x
  | v => v

/-- A text that consists of a number as that number. -/
def numberFromText : StoredValue → StoredValue
  | .text bytes => (wholeNumber? bytes).getD (.text bytes)
  | v => v

/-- A number as its text. -/
def textFromNumber : StoredValue → StoredValue
  | .int n => .text (integerText n.toInt).toUTF8
  | .real x => .text (realText x).toUTF8
  | v => v

/-- A value as a column of some affinity stores it. -/
def Affinity.store : Affinity → StoredValue → StoredValue
  | .blob, v => v
  | .text, v => textFromNumber v
  | .real, v => asReal (numberFromText v)
  | .integer, v => integral (numberFromText v)
  | .numeric, v => integral (numberFromText v)

/-- The integer that a row is numbered by. -/
def rowNumber? (v : StoredValue) : Option Int64 :=
  match integral (numberFromText v) with
  | .int n => some n
  | _ => none

end RecordTables.Engine
