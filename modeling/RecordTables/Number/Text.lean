import RecordTables.Number.Decimal

/-!
# Numbers as text

`DecimalStyle` says how the digits of a number are laid out; the formats that use one each state theirs.
`Double.ofText?` and `readInteger?` read the texts that a column may hold in place of a number.
-/

namespace RecordTables

/-- How a number is written. -/
structure DecimalStyle where
  /-- Which of two equally near shortest digit strings is written. -/
  tie : TieRule
  /-- The powers of ten of the first digit for which no exponent is written; `none` stands for all. -/
  plain : Option (Int × Int)
  /-- A number without a fraction still ends in `.0`. -/
  point : Bool
  /-- A number with an exponent has a fraction too. -/
  pointBeforeExponent : Bool
  /-- The least count of digits of an exponent. -/
  exponentDigits : Nat

/-- An integer in decimal digits, with a minus sign if it is negative. -/
def integerText (n : Int) : String := toString n

namespace DecimalStyle

variable (style : DecimalStyle)

/-- Digits without an exponent. -/
def plainText (d : Decimal) : String :=
  let digits := d.digits
  if 0 ≤ d.exponent then
    String.ofList (digits ++ List.replicate d.exponent.toNat '0') ++ (if style.point then ".0" else "")
  else
    let places := (-d.exponent).toNat
    if digits.length ≤ places then
      "0." ++ String.ofList (List.replicate (places - digits.length) '0' ++ digits)
    else
      String.ofList (digits.take (digits.length - places)) ++ "." ++
        String.ofList (digits.drop (digits.length - places))

/-- One digit, the others behind a point, and the exponent with its sign. -/
def exponentText (d : Decimal) : String :=
  let fraction := d.digits.drop 1
  let body := String.ofList (d.digits.take 1) ++
    (if fraction.isEmpty then (if style.pointBeforeExponent then ".0" else "")
     else "." ++ String.ofList fraction)
  let exponent := Nat.toDigits 10 d.magnitude.natAbs
  body ++ "e" ++ (if d.magnitude < 0 then "-" else "+") ++
    String.ofList (List.replicate (style.exponentDigits - exponent.length) '0' ++ exponent)

/-- The text of an unsigned number. -/
def text (d : Decimal) : String :=
  match style.plain with
  | none => style.plainText d
  | some (first, last) =>
      if first ≤ d.magnitude ∧ d.magnitude ≤ last then style.plainText d else style.exponentText d

/-- The text of a finite number of format `f` in its shortest digits. -/
def shortestText (f : BinaryFormat) (negative : Bool) (significand : Nat) (exponent : Int) : String :=
  (if negative then "-" else "") ++ style.text (.shortest f style.tie significand exponent)

end DecimalStyle

/-! ## Reading -/

/-- The value of a string of decimal digits, continuing from `value`. -/
def digitsValue (value : Nat) (digits : List Char) : Nat :=
  digits.foldl (fun n c => 10 * n + (c.toNat - '0'.toNat)) value

/-- A sign, if one stands in front, and the rest. -/
def splitSign : List Char → Bool × List Char
  | '-' :: rest => (true, rest)
  | '+' :: rest => (false, rest)
  | rest => (false, rest)

/-- Reads an optionally signed string of ASCII digits, all of it. -/
def readInteger? (cs : List Char) : Option Int :=
  let (negative, digits) := splitSign cs
  if digits.isEmpty || !digits.all Char.isDigit then none
  else
    let n : Int := digitsValue 0 digits
    some (if negative then -n else n)

/-- A decimal numeral taken apart; the point stands behind `whole`. -/
structure Numeral where
  whole : List Char
  fraction : List Char
  exponent : Int

/-- Reads the exponent part of a numeral, all of the text. -/
def readExponent? : List Char → Option Int
  | [] => some 0
  | c :: rest =>
      if c == 'e' || c == 'E' then
        let (negative, digits) := splitSign rest
        if digits.isEmpty || !digits.all Char.isDigit then none
        else
          let n : Int := digitsValue 0 digits
          some (if negative then -n else n)
      else none

/-- Reads digits, a point and an exponent; there is a digit before or behind the point, and all of the text is
used. -/
def readNumeral? (cs : List Char) : Option Numeral :=
  let whole := cs.takeWhile Char.isDigit
  let rest := cs.dropWhile Char.isDigit
  let (fraction, tail) := match rest with
    | '.' :: more => (more.takeWhile Char.isDigit, more.dropWhile Char.isDigit)
    | _ => ([], rest)
  if whole.isEmpty && fraction.isEmpty then none
  else (readExponent? tail).map fun exponent => ⟨whole, fraction, exponent⟩

namespace Numeral

/-- The digits as one number and the power of ten of its last place. -/
def decimal (n : Numeral) : Decimal :=
  ⟨digitsValue 0 (n.whole ++ n.fraction), n.exponent - n.fraction.length⟩

/-- The double nearest to the numeral.  Numerals far outside the range are settled by their magnitude alone. -/
def toDouble (n : Numeral) (negative : Bool) : Double :=
  let d := n.decimal
  if d.coefficient = 0 then .ofRatio negative ⟨0, 1⟩
  else if 400 < d.magnitude then .ofValue (.infinite negative)
  else if d.magnitude < -400 then .ofRatio negative ⟨0, 1⟩
  else .ofRatio negative d.ratio

end Numeral

/-- Reads a floating-point text: a numeral, `inf`, `infinity` or `nan` in any case, with an optional sign. -/
def Double.ofText? (cs : List Char) : Option Double :=
  let (negative, body) := splitSign cs
  let word := String.ofList (body.map Char.toLower)
  if word == "inf" || word == "infinity" then some (.ofValue (.infinite negative))
  else if word == "nan" then some (.ofValue .nan)
  else (readNumeral? body).map fun n => n.toDouble negative

end RecordTables
