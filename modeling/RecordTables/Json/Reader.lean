import RecordTables.Json.Document

/-!
# Reading documents

`Document.parse?` accepts exactly one document with nothing but blanks around it.  There is no limit on nesting
here: the types that read a document count the levels that they enter.
-/

namespace RecordTables.Json

open RecordTables.Text (Symbol)

/-- The blanks that may stand between the tokens. -/
def isBlank : Symbol → Bool
  | .char c => c == ' ' || c == '\t' || c == '\n' || c == '\r'
  | .stray _ => false

def skipBlanks (input : List Symbol) : List Symbol := input.dropWhile isBlank

/-- The input behind an expected word. -/
def expect? : List Char → List Symbol → Option (List Symbol)
  | [], input => some input
  | c :: word, .char d :: rest => if c = d then expect? word rest else none
  | _ :: _, _ => none

/-- The leading decimal digits, and the rest. -/
def splitDigits : List Symbol → List Char × List Symbol
  | .char c :: rest =>
      if c.isDigit then
        let (digits, tail) := splitDigits rest
        (c :: digits, tail)
      else ([], .char c :: rest)
  | rest => ([], rest)

/-! ## Numbers -/

/-- A minus sign, if one stands in front, and the rest. -/
def splitMinus : List Symbol → Bool × List Symbol
  | .char '-' :: rest => (true, rest)
  | input => (false, input)

/-- The digits behind a point, if there is a point. -/
def readFraction? : List Symbol → Option (Option (List Char) × List Symbol)
  | .char '.' :: rest =>
      let (digits, tail) := splitDigits rest
      if digits.isEmpty then none else some (some digits, tail)
  | input => some (none, input)

/-- The sign of an exponent, and the rest. -/
def splitExponentSign : List Symbol → Bool × List Symbol
  | .char '-' :: rest => (true, rest)
  | .char '+' :: rest => (false, rest)
  | input => (false, input)

/-- The exponent, if there is one. -/
def readExponent? (input : List Symbol) : Option (Option Int × List Symbol) :=
  match input with
  | .char c :: rest =>
      if c = 'e' || c = 'E' then
        let (negative, body) := splitExponentSign rest
        let (digits, tail) := splitDigits body
        let n : Int := digitsValue 0 digits
        if digits.isEmpty then none else some (some (if negative then -n else n), tail)
      else some (none, input)
  | _ => some (none, input)

/-- The number that a numeral stands for. -/
def numberOf (negative : Bool) (whole : List Char) : Option (List Char) → Option Int → Number
  | none, none => .whole negative (digitsValue 0 whole)
  | fraction, exponent =>
      match readReal? negative whole (fraction.getD []) (exponent.getD 0) with
      | some x => .real x
      | none => .huge

/-- Reads a numeral.  No further digit follows a leading zero. -/
def readNumber? (input : List Symbol) : Option (Number × List Symbol) := do
  let (negative, body) := splitMinus input
  let (whole, afterWhole) := splitDigits body
  guard (!whole.isEmpty && (whole.length == 1 || whole.head? != some '0'))
  let (fraction, afterFraction) ← readFraction? afterWhole
  let (exponent, rest) ← readExponent? afterFraction
  some (numberOf negative whole fraction exponent, rest)

/-! ## Strings -/

/-- The value of a hexadecimal digit. -/
def hexDigit? (c : Char) : Option Nat :=
  if '0' ≤ c ∧ c ≤ '9' then some (c.toNat - '0'.toNat)
  else if 'a' ≤ c ∧ c ≤ 'f' then some (c.toNat - 'a'.toNat + 10)
  else if 'A' ≤ c ∧ c ≤ 'F' then some (c.toNat - 'A'.toNat + 10)
  else none

/-- The unit that four hexadecimal digits stand for. -/
def hexUnit? (a b c d : Char) : Option UInt16 := do
  let w ← hexDigit? a
  let x ← hexDigit? b
  let y ← hexDigit? c
  let z ← hexDigit? d
  some (UInt16.ofNat (((w * 16 + x) * 16 + y) * 16 + z))

/-- The unit that a letter behind a backslash stands for. -/
def shortEscape? : Char → Option UInt16
  | '"' => some 0x22
  | '\\' => some 0x5c
  | '/' => some 0x2f
  | 'b' => some 0x08
  | 'f' => some 0x0c
  | 'n' => some 0x0a
  | 'r' => some 0x0d
  | 't' => some 0x09
  | _ => none

/-- Reads behind the opening quote of a string to its end. -/
def readPieces? : List Symbol → Option (List Piece × List Symbol)
  | [] => none
  | .char '"' :: rest => some ([], rest)
  | .char '\\' :: .char 'u' :: .char a :: .char b :: .char c :: .char d :: rest => do
      let unit ← hexUnit? a b c d
      let (pieces, tail) ← readPieces? rest
      some (.escape unit :: pieces, tail)
  | .char '\\' :: .char c :: rest => do
      let unit ← shortEscape? c
      let (pieces, tail) ← readPieces? rest
      some (.escape unit :: pieces, tail)
  | .char '\\' :: _ => none
  | s :: rest => do
      let (pieces, tail) ← readPieces? rest
      some (.plain s :: pieces, tail)

/-- Reads the key of an entry and the colon behind it. -/
def readKey? (input : List Symbol) : Option (List Piece × List Symbol) :=
  match skipBlanks input with
  | .char '"' :: rest => do
      let (key, tail) ← readPieces? rest
      match skipBlanks tail with
      | .char ':' :: more => some (key, more)
      | _ => none
  | _ => none

/-! ## Documents -/

mutual

/-- Reads one document, and gives what follows it. -/
def readDocument? : Nat → List Symbol → Option (Document × List Symbol)
  | 0, _ => none
  | fuel + 1, input =>
      match skipBlanks input with
      | .char 'n' :: rest => (expect? ['u', 'l', 'l'] rest).map fun tail => (.null, tail)
      | .char 't' :: rest => (expect? ['r', 'u', 'e'] rest).map fun tail => (.bool true, tail)
      | .char 'f' :: rest => (expect? ['a', 'l', 's', 'e'] rest).map fun tail => (.bool false, tail)
      | .char '"' :: rest => (readPieces? rest).map fun (pieces, tail) => (.string pieces, tail)
      | .char '[' :: rest =>
          match skipBlanks rest with
          | .char ']' :: tail => some (.array [], tail)
          | _ => do
              let (first, tail) ← readDocument? fuel rest
              let (items, tail) ← readItems? fuel tail
              some (.array (first :: items), tail)
      | .char '\x7b' :: rest =>
          match skipBlanks rest with
          | .char '\x7d' :: tail => some (.object [], tail)
          | _ => do
              let (key, tail) ← readKey? rest
              let (value, tail) ← readDocument? fuel tail
              let (entries, tail) ← readEntries? fuel tail
              some (.object ((key, value) :: entries), tail)
      | other => (readNumber? other).map fun (n, tail) => (.number n, tail)

/-- Reads the items behind the first one, to the end of the array. -/
def readItems? : Nat → List Symbol → Option (List Document × List Symbol)
  | 0, _ => none
  | fuel + 1, input =>
      match skipBlanks input with
      | .char ']' :: rest => some ([], rest)
      | .char ',' :: rest => do
          let (item, tail) ← readDocument? fuel rest
          let (items, tail) ← readItems? fuel tail
          some (item :: items, tail)
      | _ => none

/-- Reads the entries behind the first one, to the end of the object. -/
def readEntries? : Nat → List Symbol → Option (List (List Piece × Document) × List Symbol)
  | 0, _ => none
  | fuel + 1, input =>
      match skipBlanks input with
      | .char '\x7d' :: rest => some ([], rest)
      | .char ',' :: rest => do
          let (key, tail) ← readKey? rest
          let (value, tail) ← readDocument? fuel tail
          let (entries, tail) ← readEntries? fuel tail
          some ((key, value) :: entries, tail)
      | _ => none

end

/-- Reads a document that is all of the input.  Every level of nesting takes a symbol, so the length of the input
bounds the recursion. -/
def Document.parse? (input : List Symbol) : Option Document := do
  let (d, rest) ← readDocument? (input.length + 1) input
  guard (skipBlanks rest).isEmpty
  some d

end RecordTables.Json
