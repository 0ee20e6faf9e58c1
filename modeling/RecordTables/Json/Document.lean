import RecordTables.Json.Number
import RecordTables.Text.Symbol

/-!
# Documents

A document is what a text of the format says before any type has a look at it.  Strings keep their pieces, so that
a type may ask for text, for bytes, or only for well-formedness.  `Document.chars` writes a document without any
blanks; a string made by `Piece.ofChar` is written with escapes for quotes, backslashes and controls alone.
-/

namespace RecordTables.Json

open RecordTables.Text (Symbol)

/-- A piece of a string: a symbol that stands for itself, or an escaped unit of sixteen bits. -/
inductive Piece where
  | plain (symbol : Symbol)
  | escape (unit : UInt16)
  deriving DecidableEq, Repr, Inhabited

/-- A document. -/
inductive Document where
  | null
  | bool (b : Bool)
  | number (n : Number)
  | string (pieces : List Piece)
  | array (items : List Document)
  | object (entries : List (List Piece × Document))
  deriving Inhabited

/-! ## Strings -/

/-- The first half of a pair of units. -/
def isHighHalf (unit : UInt16) : Bool := 0xd800 ≤ unit && unit < 0xdc00

/-- The second half of a pair of units. -/
def isLowHalf (unit : UInt16) : Bool := 0xdc00 ≤ unit && unit < 0xe000

/-- The code point of a pair of units. -/
def joinHalves (high low : UInt16) : Nat :=
  (high.toNat - 0xd800) * 0x400 + (low.toNat - 0xdc00) + 0x10000

namespace Piece

/-- The piece for a character: itself, or an escape where the format asks for one. -/
def ofChar (c : Char) : Piece :=
  if c = '"' || c = '\\' || c < ' ' then .escape (UInt16.ofNat c.toNat) else .plain (.char c)

/-- The pieces of a text. -/
def ofString (s : String) : List Piece := s.toList.map ofChar

/-- Whether a string may be skipped: it holds no control character that is not escaped. -/
def skippable (pieces : List Piece) : Bool :=
  pieces.all fun
    | .plain s => !s.isControl
    | .escape _ => true

/-- The characters of a string.  Stray bytes, bare control characters and halves of pairs have none. -/
def chars? : List Piece → Option (List Char)
  | [] => some []
  | .plain (.char c) :: rest => if c < ' ' then none else (chars? rest).map (c :: ·)
  | .plain (.stray _) :: _ => none
  | .escape u :: .escape v :: rest =>
      if isHighHalf u && isLowHalf v then (chars? rest).map (Char.ofNat (joinHalves u v) :: ·)
      else if isHighHalf u || isLowHalf u then none
      else (chars? (.escape v :: rest)).map (Char.ofNat u.toNat :: ·)
  | .escape u :: rest =>
      if isHighHalf u || isLowHalf u then none
      else (chars? rest).map (Char.ofNat u.toNat :: ·)

/-- The text of a string. -/
def text? (pieces : List Piece) : Option String := (chars? pieces).map String.ofList

/-- The bytes of a string; here everything has some. -/
def bytes : List Piece → List UInt8
  | [] => []
  | .plain s :: rest => s.bytes ++ bytes rest
  | .escape u :: .escape v :: rest =>
      if isHighHalf u && isLowHalf v then Symbol.encode (joinHalves u v) ++ bytes rest
      else Symbol.encode u.toNat ++ bytes (.escape v :: rest)
  | .escape u :: rest => Symbol.encode u.toNat ++ bytes rest

/-- The digits of a string that holds nothing but plain characters. -/
def plainChars? (pieces : List Piece) : Option (List Char) :=
  pieces.mapM fun
    | .plain (.char c) => some c
    | _ => none

end Piece

/-! ## Writing -/

/-- Four hexadecimal digits. -/
def hexUnit (unit : UInt16) : List Char :=
  let digit (k : Nat) : Char := Nat.digitChar (unit.toNat / 16 ^ k % 16)
  [digit 3, digit 2, digit 1, digit 0]

/-- An escape in its shortest form. -/
def escapeChars (unit : UInt16) : List Char :=
  if unit = 0x22 then ['\\', '"']
  else if unit = 0x5c then ['\\', '\\']
  else if unit = 0x08 then ['\\', 'b']
  else if unit = 0x09 then ['\\', 't']
  else if unit = 0x0a then ['\\', 'n']
  else if unit = 0x0c then ['\\', 'f']
  else if unit = 0x0d then ['\\', 'r']
  else '\\' :: 'u' :: hexUnit unit

def Piece.chars : Piece → List Char
  | .plain s => [s.shown]
  | .escape unit => escapeChars unit

/-- A string between its quotes. -/
def stringChars (pieces : List Piece) : List Char :=
  '"' :: (pieces.flatMap Piece.chars ++ ['"'])

mutual

/-- The characters of a document. -/
def Document.chars : Document → List Char
  | .null => "null".toList
  | .bool b => (if b then "true" else "false").toList
  | .number n => n.text.toList
  | .string pieces => stringChars pieces
  | .array [] => ['[', ']']
  | .array (first :: rest) => '[' :: (first.chars ++ itemsChars rest)
  | .object [] => ['\x7b', '\x7d']
  | .object ((key, value) :: rest) =>
      '\x7b' :: (stringChars key ++ ':' :: (value.chars ++ entriesChars rest))

/-- The items behind the first one, and the end of the array. -/
def itemsChars : List Document → List Char
  | [] => [']']
  | item :: rest => ',' :: (item.chars ++ itemsChars rest)

/-- The entries behind the first one, and the end of the object. -/
def entriesChars : List (List Piece × Document) → List Char
  | [] => ['\x7d']
  | (key, value) :: rest => ',' :: (stringChars key ++ ':' :: (value.chars ++ entriesChars rest))

end

/-- The text of a document. -/
def Document.text (d : Document) : String := String.ofList d.chars

end RecordTables.Json
