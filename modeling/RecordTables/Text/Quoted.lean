import RecordTables.Text.Hidden

/-!
# Quoted display of a text

Messages show a text between double quotes, with escapes for quotes, backslashes, controls and all characters
that do not show by themselves.
-/

namespace RecordTables.Text

/-- The lowercase hexadecimal digits of a number. -/
def hexDigits (n : Nat) : List Char := Nat.toDigits 16 n

/-- One character of a quoted display. -/
def displayChar (c : Char) : List Char :=
  if c = '\x00' then ['\\', '0']
  else if c = '\t' then ['\\', 't']
  else if c = '\n' then ['\\', 'n']
  else if c = '\r' then ['\\', 'r']
  else if c = '\\' || c = '"' then ['\\', c]
  else if c.toNat < 0x20 || c.toNat = 0x7f || (0x7f < c.toNat && isHidden c) then
    ['\\', 'u', '\x7b'] ++ hexDigits c.toNat ++ ['\x7d']
  else [c]

/-- A text between double quotes. -/
def display (s : String) : String :=
  String.ofList ('"' :: s.toList.flatMap displayChar ++ ['"'])

end RecordTables.Text
