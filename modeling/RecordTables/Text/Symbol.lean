/-!
# Text that need not be well formed

Bytes are read as symbols: characters wherever they encode one, and stray bytes elsewhere.  A sequence of bytes
is well formed if none of its symbols is a stray byte.
-/

namespace RecordTables.Text

/-- A character, or a byte that belongs to none. -/
inductive Symbol where
  | char (c : Char)
  | stray (byte : UInt8)
  deriving DecidableEq, Repr, Inhabited

namespace Symbol

/-- The symbols of a text. -/
def ofString (s : String) : List Symbol := s.toList.map .char

/-- The payload of a continuation byte. -/
def continuation? (b : UInt8) : Option Nat :=
  if b.toNat / 64 = 2 then some (b.toNat % 64) else none

/-- The character with a code point, if it needs at least as many bytes as were spent on it. -/
def charAbove? (least n : Nat) : Option Char :=
  if least ≤ n ∧ n.isValidChar then some (Char.ofNat n) else none

/-- The character that starts with a byte, and the count of further bytes that it takes. -/
def first? (lead : UInt8) (rest : List UInt8) : Option (Char × Nat) :=
  let n := lead.toNat
  if n < 0x80 then some (Char.ofNat n, 0)
  else if 0xc0 ≤ n ∧ n < 0xe0 then do
    let a ← rest[0]?.bind continuation?
    let c ← charAbove? 0x80 (n % 32 * 64 + a)
    some (c, 1)
  else if 0xe0 ≤ n ∧ n < 0xf0 then do
    let a ← rest[0]?.bind continuation?
    let b ← rest[1]?.bind continuation?
    let c ← charAbove? 0x800 ((n % 16 * 64 + a) * 64 + b)
    some (c, 2)
  else if 0xf0 ≤ n ∧ n < 0xf8 then do
    let a ← rest[0]?.bind continuation?
    let b ← rest[1]?.bind continuation?
    let d ← rest[2]?.bind continuation?
    let c ← charAbove? 0x10000 (((n % 8 * 64 + a) * 64 + b) * 64 + d)
    some (c, 3)
  else none

/-- The symbols of a sequence of bytes. -/
def ofBytes : List UInt8 → List Symbol
  | [] => []
  | lead :: rest =>
      match first? lead rest with
      | some (c, taken) => .char c :: ofBytes (rest.drop taken)
      | none => .stray lead :: ofBytes rest
termination_by bytes => bytes.length
decreasing_by all_goals simp only [List.length_cons, List.length_drop]; omega

/-- The bytes of a code point, also of one that is no character. -/
def encode (n : Nat) : List UInt8 :=
  let tail (unit : Nat) : UInt8 := UInt8.ofNat (0x80 + n / unit % 0x40)
  if n < 0x80 then [UInt8.ofNat n]
  else if n < 0x800 then [UInt8.ofNat (0xc0 + n / 0x40), tail 1]
  else if n < 0x10000 then [UInt8.ofNat (0xe0 + n / 0x1000), tail 0x40, tail 1]
  else [UInt8.ofNat (0xf0 + n / 0x40000), tail 0x1000, tail 0x40, tail 1]

/-- The bytes of a symbol. -/
def bytes : Symbol → List UInt8
  | .char c => encode c.toNat
  | .stray b => [b]

/-- A stray byte shows as the replacement character. -/
def shown : Symbol → Char
  | .char c => c
  | .stray _ => '\ufffd'

/-- Whether the symbol is one of the 32 control characters of ASCII below the blank. -/
def isControl : Symbol → Bool
  | .char c => c < ' '
  | .stray _ => false

end Symbol

end RecordTables.Text
