/-!
# Patterns

In a pattern a percent sign stands for any text and an underscore for one character.  The percent signs divide a
pattern into segments: the first one has to start the text, the last one to end it, and each of the others is
looked for behind the one before.  Taking the first place where a segment fits leaves the most text for the rest,
so no place has to be tried again.
-/

namespace RecordTables.Engine

/-! ## Characters -/

/-- The bits that the first byte of a sequence adds to its code. -/
def leadBits (n : Nat) : Nat :=
  if n < 0xe0 then n % 32
  else if n < 0xf0 then n % 16
  else if n < 0xf8 then n % 8
  else if n < 0xfc then n % 4
  else if n < 0xfe then n % 2
  else 0

/-- The code of a sequence of bytes.  One that a single byte has, half a pair and the last two of the first plane
stand for no character. -/
def characterCode (n : Nat) : Nat :=
  if n < 0x80 ∨ n / 0x800 = 27 ∨ n = 0xfffe ∨ n = 0xffff then 0xfffd else n

/-- Reads bytes as codes.  A sequence goes on for as long as its bytes can continue it, and a continuation without
a first byte stands for itself; `pending` is the code of the sequence that is being read. -/
def readCodes (pending : Option Nat) : List UInt8 → List Nat
  | [] => pending.toList.map characterCode
  | byte :: rest =>
      let n := byte.toNat
      match pending.filter fun _ => n / 64 = 2 with
      | some code => readCodes (some ((64 * code + n % 64) % 0x100000000)) rest
      | none =>
          let closed := pending.toList.map characterCode
          if n < 0xc0 then closed ++ n :: readCodes none rest
          else closed ++ readCodes (some (leadBits n)) rest

/-- The codes of a text, which ends at the first NUL. -/
def codesOf (bytes : ByteArray) : List Nat := (readCodes none bytes.toList).takeWhile (· != 0)

/-- Letters of ASCII in one case. -/
def foldCase (code : Nat) : Nat := if 0x41 ≤ code ∧ code ≤ 0x5a then code + 32 else code

/-! ## Matching -/

def percentSign : Nat := '%'.toNat

def underscore : Nat := '_'.toNat

/-- Whether a part of a pattern other than a percent sign fits a character. -/
def fits (part code : Nat) : Bool := part == underscore || foldCase part == foldCase code

/-- The parts of a pattern between its percent signs. -/
def segments : List Nat → List (List Nat)
  | [] => [[]]
  | code :: rest =>
      if code = percentSign then [] :: segments rest
      else
        match segments rest with
        | [] => [[code]]
        | segment :: more => (code :: segment) :: more

/-- The text behind a segment that starts it. -/
def behind? : List Nat → List Nat → Option (List Nat)
  | [], text => some text
  | _ :: _, [] => none
  | part :: segment, code :: text => if fits part code then behind? segment text else none

/-- The text behind the first place where a segment fits. -/
def behindFirst? (segment : List Nat) : List Nat → Option (List Nat)
  | [] => behind? segment []
  | code :: text =>
      match behind? segment (code :: text) with
      | some rest => some rest
      | none => behindFirst? segment text

/-- Whether a segment fits the end of a text. -/
def endsWith (segment text : List Nat) : Bool :=
  segment.length ≤ text.length && behind? segment (text.drop (text.length - segment.length)) == some []

/-- Whether segments fit into a text one behind the other, the last one at its end. -/
def fitInto : List (List Nat) → List Nat → Bool
  | [], _ => true
  | [last], text => endsWith last text
  | segment :: more, text =>
      match behindFirst? segment text with
      | some rest => fitInto more rest
      | none => false

/-- Whether a text matches a pattern. -/
def matchesPattern (pattern text : List Nat) : Bool :=
  match segments pattern with
  | [] => text.isEmpty
  | [only] => behind? only text == some []
  | first :: more =>
      match behind? first text with
      | some rest => fitInto more rest
      | none => false

end RecordTables.Engine
