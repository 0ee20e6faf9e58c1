import RecordTables.Record.Shape
import RecordTables.Json.Reader

/-!
# Reading scalars and keys

Numbers are read by the range of their type.  The keys of an object are strings, so a key of another type is read
from the text between the quotes.
-/

namespace RecordTables

open RecordTables.Json (Document Piece)

/-- Reads the integer of a number token.  Beyond eight bytes the digits count, whatever their sign. -/
def IntType.read? (t : IntType) (n : Json.Number) : Option Int :=
  let value : Option Int :=
    if t.storable then n.int?
    else match n with
      | .whole false k => some k
      | .whole true k => if t.signed then some (-k) else none
      | _ => none
  value.filter t.holds

/-- The only character of a text. -/
def onlyChar? : List Char → Option Char
  | [c] => some c
  | _ => none

/-- The bytes that a list of whole numbers stands for. -/
def byteItems? (items : List Document) : Option (List UInt8) :=
  items.mapM fun
    | .number n => ((⟨false, 8⟩ : IntType).read? n).map fun k => UInt8.ofNat k.toNat
    | _ => none

/-- The number that a key stands for, if it is nothing but a numeral. -/
def keyNumber? (key : List Piece) : Option Json.Number := do
  let cs ← Piece.plainChars? key
  match Json.readNumber? (cs.map .char) with
  | some (n, []) => some n
  | _ => none

namespace Shape

/-- Reads the key of a map. -/
def readKey? (key : List Piece) : Shape → Option Datum
  | .bool =>
      match Piece.plainChars? key with
      | some ['t', 'r', 'u', 'e'] => some (.bool true)
      | some ['f', 'a', 'l', 's', 'e'] => some (.bool false)
      | _ => none
  | .int type => do
      let n ← keyNumber? key
      let k ← type.read? n
      some (.int type k)
  | .single => do
      let n ← keyNumber? key
      n.single?.map .single
  | .double => do
      let n ← keyNumber? key
      n.double?.map .double
  | .char => do
      let cs ← Piece.chars? key
      (onlyChar? cs).map .char
  | .text => (Piece.text? key).map .text
  | .label _ => (Piece.text? key).map .text
  | .anything _ => (Piece.text? key).map .text
  | .ignored _ => (Piece.text? key).map fun _ => .unit
  | .bytes _ => some (.bytes ⟨(Piece.bytes key).toArray⟩)
  | .option content => (readKey? key content).map .present
  | .box content => readKey? key content
  | .transparent _ content => readKey? key content
  | .newtype _ content => (readKey? key content).map .newtype
  | .choice _ variants => do
      let name ← Piece.text? key
      match variants.lookup name with
      | some .unit => some (.unitVariant name)
      | _ => none
  | .untagged _ alternatives => do
      let s ← Piece.text? key
      if alternatives.contains .text then some (.text s) else none
  | .checked _ content refusal => do
      let d ← readKey? key content
      match refusal d with
      | some _ => none
      | none => some d
  | .guarded _ content refusal => (readKey? key content).map (Datum.presented refusal)
  | _ => none

end Shape

end RecordTables
