import RecordTables.Value
import RecordTables.Json.Document

/-!
# Data

A datum is a value of some type as it presents itself for storage.  Nothing in a datum refers to its type: a
scalar brings its own kind, a record its field names, a variant its name.
-/

namespace RecordTables

/-- An integer type. -/
structure IntType where
  signed : Bool
  bits : Nat
  deriving DecidableEq, Repr, Inhabited

namespace IntType

def i64 : IntType := ⟨true, 64⟩

def u64 : IntType := ⟨false, 64⟩

def name (t : IntType) : String := (if t.signed then "i" else "u") ++ toString t.bits

/-- Whether an integer is in the range of the type. -/
def holds (t : IntType) (n : Int) : Bool :=
  if t.signed then decide (-2 ^ (t.bits - 1) ≤ n) && decide (n < 2 ^ (t.bits - 1))
  else decide (0 ≤ n) && decide (n < 2 ^ t.bits)

/-- Only integers of at most eight bytes have a column. -/
def storable (t : IntType) : Bool := t.bits ≤ 64

end IntType

/-- A value as it presents itself. -/
inductive Datum where
  | bool (b : Bool)
  | int (type : IntType) (n : Int)
  | single (x : Single)
  | double (x : Double)
  | char (c : Char)
  | text (s : String)
  | bytes (content : ByteArray)
  | absent
  | present (d : Datum)
  | unit
  | newtype (d : Datum)
  | list (items : List Datum)
  | map (entries : List (Datum × Datum))
  | record (fields : List (String × Datum))
  | unitVariant (name : String)
  | variant (name : String) (payload : Datum)
  /-- The type refuses to present this value. -/
  | refused (why : String)
  deriving Inhabited, BEq

namespace Datum

/-- The text of a datum as a key of a document; only scalars have one. -/
def keyText? : Datum → Option String
  | .bool b => some (if b then "true" else "false")
  | .int _ n => some (integerText n)
  | .single x => if x.isFinite then some (Json.Number.single x).text else none
  | .double x => if x.isFinite then some (Json.Number.real x).text else none
  | .char c => some (String.singleton c)
  | .text s => some s
  | .present d => d.keyText?
  | .newtype d => d.keyText?
  | .unitVariant name => some name
  | _ => none

mutual

/-- The document of a datum.  A number that is not finite becomes null; a map whose keys have no text and a
refused value have no document. -/
def document? : Datum → Option Json.Document
  | .bool b => some (.bool b)
  | .int _ n => some (.number (.ofInt n))
  | .single x => some (if x.isFinite then .number (.single x) else .null)
  | .double x => some (if x.isFinite then .number (.real x) else .null)
  | .char c => some (.string [.ofChar c])
  | .text s => some (.string (Json.Piece.ofString s))
  | .bytes content => some (.array (content.toList.map fun b => .number (.whole false b.toNat)))
  | .absent => some .null
  | .present d => d.document?
  | .unit => some .null
  | .newtype d => d.document?
  | .list items => (documents? items).map .array
  | .map entries => (entryDocuments? entries).map .object
  | .record fields => (fieldDocuments? fields).map .object
  | .unitVariant name => some (.string (Json.Piece.ofString name))
  | .variant name payload => payload.document?.map fun d => .object [(Json.Piece.ofString name, d)]
  | .refused _ => none

def documents? : List Datum → Option (List Json.Document)
  | [] => some []
  | d :: rest => do
      let first ← d.document?
      let others ← documents? rest
      some (first :: others)

def entryDocuments? : List (Datum × Datum) → Option (List (List Json.Piece × Json.Document))
  | [] => some []
  | (key, value) :: rest => do
      let k ← key.keyText?
      let v ← value.document?
      let others ← entryDocuments? rest
      some ((Json.Piece.ofString k, v) :: others)

def fieldDocuments? : List (String × Datum) → Option (List (List Json.Piece × Json.Document))
  | [] => some []
  | (name, value) :: rest => do
      let v ← value.document?
      let others ← fieldDocuments? rest
      some ((Json.Piece.ofString name, v) :: others)

end

/-- Whether the key of one map entry stands before another. -/
def keyBefore : Datum → Datum → Bool
  | .bool a, .bool b => !a && b
  | .int _ a, .int _ b => a < b
  | .char a, .char b => a < b
  | .text a, .text b => a < b
  | .newtype a, .newtype b => keyBefore a b
  | .absent, .present _ => true
  | .present a, .present b => keyBefore a b
  | _, _ => false

/-- Puts an entry into a map in the order of its keys; an entry with an equal key is replaced. -/
def insertEntry (key value : Datum) : List (Datum × Datum) → List (Datum × Datum)
  | [] => [(key, value)]
  | (k, v) :: rest =>
      if keyBefore key k then (key, value) :: (k, v) :: rest
      else if keyBefore k key then (k, v) :: insertEntry key value rest
      else (key, value) :: rest

/-- A map of entries, of which a later one replaces an earlier one with an equal key. -/
def mapOf (entries : List (Datum × Datum)) : Datum :=
  .map (entries.foldl (fun acc (key, value) => insertEntry key value acc) [])

end Datum

end RecordTables
