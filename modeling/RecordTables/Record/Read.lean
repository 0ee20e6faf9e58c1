import RecordTables.Record.Read.Variant

/-!
# Reading documents by shape

`Shape.read?` gives the value that a document stands for, or nothing if the document does not fit.  Entering an
array or an object takes one of 127 levels; what is skipped takes none.
-/

namespace RecordTables.Shape

open RecordTables.Json (Document Piece)

/-- The most general number: an integer if it is one of eight bytes, else a double. -/
def generalNumber? (n : Json.Number) : Option Datum :=
  match n.int? with
  | some k => some (.int (if k < 0 then .i64 else .u64) k)
  | none => n.double?.map .double

/-- Reads the entries of a map. -/
def readEntries? (readKey : List Piece → Option Datum) (readValue : Document → Option Datum)
    (entries : List (List Piece × Document)) : Option Datum := do
  let values ← entries.mapM fun (key, d) => do
    let k ← readKey key
    let v ← readValue d
    some (k, v)
  some (Datum.mapOf values)

/-- A list of pairs as the map that it presents itself as. -/
def doubledPairs (items : List Datum) : Datum :=
  .map (items.filterMap fun
    | .list [key, value] => some (.list [key, key], value)
    | _ => none)

/-- Reads the parts of a document: the record around it, its shape, the part. -/
abbrev PartReader := Shape → Shape → Document → Option Datum

/-- Reads a document by its shape.  `deeper` reads what stands one level deeper; without it no level may be
entered any more.  `around` is the innermost record. -/
def readWith (deeper : Option PartReader) (around : Shape) : Shape → Document → Option Datum
  | .bool, .bool b => some (.bool b)
  | .int type, .number n => (type.read? n).map (.int type)
  | .single, .number n => n.single?.map .single
  | .double, .number n => n.double?.map .double
  | .char, .string pieces => (Piece.chars? pieces).bind fun cs => (onlyChar? cs).map .char
  | .text, .string pieces => (Piece.text? pieces).map .text
  | .label _, .string pieces => (Piece.text? pieces).map .text
  | .bytes _, .string pieces => some (.bytes ⟨(Piece.bytes pieces).toArray⟩)
  | .bytes _, .array items => deeper.bind fun _ => (byteItems? items).map fun bs => .bytes ⟨bs.toArray⟩
  | .unit _, .null => some .unit
  | .option _, .null => some .absent
  | .option content, d => (readWith deeper around content d).map .present
  | .box content, d => readWith deeper around content d
  | .transparent _ content, d => readWith deeper around content d
  | .newtype _ content, d => (readWith deeper around content d).map .newtype
  | .list item, .array items => deeper.bind fun read => (items.mapM (read around item)).map .list
  | .array item length, .array items => deeper.bind fun read =>
      if items.length = length then (items.mapM (read around item)).map .list else none
  | .tuple shapes, .array items => deeper.bind fun read =>
      if items.length = shapes.length then
        ((shapes.zip items).mapM fun (s, d) => read around s d).map .list
      else none
  | .tupleStruct _ shapes, .array items => deeper.bind fun read =>
      if items.length = shapes.length then
        ((shapes.zip items).mapM fun (s, d) => read around s d).map .list
      else none
  | .map key value, .object entries => deeper.bind fun read =>
      readEntries? (fun k => readKey? k key) (read around value) entries
  | .record name strict fields, d => deeper.bind fun read =>
      readRecord? (read (.record name strict fields)) strict fields d
  | .enclosing _, d =>
      match around with
      | .record name strict fields => deeper.bind fun read =>
          readRecord? (read (.record name strict fields)) strict fields d
      | _ => none
  | .choice _ variants, .string pieces => readBareVariant? variants pieces
  | .choice name variants, d => deeper.bind fun read => readChoice? (read around) name variants d
  | .adjacent name tag content variants, d => deeper.bind fun read =>
      readAdjacent? (read around) name tag content variants d
  | .tagged name tag variants, d => deeper.bind fun read => readTagged? (read around) name tag variants d
  | .untagged _ alternatives, d => readUntagged? alternatives d
  | .anything _, .null => some .unit
  | .anything _, .bool b => some (.bool b)
  | .anything _, .number n => generalNumber? n
  | .anything _, .string pieces => (Piece.text? pieces).map .text
  | .anything name, .array items => deeper.bind fun read =>
      (items.mapM (read around (.anything name))).map .list
  | .anything name, .object entries => deeper.bind fun read =>
      readEntries? (fun k => (Piece.text? k).map .text) (read around (.anything name)) entries
  | .checked _ content refusal, d =>
      (readWith deeper around content d).bind fun value =>
        if (refusal value).isSome then none else some value
  | .guarded _ content refusal, d =>
      (readWith deeper around content d).map (Datum.presented refusal)
  | .ignored _, d => if d.skippable then some .unit else none
  | .pairs _ key value, .array items => deeper.bind fun read =>
      (items.mapM (read around (.tuple [key, value]))).map doubledPairs
  | .flattened name fields, .object entries => deeper.bind fun read =>
      (objectFields (read around) (fun d => (read around (.anything name) d).isSome) fields entries).map
        fun values => .map (values.map fun (field, d) => (.text field, d))
  | _, _ => none

/-- Reads a document that may enter as many further levels. -/
def readLevels : Nat → PartReader
  | 0 => readWith none
  | levels + 1 => readWith (some (readLevels levels))

/-- The greatest count of levels. -/
def maxLevels : Nat := 127

/-- The value of a document for a part of the record `around`. -/
def readIn? (around s : Shape) (d : Document) : Option Datum := readLevels maxLevels around s d

/-- The value of a document that stands alone. -/
def read? (s : Shape) (d : Document) : Option Datum := readIn? s s d

end RecordTables.Shape
