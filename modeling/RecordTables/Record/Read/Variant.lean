import RecordTables.Record.Read.Key
import RecordTables.Record.Read.Fields

/-!
# Reading variants

A variant is told by its name, by a tag beside its content, by a tag among its fields, or by the first alternative
that takes the value.  How the parts are read is a parameter.
-/

namespace RecordTables

open RecordTables.Json (Document Piece)

/-- The variants of a type, each without what it carries. -/
def bareVariants (variants : List (String × Payload)) : List (String × Payload) :=
  variants.map fun (name, _) => (name, .unit)

namespace Payload

/-- What a variant carries, as a shape of its own. -/
def shape (name : TypeName) : Payload → Shape
  | .unit => .unit name
  | .newtype content => content
  | .tuple items => .tuple items
  | .fields parts => .record name false parts

/-- A variant with what it carries. -/
def datum (name : String) : Payload → Datum → Datum
  | .unit, _ => .unitVariant name
  | _, d => .variant name d

end Payload

namespace Shape

/-- Reads a variant by its bare name, or by an object with one entry. -/
def readChoice? (read : Shape → Document → Option Datum) (name : TypeName)
    (variants : List (String × Payload)) : Document → Option Datum
  | .object [(key, d)] => do
      let variant ← Piece.text? key
      let payload ← variants.lookup variant
      let value ← read (payload.shape name) d
      some (payload.datum variant value)
  | _ => none

/-- Reads a bare name of a variant. -/
def readBareVariant? (variants : List (String × Payload)) (pieces : List Piece) : Option Datum := do
  let name ← Piece.text? pieces
  match variants.lookup name with
  | some .unit => some (.unitVariant name)
  | _ => none

/-- The record of an adjacently tagged variant. -/
def adjacentRecord (tag content : String) (name : String) (carried : Option Datum) : Datum :=
  .record ((tag, .unitVariant name) :: match carried with
    | some d => [(content, d)]
    | none => [])

/-- The content of an adjacently tagged variant, given the document under the content key. -/
def readContent? (read : Shape → Document → Option Datum) (name : TypeName) (payload : Payload)
    (d : Option Document) : Option (Option Datum) :=
  match payload, d with
  | .unit, none => some none
  | .unit, some d => (read (.unit name) d).map fun _ => none
  | .newtype content, none => content.missing?.map some
  | _, none => none
  | payload, some d => (read (payload.shape name) d).map some

/-- The documents under the two keys of an adjacently tagged variant; other entries are skipped. -/
def adjacentEntries (tag content : String) :
    List (List Piece × Document) → Option Document → Option Document → Option (Option Document × Option Document)
  | [], t, c => some (t, c)
  | (key, d) :: rest, t, c => do
      let name ← Piece.text? key
      if name = tag then
        guard t.isNone
        adjacentEntries tag content rest (some d) c
      else if name = content then
        guard c.isNone
        adjacentEntries tag content rest t (some d)
      else
        guard d.skippable
        adjacentEntries tag content rest t c

/-- Reads an adjacently tagged variant from an object, or from the list of tag and content. -/
def readAdjacent? (read : Shape → Document → Option Datum) (name : TypeName) (tag content : String)
    (variants : List (String × Payload)) (document : Document) : Option Datum := do
  let (t, c) ← match document with
    | .object entries => adjacentEntries tag content entries none none
    | .array [t, c] => some (some t, some c)
    | _ => none
  match ← read (.choice name (bareVariants variants)) (← t) with
  | .unitVariant variant => do
      let payload ← variants.lookup variant
      let carried ← readContent? read name payload c
      some (adjacentRecord tag content variant carried)
  | _ => none

/-- Splits the entries of an object into the one under the tag and all others, whose values have to be
documents of the most general type. -/
def splitTag (read : Shape → Document → Option Datum) (name : TypeName) (tag : String) :
    List (List Piece × Document) → Option (Option Document × List (List Piece × Document))
  | [] => some (none, [])
  | (key, d) :: rest => do
      let (found, others) ← splitTag read name tag rest
      let text ← Piece.text? key
      if text = tag then
        guard found.isNone
        some (some d, others)
      else
        let _ ← read (.anything name) d
        some (found, (key, d) :: others)

/-- The variant that the document of a tag names. -/
def namedVariant? (variants : List (String × Payload)) : Document → Option (String × Payload)
  | .string pieces => do
      let name ← Piece.text? pieces
      let payload ← variants.lookup name
      some (name, payload)
  | _ => none

/-- Reads a variant with a tag among its fields, or in front of them in a list. -/
def readTagged? (read : Shape → Document → Option Datum) (name : TypeName) (tag : String)
    (variants : List (String × Payload)) : Document → Option Datum
  | .object entries => do
      let (found, others) ← splitTag read name tag entries
      let (variant, payload) ← namedVariant? variants (← found)
      match payload with
      | .unit => some (.record [(tag, .text variant)])
      | .fields fields => do
          let values ← objectFields read Document.skippable fields others
          some (.record ((tag, .text variant) :: values))
      | _ => none
  | .array (first :: items) => do
      let (variant, payload) ← namedVariant? variants first
      let _ ← items.mapM (read (.anything name))
      match payload with
      | .unit => some (.record [(tag, .text variant)])
      | .fields fields => do
          let values ← orderedFields read fields items
          some (.record ((tag, .text variant) :: presentedFields values))
      | _ => none
  | _ => none

/-- The first of several scalars that takes a document. -/
def readUntagged? : List Scalar → Document → Option Datum
  | [], _ => none
  | scalar :: rest, d =>
      let value : Option Datum := match scalar, d with
        | .int64, .number n => (IntType.i64.read? n).map (.int .i64)
        | .double, .number n => n.double?.map .double
        | .text, .string pieces => (Piece.text? pieces).map .text
        | _, _ => none
      value <|> readUntagged? rest d

end Shape

end RecordTables
