import RecordTables.Record.Shape
import RecordTables.Json.Skip

/-!
# Reading fields

A record is read from an object, whose entries may stand in any order, or from the list of its fields.  How the
parts are read is a parameter.
-/

namespace RecordTables.Shape

open RecordTables.Json (Document Piece)

/-- The value of a field that a document leaves out: only an option has one. -/
def missing? : Shape → Option Datum
  | .option _ => some .absent
  | .box content => content.missing?
  | .transparent _ content => content.missing?
  | _ => none

/-- The values of the known fields of an object.  Every other entry has to pass `unknown`. -/
def collectFields (read : Shape → Document → Option Datum) (unknown : Document → Bool)
    (fields : List (Field × Shape)) :
    List (List Piece × Document) → List (String × Datum) → Option (List (String × Datum))
  | [], found => some found
  | (key, d) :: rest, found => do
      let name ← Piece.text? key
      match fields.find? fun (f, _) => f.names.contains name with
      | some (f, s) =>
          guard (found.lookup f.name).isNone
          let value ← read s d
          collectFields read unknown fields rest ((f.name, value) :: found)
      | none =>
          guard (unknown d)
          collectFields read unknown fields rest found

/-- All fields in order, given the values that were found. -/
def completeFields (found : List (String × Datum)) : List (Field × Shape) → Option (List (Field × Datum))
  | [] => some []
  | (f, s) :: rest => do
      let value ← f.constant <|> found.lookup f.name <|> f.default <|> s.missing?
      let others ← completeFields found rest
      some ((f, value) :: others)

/-- All fields from items in the same order; the items may run out before fields that have a default. -/
def orderedFields (read : Shape → Document → Option Datum) :
    List (Field × Shape) → List Document → Option (List (Field × Datum))
  | [], [] => some []
  | [], _ :: _ => none
  | (f, s) :: rest, items =>
      match f.constant, items with
      | some d, items => do
          let others ← orderedFields read rest items
          some ((f, d) :: others)
      | none, item :: items => do
          let value ← read s item
          let others ← orderedFields read rest items
          some ((f, value) :: others)
      | none, [] => do
          let value ← f.default
          let others ← orderedFields read rest []
          some ((f, value) :: others)

/-- The fields of an object. -/
def objectFields (read : Shape → Document → Option Datum) (unknown : Document → Bool)
    (fields : List (Field × Shape)) (entries : List (List Piece × Document)) :
    Option (List (String × Datum)) := do
  let found ← collectFields read unknown fields entries []
  let complete ← completeFields found fields
  some (presentedFields complete)

/-- Reads a record from an object or from the list of its fields. -/
def readRecord? (read : Shape → Document → Option Datum) (strict : Bool)
    (fields : List (Field × Shape)) : Document → Option Datum
  | .object entries =>
      (objectFields read (fun d => !strict && d.skippable) fields entries).map .record
  | .array items => (orderedFields read fields items).map fun values => .record (presentedFields values)
  | _ => none

end RecordTables.Shape
