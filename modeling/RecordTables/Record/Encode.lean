import RecordTables.Row
import RecordTables.Schema.Table
import RecordTables.Record.Datum

/-!
# Writing records into rows

A scalar field becomes a value of its own kind, a missing one NULL, a variant that carries nothing its name.  All
else becomes the text of its document.
-/

namespace RecordTables

namespace Datum

/-- The text of the document of a datum. -/
def documentText (d : Datum) : Outcome Value :=
  match d.document? with
  | some document => .ok (.text document.text)
  | none => .error .json

/-- The value of a field. -/
def encodeField : Datum → Outcome Value
  | .bool b => .ok (.ofBool b)
  | .int type n =>
      if type.storable then
        match Value.ofInt? n with
        | some v => .ok v
        | none => .error (.notRepresentable (.tooLarge n))
      else .error (.serialization (.unsupported type.name))
  | .single x => .ok (.real x.widen)
  | .double x => .ok (.real x)
  | .char c => .ok (.text (String.singleton c))
  | .text s => .ok (.text s)
  | .bytes content => .ok (.blob content)
  | .absent => .ok .null
  | .present d => d.encodeField
  | .newtype d => d.encodeField
  | .unitVariant name => .ok (.text name)
  | .refused why => .error (.serialization (.refused why))
  | .unit => documentText .unit
  | .list items => documentText (.list items)
  | .map entries => documentText (.map entries)
  | .record fields => documentText (.record fields)
  | .variant name payload => documentText (.variant name payload)

/-- Sets one entry of a row per field, in order; the first field that has no value decides the error. -/
def encodeFields (row : Row) : List (String × Datum) → Outcome Row
  | [] => .ok row
  | (name, d) :: rest => do
      let value ← d.encodeField
      encodeFields (row.set name value) rest

/-- The row of a record in a table.  The columns of the table that take NULL come first, and stay NULL if the
record does not write them. -/
def encodeWith (table : TableDefinition) : Datum → Outcome Row
  | .record fields => encodeFields (Row.ofList (table.nullableColumns.map fun name => (name, .null))) fields
  | .refused why => .error (.serialization (.refused why))
  | .int type _ =>
      if type.storable then .error (.notRepresentable .writesWithoutFields)
      else .error (.serialization (.unsupported type.name))
  | _ => .error (.notRepresentable .writesWithoutFields)

end Datum

end RecordTables
