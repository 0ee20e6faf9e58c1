import RecordTables.Record.Decode
import RecordTables.Record.Registry

/-!
# Finding the columns of a record

A record is read from made-up values, and each field shows by what it asks for which storage class its column
needs.  Values inside compound fields are made up too, so that checks inside see something, but only the fields
of the record itself get columns.  A registered sample comes before any made-up value.
-/

namespace RecordTables

/-- What a field asked for: the value that it made of what it got, the storage class, and whether NULL is one of
its values.  A field that asked for nothing in particular has no storage class. -/
structure Probed where
  value : Datum
  type : Option ColumnType
  nullable : Bool

namespace Probed

/-- A field that asked for a storage class and got a value of it. -/
def shaped (type : ColumnType) (value : Datum) : Outcome Probed := .ok ⟨value, some type, false⟩

/-- No value can be made up. -/
def unshaped {α : Type} : Outcome α := .error (.serialization (.other "no value can be made up"))

def map (f : Datum → Datum) (p : Probed) : Probed := { p with value := f p.value }

end Probed

namespace Shape

open Probed (shaped unshaped)

/-- The text that is made up. -/
def probeText : String := "probe"

/-- The value and the column of a part, given what probing its shape yields.  Whatever goes wrong inside is put
down to the innermost part for which a sample would help. -/
def settle (registry : Registry) (key : String) (optional : Bool) (decode : Cell → Outcome Datum)
    (probed : Outcome Probed) : Outcome (Datum × Column) :=
  match registry.lookup key with
  | some sample => do
      let value ← decode ⟨"placeholder", sample.value⟩
      .ok (value, ⟨sample.type, optional⟩)
  | none =>
      match probed with
      | .ok p =>
          match p.type with
          | some type => .ok (p.value, ⟨type, p.nullable⟩)
          | none => .error (.missingPlaceholder key)
      | .error (.missingPlaceholder inner) => .error (.missingPlaceholder inner)
      | .error _ => .error (.missingPlaceholder key)

/-- The value and the column of a part of the record `around`, by its shape. -/
def settleShape (registry : Registry) (around s : Shape) (probed : Outcome Probed) :
    Outcome (Datum × Column) :=
  settle registry s.key.1 s.key.2 (fun cell => decodeField around cell s) probed

/-- A field, its made-up value and its column; a field that is not read has none. -/
abbrev ProbedField := Field × Datum × Option Column

/-- The fields of a record with their made-up values. -/
def probedValues (fields : List ProbedField) : List (Field × Datum) := fields.map fun (f, d, _) => (f, d)

/-- The columns of the fields that are read, under the names that they are read by. -/
def probedColumns (fields : List ProbedField) : List (String × Column) :=
  fields.filterMap fun (f, _, column) => column.map fun c => (f.name, c)

/-- What an adjacently tagged variant carries, from a sample; a unit if it carries nothing. -/
def contentOf (around : Shape) (name : TypeName) (variant : String) (payload : Payload) (cell : Cell) :
    Outcome Datum :=
  return (← decodeContent around cell name variant payload).getD .unit

/-- The value and the column of what an adjacently tagged variant carries.  It goes by the name of the whole type. -/
def settleContent (registry : Registry) (around : Shape) (name : TypeName) (variant : String) (payload : Payload)
    (probed : Outcome Probed) : Outcome (Datum × Column) :=
  let key := placeholderKey name.text
  settle registry key.1 key.2 (contentOf around name variant payload) probed

mutual

/-- Makes up a value of a shape within the record `around`. -/
def probe (registry : Registry) (around : Shape) : Shape → Outcome Probed
  | .bool => shaped .integer (.bool true)
  | .int type => if type.storable then shaped .integer (.int type 1) else unshaped
  | .single => shaped .real (.single (Double.ofInt 1).narrow)
  | .double => shaped .real (.double (.ofInt 1))
  | .char => shaped .text (.char 'x')
  | .text => shaped .text (.text probeText)
  | .bytes _ => shaped .blob (.bytes .empty)
  | .unit _ => shaped .text .unit
  | .option content => do
      let p ← probe registry around content
      .ok { p.map .present with nullable := true }
  | .box content => probe registry around content
  | .transparent _ content => probe registry around content
  | .newtype _ content => return (← probe registry around content).map .newtype
  | .list _ => shaped .text (.list [])
  | .array item length =>
      if length = 0 then shaped .text (.list [])
      else do
        let (d, _) ← settleShape registry around item (probe registry around item)
        shaped .text (.list (List.replicate length d))
  | .tuple items => do shaped .text (.list (← probeItems registry around items))
  | .tupleStruct _ items => do shaped .text (.list (← probeItems registry around items))
  | .map _ _ => shaped .text (.map [])
  | .record name strict fields => do
      let values ← probeFields registry (.record name strict fields) fields
      shaped .text (.record (presentedFields (probedValues values)))
  | .enclosing _ => unshaped
  | .choice _ [] => unshaped
  | .choice _ ((variant, payload) :: _) => do
      let carried ← probePayload registry around payload
      shaped .text (payload.datum variant carried)
  | .adjacent _ _ _ [] => unshaped
  | .adjacent name tag content ((variant, payload) :: _) => do
      let carried ← settleContent registry around name variant payload (probeContent registry around payload)
      shaped .text (adjacentRecord tag content variant (some carried.1))
  | .tagged _ _ _ => unshaped
  | .untagged _ _ => unshaped
  | .anything _ => unshaped
  | .checked _ content refusal => do
      let p ← probe registry around content
      let value ← p.value.pass refusal
      .ok { p with value }
  | .guarded _ content refusal => return (← probe registry around content).map (Datum.presented refusal)
  | .ignored _ => .ok ⟨.unit, none, false⟩
  | .label _ => .ok ⟨.text probeText, none, false⟩
  | .pairs _ _ _ => shaped .text (.map [])
  | .flattened _ fields =>
      match completeFields [] fields with
      | some values => shaped .text (.map ((presentedFields values).map fun (name, d) => (.text name, d)))
      | none => unshaped

/-- Makes up the items of a tuple, each on its own. -/
def probeItems (registry : Registry) (around : Shape) : List Shape → Outcome (List Datum)
  | [] => .ok []
  | s :: rest => do
      let (d, _) ← settleShape registry around s (probe registry around s)
      let others ← probeItems registry around rest
      .ok (d :: others)

/-- Makes up the fields of a record, each on its own.  A field with a second name is made up once more, and that
is one time too many. -/
def probeFields (registry : Registry) (around : Shape) : List (Field × Shape) → Outcome (List ProbedField)
  | [] => .ok []
  | (f, s) :: rest => do
      let (d, column) ← match f.constant with
        | some d => .ok (d, none)
        | none => do
            let (d, column) ← settleShape registry around s (probe registry around s)
            if f.names.length = 1 then .ok (d, some column)
            else .error (.serialization (.duplicateField f.name))
      let others ← probeFields registry around rest
      .ok ((f, d, column) :: others)

/-- Makes up what a variant carries: each of its parts on its own. -/
def probePayload (registry : Registry) (around : Shape) : Payload → Outcome Datum
  | .unit => .ok .unit
  | .newtype content => return (← settleShape registry around content (probe registry around content)).1
  | .tuple items => return .list (← probeItems registry around items)
  | .fields fields => do
      let values ← probeFields registry around fields
      .ok (.record (presentedFields (probedValues values)))

/-- Makes up the content of an adjacently tagged variant.  One that carries nothing would have to know what it
reads, and cannot be made up. -/
def probeContent (registry : Registry) (around : Shape) : Payload → Outcome Probed
  | .unit => unshaped
  | .newtype content => probe registry around content
  | .tuple items => do shaped .text (.list (← probeItems registry around items))
  | .fields fields => do
      let values ← probeFields registry around fields
      shaped .text (.record (presentedFields (probedValues values)))

end

/-- A made-up record and the columns of its fields, in order. -/
def probeRecord (registry : Registry) : Shape → Outcome (Datum × List (String × Column))
  | .record name strict fields => do
      let values ← probeFields registry (.record name strict fields) fields
      .ok (.record (presentedFields (probedValues values)), probedColumns values)
  | .adjacent _ _ _ [] => unshaped
  | .adjacent name tag content ((variant, payload) :: rest) => do
      let around := Shape.adjacent name tag content ((variant, payload) :: rest)
      let (carried, column) ← settleContent registry around name variant payload (probeContent registry around payload)
      .ok (adjacentRecord tag content variant (some carried), [(tag, ⟨.text, false⟩), (content, column)])
  | .box s => probeRecord registry s
  | .transparent _ s => probeRecord registry s
  | .checked _ s refusal => do
      let (d, columns) ← probeRecord registry s
      let value ← d.pass refusal
      .ok (value, columns)
  | _ => .error (.notRepresentable .readsWithoutFields)

end Shape

end RecordTables
