import RecordTables.Row
import RecordTables.Text.Blank
import RecordTables.Text.Quoted
import RecordTables.Record.Read

/-!
# Reading records from rows

A field asks its column for a value of its own kind.  Numbers and texts stand in for each other as long as nothing
is lost; compound fields read the document that the column holds.  A row fills a record field by field, in the
order in which the record declares them.
-/

namespace RecordTables

/-- A stored value under the name of its column. -/
structure Cell where
  column : String
  value : Value

namespace Cell

variable (cell : Cell)

/-- The column holds a storage class that does not serve. -/
def unexpected {α : Type} (expected : String) : Outcome α :=
  .error (.serialization (.unexpected cell.column expected cell.value.columnType?))

def outOfRange {α : Type} (shown target : String) : Outcome α :=
  .error (.notRepresentable (.outOfRange cell.column shown target))

/-- An integer of eight bytes: stored as such, as an integral number or as a text of digits. -/
def integer : Outcome Int :=
  match cell.value with
  | .int n => .ok n.toInt
  | .real x =>
      match x.toInt? with
      | some n => if IntType.i64.holds n then .ok n else cell.outOfRange x.text IntType.i64.name
      | none => cell.unexpected "integer"
  | .text s =>
      match (readInteger? (Text.trimBlank s.toList)).filter IntType.i64.holds with
      | some n => .ok n
      | none => cell.unexpected "integer"
  | _ => cell.unexpected "integer"

/-- An integer of a given type. -/
def integerOf (t : IntType) : Outcome Int := do
  let n ← cell.integer
  if t.holds n then .ok n else cell.outOfRange (integerText n) t.name

/-- A real number: stored as such, as an integer or as a text. -/
def real : Outcome Double :=
  match cell.value with
  | .real x => .ok x
  | .int n => .ok (.ofInt n.toInt)
  | .text s =>
      match Double.ofText? (Text.trimBlank s.toList) with
      | some x => .ok x
      | none => cell.unexpected "real"
  | _ => cell.unexpected "real"

/-- A text: numbers in digits, and bytes if they are well formed. -/
def text : Outcome String :=
  match cell.value with
  | .text s => .ok s
  | .int n => .ok (integerText n.toInt)
  | .real x => .ok x.text
  | .blob bytes =>
      match String.fromUTF8? bytes with
      | some s => .ok s
      | none => cell.unexpected "UTF-8 text"
  | .null => cell.unexpected "text"

/-- A text of one character. -/
def char : Outcome Char := do
  let s ← cell.text
  match onlyChar? s.toList with
  | some c => .ok c
  | none => cell.unexpected "single character"

/-- Bytes, also those of a text. -/
def bytes : Outcome ByteArray :=
  match cell.value with
  | .blob bytes => .ok bytes
  | .text s => .ok s.toUTF8
  | _ => cell.unexpected "bytes"

/-- The value of the document that the column holds, for a part of a record. -/
def document (around s : Shape) : Outcome Datum := do
  let symbols ← match cell.value with
    | .text s => .ok (Text.Symbol.ofString s)
    | .blob bytes => .ok (Text.Symbol.ofBytes bytes.toList)
    | _ => cell.unexpected "JSON text"
  match (Json.Document.parse? symbols).bind (Shape.readIn? around s) with
  | some d => .ok d
  | none => .error .json

end Cell

/-- A value as messages show it. -/
def Value.shown : Value → String
  | .null => "unit value"
  | .int n => "integer `" ++ integerText n.toInt ++ "`"
  | .real x => "floating point `" ++ x.text ++ (if x.isFinite && !x.text.contains '.' then ".0" else "") ++ "`"
  | .text s => "string " ++ Text.display s
  | .blob _ => "byte array"

/-- Refuses a value for what was expected. -/
def Value.invalidFor {α : Type} (v : Value) (expected : String) : Outcome α :=
  .error (.serialization (.invalidType v.shown expected))

/-- The datum that a scalar makes of a stored value, if it takes it. -/
def Scalar.ofValue? : Scalar → Value → Option Datum
  | .int64, .int n => some (.int .i64 n.toInt)
  | .double, .real x => some (.double x)
  | .double, .int n => some (.double (.ofInt n.toInt))
  | .text, .text s => some (.text s)
  | .text, .blob bytes => (String.fromUTF8? bytes).map .text
  | _, _ => none

/-- A stored value as a document of the most general type. -/
def Value.general? : Value → Option Datum
  | .null => some .unit
  | .int n => some (.int (if n < 0 then .i64 else .u64) n.toInt)
  | .real x => some (if x.isFinite then .double x else .unit)
  | .text s => some (.text s)
  | .blob _ => none

/-- A value that a check lets pass. -/
def Datum.pass (refusal : Datum → Option String) (d : Datum) : Outcome Datum :=
  match refusal d with
  | some why => .error (.serialization (.refused why))
  | none => .ok d

namespace Shape

/-- A variant told by its bare name, which has to be one that carries nothing. -/
def decodeBareVariant (name : String) : Payload → Outcome Datum
  | .unit => .ok (.unitVariant name)
  | payload => .error (.serialization (.bareVariant payload.form))

/-- The value of a field of the record `around`. -/
def decodeField (around : Shape) (cell : Cell) : Shape → Outcome Datum
  | .bool => return .bool ((← cell.integer) != 0)
  | .int type =>
      if type.storable then return .int type (← cell.integerOf type)
      else .error (.serialization (.unsupported type.name))
  | .single => return .single (← cell.real).narrow
  | .double => return .double (← cell.real)
  | .char => return .char (← cell.char)
  | .text => return .text (← cell.text)
  | .label _ => return .text (← cell.text)
  | .bytes _ => return .bytes (← cell.bytes)
  | .option content =>
      if cell.value.isNull then .ok .absent else return .present (← decodeField around cell content)
  | .box content => decodeField around cell content
  | .transparent _ content => decodeField around cell content
  | .newtype _ content => return .newtype (← decodeField around cell content)
  | .choice name variants =>
      match cell.value with
      | .text s =>
          match variants.lookup s with
          | some payload => decodeBareVariant s payload
          | none => cell.document around (.choice name variants)
      | _ => cell.document around (.choice name variants)
  | .tagged name _ _ => cell.value.invalidFor ("internally tagged enum " ++ name.short)
  | .untagged name alternatives =>
      match alternatives.findSome? fun a => a.ofValue? cell.value with
      | some d => .ok d
      | none => .error (.serialization (.noAlternative name.short))
  | .anything _ =>
      match cell.value.general? with
      | some d => .ok d
      | none => cell.value.invalidFor "any valid JSON value"
  | .checked _ content refusal => do (← decodeField around cell content).pass refusal
  | .guarded _ content refusal => return (← decodeField around cell content).presented refusal
  | .ignored _ => .ok .unit
  | s => cell.document around s

/-- The cell of a row under a name. -/
def cellOf (row : Row) (name : String) : Outcome Cell :=
  match row.get? name with
  | some value => .ok ⟨name, value⟩
  | none => .error (.columnNotFound name)

/-- The fields of the record `around`, in order.  A field with a second name is asked for once more, and that is
one time too many. -/
def decodeFields (around : Shape) (row : Row) : List (Field × Shape) → Outcome (List (Field × Datum))
  | [] => .ok []
  | (f, s) :: rest => do
      let value ← match f.constant, f.names with
        | some d, _ => .ok d
        | none, [] => .error (.serialization (.missingField f.name))
        | none, [name] => do decodeField around (← cellOf row name) s
        | none, name :: _ :: _ => do
            let _ ← decodeField around (← cellOf row name) s
            .error (.serialization (.duplicateField f.name))
      let others ← decodeFields around row rest
      .ok ((f, value) :: others)

/-- What an adjacently tagged variant carries, from the column of its content. -/
def decodeContent (around : Shape) (cell : Cell) (name : TypeName) (variant : String) :
    Payload → Outcome (Option Datum)
  | .unit =>
      if cell.value.isNull then .ok none
      else cell.value.invalidFor ("unit variant " ++ name.short ++ "::" ++ variant)
  | payload => return some (← decodeField around cell (payload.shape name))

/-- An adjacently tagged variant from the columns of its tag and its content. -/
def decodeAdjacent (row : Row) (name : TypeName) (tag content : String) (variants : List (String × Payload)) :
    Outcome Datum := do
  let around := Shape.adjacent name tag content variants
  match ← decodeField around (← cellOf row tag) (.choice name (bareVariants variants)) with
  | .unitVariant variant =>
      match variants.lookup variant with
      | some payload => do
          let carried ← decodeContent around (← cellOf row content) name variant payload
          .ok (adjacentRecord tag content variant carried)
      | none => .error .json
  | _ => .error .json

/-- The record that a row holds. -/
def decodeRow (row : Row) : Shape → Outcome Datum
  | .record name strict fields =>
      return .record (presentedFields (← decodeFields (.record name strict fields) row fields))
  | .adjacent name tag content variants => decodeAdjacent row name tag content variants
  | .box s => decodeRow row s
  | .transparent _ s => decodeRow row s
  | .checked _ s refusal => do (← decodeRow row s).pass refusal
  | _ => .error (.notRepresentable .rowWithoutFields)

end Shape

end RecordTables
