import RecordTables.Value

/-!
# What can go wrong

Each error names its cause; `Error.message` is the only place where causes are put into words.
-/

namespace RecordTables

/-- Why something has no stored form. -/
inductive Unrepresentable where
  /-- An unsigned integer beyond eight signed bytes. -/
  | tooLarge (n : Int)
  /-- A stored number outside the type that a field asks for. -/
  | outOfRange (column shown target : String)
  /-- A sample that is stored as NULL tells nothing about its type. -/
  | emptySample (key : String)
  /-- A type that does not read as named fields has no columns. -/
  | readsWithoutFields
  /-- A type that does not write named fields makes no row. -/
  | writesWithoutFields
  /-- A row fills nothing but named fields. -/
  | rowWithoutFields
  | other (text : String)
  deriving DecidableEq, Repr

/-- Why a value and the type that it meets do not fit. -/
inductive Mismatch where
  /-- A column holds a storage class that the field cannot take; `none` is NULL. -/
  | unexpected (column expected : String) (found : Option ColumnType)
  /-- An integer type without a stored form. -/
  | unsupported (type : String)
  /-- One field under two names. -/
  | duplicateField (name : String)
  | missingField (name : String)
  /-- A bare variant name for a variant that carries data of the given form. -/
  | bareVariant (form : String)
  /-- A value that none of the alternatives of a type takes. -/
  | noAlternative (type : String)
  /-- A value of a kind that the type does not take. -/
  | invalidType (found expected : String)
  /-- The refusal of a type's own check. -/
  | refused (text : String)
  | other (text : String)
  deriving DecidableEq, Repr

/-- Everything that can go wrong between a record and the store. -/
inductive Error where
  | engine (code : Int) (text : String)
  | invalidColumns (names : List String)
  | missingPlaceholder (key : String)
  | columnNotFound (name : String)
  | noPrimaryKey (table : String)
  | notRepresentable (why : Unrepresentable)
  | schemaMismatch (table : String)
  | json
  | serialization (why : Mismatch)
  deriving DecidableEq, Repr

def Unrepresentable.message : Unrepresentable → String
  | .tooLarge n => s!"{n} exceeds i64::MAX"
  | .outOfRange column shown target => s!"column '{column}': {shown} out of range for {target}"
  | .emptySample key => s!"placeholder for {key} encodes as NULL"
  | .readsWithoutFields => "records must deserialize as structs with named fields"
  | .writesWithoutFields => "records must serialize as structs with named fields"
  | .rowWithoutFields => "rows decode only into structs with named fields"
  | .other text => text

def Mismatch.message : Mismatch → String
  | .unexpected column expected found =>
      let actual := (found.map ColumnType.keyword).getD "NULL"
      s!"column '{column}': expected {expected}, found {actual}"
  | .unsupported type => s!"{type} is not supported"
  | .duplicateField name => s!"duplicate field `{name}`"
  | .missingField name => s!"missing field `{name}`"
  | .bareVariant form => s!"invalid type: unit variant, expected {form}"
  | .noAlternative type => s!"data did not match any variant of untagged enum {type}"
  | .invalidType found expected => s!"invalid type: {found}, expected {expected}"
  | .refused text => text
  | .other text => text

namespace Error

/-- The name of the kind of an error. -/
def code : Error → String
  | .engine .. => "EngineError"
  | .invalidColumns _ => "InvalidColumns"
  | .missingPlaceholder _ => "MissingPlaceholder"
  | .columnNotFound _ => "ColumnNotFound"
  | .noPrimaryKey _ => "NoPrimaryKey"
  | .notRepresentable _ => "NotRepresentable"
  | .schemaMismatch _ => "SchemaMismatch"
  | .json => "Json"
  | .serialization _ => "Serialization"

/-- The message of an error.  An error of JSON text is told by its kind alone. -/
def message : Error → String
  | .engine code text => s!"sqlite error {code}: {text}"
  | .invalidColumns names => "invalid columns: " ++ String.intercalate ", " names
  | .missingPlaceholder key => s!"missing placeholder for field type {key}"
  | .columnNotFound name => s!"column '{name}' not found in row"
  | .noPrimaryKey table => s!"{table} declares no primary key"
  | .notRepresentable why => "not representable: " ++ why.message
  | .schemaMismatch table => s!"table '{table}' does not match its record definition"
  | .json => "opaque column codec"
  | .serialization why => "serialization error: " ++ why.message

/-- Kind and message together. -/
def report (e : Error) : String := "[" ++ e.code ++ "] " ++ e.message

end Error

/-- A failing computation that cannot do anything else. -/
abbrev Outcome := Except Error

end RecordTables
