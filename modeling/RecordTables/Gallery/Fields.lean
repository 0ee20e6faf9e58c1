import RecordTables.Record.Shape

/-!
# A gallery of field types

Types of every kind that a field may have: wrappers, records, variants in all four layouts, types with checks, and
types that read or present themselves in their own way.  The paths of their names start with `home`.
-/

namespace RecordTables.Gallery

def u8 : IntType := ⟨false, 8⟩

def u32 : IntType := ⟨false, 32⟩

def i32 : IntType := ⟨true, 32⟩

/-- Fields without anything special. -/
def fields (parts : List (String × Shape)) : List (Field × Shape) :=
  parts.map fun (name, s) => ({ name }, s)

/-! ## Checks -/

/-- A handle starts with an at sign. -/
def handleRefusal : Datum → Option String
  | .text s => if s.toList.head? = some '@' then none else some ("handle '" ++ s ++ "' must start with '@'")
  | _ => none

def oddRefusal : Datum → Option String
  | .int _ n => if n % 2 = 0 then none else some (integerText n ++ " is odd")
  | _ => none

def negativeRefusal : Datum → Option String
  | .int _ n => if n < 0 then some (integerText n ++ " is negative") else none
  | _ => none

variable (home : String)

/-- The name of a type of the gallery. -/
def typeName (short : String) : TypeName := .simple (home ++ "::" ++ short)

/-! ## Wrappers -/

def meters : Shape := .newtype (typeName home "Meters") .double

def flags : Shape := .newtype (typeName home "Flags") (.int u8)

def maybeNum : Shape := .newtype (typeName home "MaybeNum") (.option (.int .i64))

def handle : Shape := .checked (typeName home "Handle") .text handleRefusal

def wrapHandle : Shape := .newtype (typeName home "WrapHandle") (handle home)

def even : Shape := .checked (typeName home "Even") (.int .i64) oddRefusal

def positive : Shape := .guarded (typeName home "Positive") (.int .i64) negativeRefusal

/-! ## Records -/

def marker : Shape := .unit (typeName home "Marker")

def pair : Shape := .tupleStruct (typeName home "Pair") [.int u8, .text]

def pointFields : List (Field × Shape) := fields [("x", .int i32), ("y", .int i32)]

def point : Shape := .record (typeName home "Point") false pointFields

def nested : Shape :=
  .record (typeName home "Nested") false
    [({ name := "at" }, point home),
      ({ name := "note" }, .option .text),
      ({ name := "full name", default := some (.text "") }, .text),
      ({ name := "list" }, .list (.option .double))]

def strict : Shape := .record (typeName home "Strict") true (fields [("a", .int u8)])

def tree : Shape :=
  .record (typeName home "Tree") false
    (fields [("v", .int i32), ("kids", .list (.enclosing (typeName home "Tree")))])

def card : Shape := .record (typeName home "Card") false (fields [("owner", handle home), ("n", .int u8)])

/-! ## Variants -/

def shade : Shape :=
  .choice (typeName home "Shade")
    [("Light", .unit),
      ("Dark", .unit),
      ("Custom", .tuple [.int u8, .int u8, .int u8]),
      ("Named", .newtype .text),
      ("Mix", .fields (fields [("a", .int u8), ("b", .option (.int u8))]))]

def dataFirst : Shape :=
  .choice (typeName home "DataFirst") [("Custom", .newtype (.int u8)), ("Plain", .unit)]

def structFirst : Shape :=
  .choice (typeName home "StructFirst")
    [("Suspended", .fields (fields [("reason", .text), ("until", .option (.int .i64))])), ("Active", .unit)]

def tupleFirst : Shape :=
  .choice (typeName home "TupleFirst") [("Pos", .tuple [.single, .single]), ("Nowhere", .unit)]

def renamed : Shape :=
  .choice (typeName home "Renamed") [("first_one", .unit), ("2nd", .unit), ("with_data", .newtype .bool)]

def contact : Shape :=
  .choice (typeName home "Contact") [("At", .newtype (handle home)), ("Nobody", .unit)]

def never : Shape := .choice (typeName home "Never") []

def tagged : Shape :=
  .tagged (typeName home "Tagged") "kind" [("On", .fields (fields [("level", .int u8)])), ("Off", .unit)]

def adjacent : Shape :=
  .adjacent (typeName home "Adjacent") "t" "c" [("Num", .newtype (.int .i64)), ("Unit", .unit)]

def loose : Shape := .untagged (typeName home "Loose") [.int64, .double, .text]

/-! ## Types of their own kind -/

/-- Any document. -/
def anyDocument : Shape := .anything (.simple "serde_json::value::Value")

def byteBuffer : Shape := .bytes (.simple "serde_bytes::bytebuf::ByteBuf")

def unit : Shape := .unit (.tuple [])

def ghost : Shape := .ignored (typeName home "Ghost")

def ident : Shape := .label (typeName home "Ident")

def pairs : Shape := .pairs (typeName home "Pairs") (.int u8) (.int u8)

/-! ## By name -/

/-- The integer types by name. -/
def intTypes : List (String × Shape) :=
  [8, 16, 32, 64, 128].flatMap fun bits =>
    [true, false].map fun signed => ((IntType.mk signed bits).name, .int ⟨signed, bits⟩)

/-- The field types by name. -/
def fieldTypes : List (String × Shape) :=
  intTypes ++
    [("bool", .bool), ("f32", .single), ("f64", .double), ("char", .char), ("String", .text),
      ("ByteBuf", byteBuffer), ("unit", unit), ("Json", anyDocument), ("Meters", meters home),
      ("Flags", flags home), ("MaybeNum", maybeNum home), ("WrapHandle", wrapHandle home),
      ("Marker", marker home), ("Pair", pair home), ("Point", point home), ("Nested", nested home),
      ("Strict", strict home), ("Tree", tree home), ("Card", card home), ("Shade", shade home),
      ("DataFirst", dataFirst home), ("StructFirst", structFirst home), ("TupleFirst", tupleFirst home),
      ("Renamed", renamed home), ("Contact", contact home), ("Never", never home), ("Tagged", tagged home),
      ("Adjacent", adjacent home), ("Loose", loose home), ("Handle", handle home), ("Even", even home),
      ("Positive", positive home), ("Ghost", ghost home), ("Ident", ident home), ("Pairs", pairs home)]

end RecordTables.Gallery
