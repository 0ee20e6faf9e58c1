import RecordTables.Gallery.Fields
import RecordTables.Record.RecordType

/-!
# A gallery of record types

Records with all kinds of fields, keys and indexes, and types that look like records but make no rows.
-/

namespace RecordTables.Gallery

variable (home : String)

/-- A record whose table is called like its type. -/
def record (name : String) (parts : List (Field × Shape)) (primaryKey : List String) (indexes : List Index) :
    RecordType :=
  .ofShape (.record (typeName home name) false parts) primaryKey indexes

/-- A record with a name of its own for its table. -/
def recordIn (table name : String) (parts : List (Field × Shape)) (primaryKey : List String)
    (indexes : List Index) : RecordType :=
  { record home name parts primaryKey indexes with table }

/-- The shape of bytes that are kept as such. -/
def rawBytes : Shape := .bytes (typeName home "bytes")

/-! ## Plain records -/

def person : RecordType :=
  record home "Person" (fields [("id", .int u32), ("name", .option .text)]) ["id"] []

def membership : RecordType :=
  recordIn home "memberships" "Membership"
    (fields [("group", .text), ("member", .option .text), ("level", .int i32)]) ["group", "member"] []

def task : RecordType :=
  record home "Task"
    (fields [("id", .int .i64), ("title", .text), ("done", .bool), ("note", .option .text)]) ["id"]
    [⟨"task_title", ["title", "done"], false⟩]

def everything : RecordType :=
  record home "Everything"
    (fields
      [("id", .int .i64), ("flag", .bool), ("tiny", .int ⟨true, 8⟩), ("small", .int ⟨false, 16⟩),
        ("medium", .int i32), ("large", .int u32), ("ratio", .single), ("distance", meters home),
        ("letter", .char), ("label", .text), ("maybe_label", .option .text),
        ("maybe_number", .option (.int .i64)), ("shade", shade home), ("maybe_shade", .option (shade home)),
        ("origin", point home), ("path", .list (point home)), ("counts", .map .text (.int u32)),
        ("payload", rawBytes home)])
    ["id"] []

def account : RecordType :=
  record home "Account"
    (fields
      [("id", .int .i64), ("email", .text), ("nickname", .option .text), ("balance", .double),
        ("verified", .bool), ("status", structFirst home), ("tags", .list .text),
        ("settings", .map .text .text), ("avatar", rawBytes home)])
    ["id"] [⟨"account_nick_balance", ["nickname", "balance"], false⟩, ⟨"account_email", ["email"], true⟩]

def edge : RecordType :=
  recordIn home "edges" "Edge"
    (fields [("from", .int u32), ("to", .int u32), ("weight", .option .single)]) ["to", "from"] []

def misdeclared : RecordType :=
  record home "Misdeclared" (fields [("id", .int .i64)]) ["uuid"] [⟨"by_owner", ["owner", "id", "uuid"], false⟩]

def keyless : RecordType := record home "Keyless" (fields [("value", .int .i64)]) [] []

def counter : RecordType :=
  record home "Counter" (fields [("id", .int .i64), ("hits", .int .u64)]) [] []

def profile : RecordType :=
  record home "Profile"
    (fields [("id", .int .i64), ("handle", handle home), ("alias", .option (handle home))]) ["id"] []

def untyped : RecordType :=
  record home "Untyped" (fields [("id", .int u32), ("payload", anyDocument)]) ["id"] []

def odd : RecordType :=
  recordIn home "odd \"table\"" "Odd"
    (fields [("firstName", .text), ("we\"ird", .option (.int .i64)), ("select", .bool), ("Zähler", .int u8)])
    ["select", "we\"ird"]
    [⟨"z\"ix", ["Zähler", "firstName"], true⟩, ⟨"A-ix", ["firstName"], false⟩]

def doc : RecordType :=
  recordIn home "docs" "Doc"
    (fields
      [("slug", .text), ("body", rawBytes home), ("score", .option .double), ("meta", .option (nested home))])
    ["slug"] []

def loyal : RecordType :=
  record home "Loyal"
    (fields
      [("id", .int .i64), ("rank", even home), ("card", .option (card home)), ("contact", contact home),
        ("seat", .tuple [.int u8, .option (handle home)])])
    ["id"] []

/-! ## Fields with habits of their own -/

/-- A note without a body does not write it. -/
def note : RecordType :=
  record home "Note"
    [({ name := "id" }, .int .i64),
      ({ name := "body", writing := .unlessAbsent }, .option .text),
      ({ name := "tags" }, .list .text)]
    ["id"] []

/-- Some fields are read but never written. -/
def writeGap : RecordType :=
  record home "WriteGap"
    [({ name := "id" }, .int .i64),
      ({ name := "secret", writing := .never }, .text),
      ({ name := "hint", writing := .never }, .option .text)]
    ["id"] []

/-- Some fields are never read. -/
def readGap : RecordType :=
  record home "ReadGap"
    [({ name := "id" }, .int .i64),
      ({ name := "extra", constant := some (.int i32 0) }, .int i32),
      ({ name := "cache", writing := .never, constant := some (.text "") }, .text)]
    ["id"] []

/-- One field goes by two names. -/
def aliased : RecordType :=
  record home "Aliased" [({ name := "id", aliases := ["identifier"] }, .int .i64)] ["id"] []

/-- Documents may leave out any field. -/
def defaulted : RecordType :=
  record home "Defaulted"
    [({ name := "a", default := some (.int .i64 0) }, .int .i64),
      ({ name := "b", default := some (.text "") }, .text)]
    ["a"] []

/-! ## No records -/

def flat : RecordType :=
  .ofShape (.flattened (typeName home "Flat") (fields [("id", .int .i64)] ++ pointFields)) ["id"] []

def empty : RecordType := record home "Empty" [] [] []

def tupleRecord : RecordType :=
  .ofShape (.tupleStruct (typeName home "TupleRec") [.int .i64, .text]) [] []

def unitRecord : RecordType := .ofShape (.unit (typeName home "UnitRec")) [] []

def newtypeRecord : RecordType := .ofShape (.newtype (typeName home "NewRec") (point home)) [] []

/-! ## Records around a type -/

/-- The name of a type of the gallery with one argument. -/
def genericName (short : String) (argument : Shape) : TypeName :=
  .named (home ++ "::" ++ short) [argument.typeName]

def wrapper (inner : Shape) : RecordType :=
  .ofShape
    (.record (genericName home "Wrapper" inner) false
      (fields [("inner", inner), ("rank", .option (.int ⟨true, 16⟩))]))
    ["inner"] [⟨"by_rank", ["rank"], false⟩, ⟨"by_both", ["rank", "inner"], false⟩]

/-- A record with one field. -/
def one (s : Shape) : RecordType :=
  .ofShape (.record (genericName home "One" s) false (fields [("v", s)])) [] []

/-- A type that is nothing but another one. -/
def bare (s : Shape) : RecordType := .ofShape (.transparent (genericName home "Bare" s) s) [] []

/-! ## By name -/

/-- The record types by name. -/
def recordTypes : List (String × RecordType) :=
  [("Person", person home), ("Membership", membership home), ("Task", task home),
    ("Everything", everything home), ("Account", account home), ("Edge", edge home),
    ("Misdeclared", misdeclared home), ("Keyless", keyless home), ("Counter", counter home),
    ("Note", note home), ("Profile", profile home), ("Untyped", untyped home), ("Odd", odd home),
    ("WriteGap", writeGap home), ("ReadGap", readGap home), ("Aliased", aliased home), ("Flat", flat home),
    ("Defaulted", defaulted home), ("Empty", empty home), ("TupleRec", tupleRecord home),
    ("UnitRec", unitRecord home), ("NewRec", newtypeRecord home), ("Doc", doc home), ("Loyal", loyal home)]

end RecordTables.Gallery
