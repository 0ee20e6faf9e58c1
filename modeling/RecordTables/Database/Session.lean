import RecordTables.Database.Catalog
import RecordTables.Database.Options
import RecordTables.Engine.Connection
import RecordTables.Record.RecordType
import RecordTables.Sql.Statement

/-!
# Sessions

A database opens its connection when a step first needs one, and keeps it until it is closed.  Steps are
computations on the database that may fail; a step that fails keeps the changes of the statements before.  Every
statement that is handed to the engine is noted.
-/

namespace RecordTables

/-- Where a database lives. -/
inductive Location where
  /-- In memory, as long as a connection is open. -/
  | memory
  | file (path : String)
  /-- At a path where no file can be. -/
  | unreachable (path : String)
  deriving DecidableEq, Repr, Inhabited

/-- Whether a statement was run for its effect or for its rows. -/
inductive Purpose where
  | exec
  | query
  deriving DecidableEq, Repr

/-- A statement that was handed to the engine. -/
structure Issued where
  purpose : Purpose
  text : String
  parameters : Nat
  deriving DecidableEq, Repr

/-- A database. -/
structure Database where
  location : Location
  options : OpenOptions
  /-- What the file holds, if there is one. -/
  file : Option Engine.Store := none
  connection : Option Engine.Connection := none
  /-- The statements handed to the engine, the oldest first. -/
  issued : List Issued := []

/-- A step of a session. -/
abbrev Session := ExceptT Error (StateM Database)

/-- The form in which a value is bound to a parameter: what is not a number is NULL. -/
def Value.bound (v : Value) : StoredValue :=
  match v with
  | .real x => if x.isNaN then .null else .real x
  | _ => v.toStored

namespace Database

/-- A database at a location, before anything has been done with it. -/
def ofLocation (location : Location) (options : OpenOptions) : Database := { location, options }

def isConnected (db : Database) : Bool := db.connection.isSome

/-- Opens a connection.  A file that is missing is made, unless the options are against it.  In memory nothing but
the journal tells how to undo a statement; what is in a file is not touched before the statement is done. -/
def openConnection (db : Database) : Except Engine.Failure Engine.Connection :=
  match db.location with
  | .memory => .ok (.ofStore .empty db.options.readOnly (db.options.journalMode != some .off))
  | .unreachable path => .error (.cannotOpen path)
  | .file path =>
      match db.file with
      | some store => .ok (.ofStore store db.options.readOnly true)
      | none =>
          if db.options.createIfMissing && !db.options.readOnly then .ok (.ofStore .empty false true)
          else .error (.cannotOpen path)

/-- The database after the engine did something on its connection. -/
def keep (db : Database) (c : Engine.Connection) : Database :=
  { db with
    connection := some c
    file := match db.location with
      | .file _ => some c.store
      | _ => db.file }

end Database

namespace Session

/-- A failure of the engine as an error. -/
def engineError (statement : String) (f : Engine.Failure) : Error := .engine f.code (f.text statement)

/-- The open connection; one is opened if there is none. -/
def connection : Session Engine.Connection := do
  let db ← get
  match db.connection with
  | some c => return c
  | none =>
      match db.openConnection with
      | .ok c =>
          set (db.keep c)
          return c
      | .error f => throw (engineError "" f)

/-- Carries out a step on a database: its result, and the database after it. -/
def perform {α : Type} (step : Session α) (db : Database) : Outcome α × Database := (ExceptT.run step).run db

/-- Opens the connection. -/
def connect : Session Unit := do
  let _ ← connection

/-- Closes the connection; what is in memory is lost. -/
def close : Session Unit := modify fun db => { db with connection := none }

/-- Hands a statement to the engine. -/
def run (purpose : Purpose) (text : String) (params : List Value) :
    Session (Engine.Connection × Engine.Result × Engine.Connection) := do
  let before ← connection
  modify fun db => { db with issued := db.issued ++ [⟨purpose, text, params.length⟩] }
  let (result, after) := before.run text (params.map Value.bound)
  modify fun db => db.keep after
  match result with
  | .ok result => return (before, result, after)
  | .error f => throw (engineError text f)

/-- Runs a statement for its effect, and counts the rows that it changed itself.  The engine keeps the count of
the last statement that changed rows, so the count means something only if the total has moved. -/
def exec (text : String) (params : List Value) : Session Nat := do
  let (before, _, after) ← run .exec text params
  return if after.totalChanges = before.totalChanges then 0 else after.changes

/-- Runs a statement for its rows. -/
def rows (text : String) (params : List Value) : Session (List Row) := do
  let (_, result, _) ← run .query text params
  return result.rows.map fun values => Row.ofList (result.names.zip (values.map Value.ofStored))

/-- Runs a statement for its rows, and reads each as a record. -/
def query (type : RecordType) (text : String) (params : List Value) : Session (List Datum) := do
  (← rows text params).mapM fun row => liftM (type.decode row)

/-- Executes a statement. -/
def execute (s : Sql.Statement) : Session Nat := exec s.text s.params

/-! ## Tables -/

/-- Runs statements without parameters, and adds up the rows that they changed. -/
def execAll : List String → Session Nat
  | [] => return 0
  | text :: rest => return (← exec text []) + (← execAll rest)

/-- Creates a table, and then its indexes. -/
def create (table : TableDefinition) : Session Nat :=
  execAll (table.createText :: table.indexTexts)

/-- The parts of each index of a list. -/
def indexParts : List CatalogIndex → Session (List (CatalogIndex × List CatalogPart))
  | [] => return []
  | i :: rest => do
      let listed ← rows Catalog.partsText [.text i.name]
      let parts ← listed.mapM fun row => liftM (Catalog.partOf row)
      return (i, parts) :: (← indexParts rest)

/-- The definition of the table that the database has under a name. -/
def introspect (name : String) : Session (Option TableDefinition) := do
  let columns ← (← rows Catalog.columnsText [.text name]).mapM fun row => liftM (Catalog.columnOf row)
  if columns.isEmpty then return none
  else
    let listed ← (← rows Catalog.indexesText [.text name]).mapM fun row => liftM (Catalog.indexOf row)
    let indexes ← indexParts (listed.filter Catalog.isCreated)
    return some (← liftM (Catalog.definition name columns indexes))

/-! ## Records -/

variable (registry : Registry) (type : RecordType)

/-- The definition of the table of a record type. -/
def definition : Session TableDefinition := liftM (type.definition registry)

/-- The definition that the database has of the table of a record type. -/
def table : Session (Option TableDefinition) := introspect type.table

/-- Creates the table of a record type unless it is there; one that is there has to agree. -/
def ensure : Session Bool := do
  let expected ← definition registry type
  match ← introspect expected.name with
  | none =>
      let _ ← create expected
      return true
  | some live =>
      if live.agrees expected then return false else throw (.schemaMismatch expected.name)

/-- Inserts a record. -/
def insert (record : Datum) : Session Nat := do
  let table ← definition registry type
  let row ← liftM (record.encodeWith table)
  execute (.insert table.name row)

/-- The records that a query asks for. -/
def select (q : Sql.Query) : Session (List Datum) := do
  let table ← definition registry type
  liftM (table.validate q.columns)
  let statement := Sql.Statement.select table.name q
  query type statement.text statement.params

/-- The columns of a condition that may be missing. -/
def filterColumns (filter : Option Sql.Predicate) : List String :=
  (filter.map Sql.Predicate.columns).getD []

/-- Assigns values to the rows for which a condition holds. -/
def updateWhere (values : Row) (filter : Option Sql.Predicate) : Session Nat := do
  if values.isEmpty then return 0
  else
    let table ← definition registry type
    liftM (table.validate (values.names ++ filterColumns filter))
    match Sql.Statement.update? table.name values filter with
    | some statement => execute statement
    | none => return 0

/-- Deletes the rows for which a condition holds. -/
def deleteWhere (filter : Option Sql.Predicate) : Session Nat := do
  let table ← definition registry type
  liftM (table.validate (filterColumns filter))
  execute (.delete table.name filter)

/-- The condition that a key column has a value; a value that is missing is NULL. -/
def keyTerm (column : String) : Option Value → Sql.Predicate
  | some v => if v.isNull then .isNull column else .eq column v
  | none => .isNull column

/-- The conditions on the key columns, and the row without them. -/
def takeKey : List String → Row → List Sql.Predicate × Row
  | [], row => ([], row)
  | column :: rest, row =>
      let (terms, others) := takeKey rest (row.erase column)
      (keyTerm column (row.get? column) :: terms, others)

/-- The conjunction of the conditions on the key. -/
def keyPredicate (table : TableDefinition) (terms : List Sql.Predicate) : Outcome Sql.Predicate :=
  match Sql.Predicate.all? terms with
  | some p => .ok p
  | none => .error (.noPrimaryKey table.name)

/-- Writes all fields outside of the key of the row that has the key of a record. -/
def update (record : Datum) : Session Nat := do
  let table ← definition registry type
  let row ← liftM (record.encodeWith table)
  let (terms, values) := takeKey table.primaryKey row
  let key ← liftM (keyPredicate table terms)
  updateWhere registry type values (some key)

/-- Deletes the row that has the key of a record. -/
def delete (record : Datum) : Session Nat := do
  let table ← definition registry type
  let row ← liftM (record.encodeWith table)
  let key ← liftM (keyPredicate table (table.primaryKey.map fun c => keyTerm c (row.get? c)))
  deleteWhere registry type (some key)

end Session

end RecordTables
