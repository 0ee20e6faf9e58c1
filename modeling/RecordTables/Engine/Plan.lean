import RecordTables.Engine.Store
import RecordTables.Engine.Grammar.Statement

/-!
# Plans

A plan is a statement whose names have been given their meaning in a store.  A name that means nothing is refused
here, before anything happens.
-/

namespace RecordTables.Engine

/-- The pages of a result. -/
structure Page where
  limit : Option Expr
  offset : Option Expr

/-- Where the rows of a selection come from. -/
inductive PlannedSource where
  | none
  | table (table : Table)
  | catalog (rows : StoredValue → List (List StoredValue)) (argument : Expr)

/-- A selection with its meaning. -/
structure PlannedSelection where
  names : List String
  values : List Expr
  counts : Bool
  source : PlannedSource
  filter : Option Expr
  order : List OrderKey
  page : Page

/-- A change of rows with its meaning. -/
inductive PlannedChange where
  | insert (table : String) (rows : List (List Expr))
  | update (table : String) (assignments : List (Nat × Expr)) (filter : Option Expr)
  | delete (table : String) (filter : Option Expr)

/-- A statement with its meaning. -/
inductive Plan where
  | createTable (table : Table)
  | createIndex (table : Table) (index : TableIndex)
  | createTrigger (table : Table) (trigger : Trigger)
  | select (selection : PlannedSelection)
  | change (change : PlannedChange)
  | nothing

/-! ## Names in expressions -/

mutual

/-- Gives the names of an expression their meaning.  A quoted name that is no column is a text.  Functions may
stand in the terms of an index, which are not evaluated, and nowhere else. -/
def resolve (columns : List String) : Expr → Except Failure Expr
  | .name s quoted offset =>
      match columns.findIdx? fun c => sameName c s with
      | some i => .ok (.column i)
      | none => if quoted then .ok (.literal (.text s.toUTF8)) else .error (.noSuchColumn s (some offset))
  | .changed after column offset =>
      .error (.noSuchColumn ((if after then "new." else "old.") ++ column) (some offset))
  | .call function _ offset => .error (.noSuchFunction function offset)
  | .asText e => return .asText (← resolve columns e)
  | .add l r => return .add (← resolve columns l) (← resolve columns r)
  | .compare relation l r => return .compare relation (← resolve columns l) (← resolve columns r)
  | .like e p => return .like (← resolve columns e) (← resolve columns p)
  | .isNull e => return .isNull (← resolve columns e)
  | .isIn e values => return .isIn (← resolve columns e) (← resolveList columns values)
  | .not e => return .not (← resolve columns e)
  | .and l r => return .and (← resolve columns l) (← resolve columns r)
  | .or l r => return .or (← resolve columns l) (← resolve columns r)
  | e => .ok e

def resolveList (columns : List String) : List Expr → Except Failure (List Expr)
  | [] => .ok []
  | e :: rest => return (← resolve columns e) :: (← resolveList columns rest)

end

/-- Gives the names of a condition their meaning. -/
def resolveFilter (columns : List String) : Option Expr → Except Failure (Option Expr)
  | none => .ok none
  | some e => return some (← resolve columns e)

mutual

/-- Puts the values of a changed row in the place of their names. -/
def substitute (columns : List String) (old new : List StoredValue) : Expr → Expr
  | .changed after column offset =>
      match columns.findIdx? fun c => sameName c column with
      | some i => .literal ((if after then new else old)[i]?.getD .null)
      | none => .changed after column offset
  | .call function arguments offset => .call function (substituteList columns old new arguments) offset
  | .asText e => .asText (substitute columns old new e)
  | .add l r => .add (substitute columns old new l) (substitute columns old new r)
  | .compare relation l r => .compare relation (substitute columns old new l) (substitute columns old new r)
  | .like e p => .like (substitute columns old new e) (substitute columns old new p)
  | .isNull e => .isNull (substitute columns old new e)
  | .isIn e values => .isIn (substitute columns old new e) (substituteList columns old new values)
  | .not e => .not (substitute columns old new e)
  | .and l r => .and (substitute columns old new l) (substitute columns old new r)
  | .or l r => .or (substitute columns old new l) (substitute columns old new r)
  | e => e

def substituteList (columns : List String) (old new : List StoredValue) : List Expr → List Expr
  | [] => []
  | e :: rest => substitute columns old new e :: substituteList columns old new rest

end

/-- A change in which the values of a changed row stand in the place of their names. -/
def Change.substitute (columns : List String) (old new : List StoredValue) : Change → Change
  | .insert i => .insert { i with rows := i.rows.map (substituteList columns old new) }
  | .update u =>
      .update { u with
        assignments := u.assignments.map fun (c, e) => (c, Engine.substitute columns old new e)
        filter := u.filter.map (Engine.substitute columns old new) }
  | .delete d => .delete { d with filter := d.filter.map (Engine.substitute columns old new) }

namespace Store

variable (store : Store)

/-- The table of a name, which has to exist. -/
def tableNamed (name : String) : Except Failure Table :=
  match store.table? name with
  | some t => .ok t
  | none => .error (.noSuchTable name)

/-- The greatest count of columns of a table, an index or a result, and of the terms of an ordering. -/
def maxColumns : Nat := 2000

/-! ## Declarations -/

/-- Whether a new table may have a name. -/
def checkTableName (name raw : String) (offset : Nat) : Except Failure Unit :=
  if isReserved name then .error (.reservedName name)
  else if (store.table? name).isSome then .error (.tableExists raw offset)
  else if (store.index? name).isSome then .error (.nameOfIndex name)
  else .ok ()

/-- The first column name that came before. -/
def duplicateName? : List String → Option String
  | [] => none
  | names => (names.zipIdx.find? fun (n, i) => (names.take i).any (sameName n)).map Prod.fst

/-- The positions of named columns of a table, which a statement calls `called`. -/
def positionsOf (table : Table) (called : String) : List String → Except Failure (List Nat)
  | [] => .ok []
  | c :: rest =>
      match table.position? c with
      | some i => return i :: (← positionsOf table called rest)
      | none => .error (.noColumnNamed called c)

/-- Gives a table one of its keys.  A primary key of one column of type INTEGER numbers the rows and needs no
index. -/
def addKey (table : Table) (key : KeyDeclaration) : Except Failure Table := do
  if maxColumns < key.columns.length then throw (.tooManyColumnsIn "index")
  let positions ← positionsOf table table.name key.columns
  let origin := if key.primary then IndexOrigin.primaryKey else .unique
  let index : TableIndex :=
    { name := "sqlite_autoindex_" ++ table.name ++ "_" ++ toString (table.indexes.length + 1)
      parts := positions.map some
      unique := true
      origin }
  let indexed := { table with indexes := index :: table.indexes }
  if !key.primary then .ok indexed
  else if !table.primaryKey.isEmpty then .error (.secondPrimaryKey table.name)
  else
    match positions with
    | [i] =>
        if ((table.columns[i]?.map TableColumn.type).getD "").toUpper == "INTEGER" then
          .ok { table with primaryKey := positions, numberColumn := some i }
        else .ok { indexed with primaryKey := positions }
    | _ => .ok { indexed with primaryKey := positions }

/-- The table that a declaration describes. -/
def declaredTable (name : String) (body : TableBody) : Except Failure Table :=
  match duplicateName? ((body.columns.map ColumnDeclaration.name).take maxColumns) with
  | some c => .error (.duplicateColumn c)
  | none =>
    if maxColumns < body.columns.length then .error (.tooManyColumnsOn name)
    else
      let columns := body.columns.map fun c => ⟨c.name, c.type, Affinity.ofDeclared c.type, c.notNull⟩
      body.keys.foldlM addKey ⟨name, columns, [], none, [], [], []⟩

/-- The index that a declaration describes. -/
def declaredIndex (unique : Bool) (name table : String) (terms : List IndexTerm) :
    Except Failure (Table × TableIndex) :=
  match store.table? table with
  | none => .error (.noSuchTable ("main." ++ table))
  | some t =>
      if isReserved name then .error (.reservedName name)
      else if (store.table? name).isSome then .error (.nameOfTable name)
      else if (store.index? name).isSome then .error (.indexExists name)
      else if maxColumns < terms.length then .error (.tooManyColumnsIn "index")
      else
        let parts := terms.map fun
          | .column c => t.position? c
          | .expression => none
        .ok (t, ⟨name, parts, unique, .created⟩)

/-! ## The catalog -/

/-- The columns of a catalog view and its rows for an argument. -/
structure CatalogView where
  columns : List String
  rows : StoredValue → List (List StoredValue)

def textValue (s : String) : StoredValue := .text s.toUTF8

def natValue (n : Nat) : StoredValue := .int (Int64.ofNat n)

def boolValue (b : Bool) : StoredValue := natValue (if b then 1 else 0)

/-- The name that an argument of a catalog view spells, up to the first NUL. -/
def argumentName? (v : StoredValue) : Option String :=
  if v = .null then none
  else String.fromUTF8? ⟨((textBytes v).toList.takeWhile (· != 0)).toArray⟩

/-- The views of the catalog and the names of their columns. -/
def viewColumns : List (String × List String) :=
  [("pragma_table_info", ["cid", "name", "type", "notnull", "dflt_value", "pk"]),
    ("pragma_index_list", ["seq", "name", "unique", "origin", "partial"]),
    ("pragma_index_info", ["seqno", "cid", "name"])]

/-- The tables that are there from the start, and the names and types of their columns. -/
def builtInColumns : List (String × List (String × String)) :=
  let schema := [("type", "TEXT"), ("name", "TEXT"), ("tbl_name", "TEXT"), ("rootpage", "INT"), ("sql", "TEXT")]
  ["sqlite_master", "sqlite_schema", "sqlite_temp_master", "sqlite_temp_schema"].map (·, schema) ++
    viewColumns.map fun (name, columns) => (name, columns.map (·, ""))

/-- The columns of a table: position, name, type, whether NULL is refused, default, rank in the key. -/
def columnRows (name : String) : List (List StoredValue) :=
  match store.table? name with
  | some t => t.columns.zipIdx.map fun (c, i) =>
      [natValue i, textValue c.name, textValue c.type, boolValue c.notNull, .null, natValue (t.keyRank i)]
  | none =>
      let columns := ((builtInColumns.find? fun b => sameName b.1 name).map Prod.snd).getD []
      columns.zipIdx.map fun ((column, type), i) =>
        [natValue i, textValue column, textValue type, boolValue false, .null, natValue 0]

def originText : IndexOrigin → String
  | .created => "c"
  | .unique => "u"
  | .primaryKey => "pk"

/-- The indexes of a table. -/
def indexRows (name : String) : List (List StoredValue) :=
  match store.table? name with
  | none => []
  | some t => t.indexes.zipIdx.map fun (x, i) =>
      [natValue i, textValue x.name, boolValue x.unique, textValue (originText x.origin), natValue 0]

/-- The parts of an index; an expression has no name. -/
def partRows (name : String) : List (List StoredValue) :=
  match store.index? name with
  | none => []
  | some (t, x) => x.parts.zipIdx.map fun (part, i) =>
      match part with
      | some k => [natValue i, natValue k, textValue (t.columnNames[k]?.getD "")]
      | none => [natValue i, .int (-2), .null]

/-- A view of the catalog by its name. -/
def view? (name : String) : Option CatalogView := do
  let (view, columns) ← viewColumns.find? fun v => sameName v.1 name
  let rows := match view with
    | "pragma_table_info" => store.columnRows
    | "pragma_index_list" => store.indexRows
    | _ => store.partRows
  some ⟨columns, fun v => ((argumentName? v).map rows).getD []⟩

/-! ## Selections -/

/-- The names and expressions of the columns of a result. -/
def resultColumns (columns : List String) : List ResultColumn → Except Failure (List (String × Expr))
  | [] => .ok []
  | .all :: rest => return columns.zipIdx.map (fun (c, i) => (c, .column i)) ++ (← resultColumns columns rest)
  | .value e name :: rest => return (name, ← resolve columns e) :: (← resultColumns columns rest)

/-- The source of a selection and the names of its columns. -/
def planSource : Source → Except Failure (PlannedSource × List String)
  | .none => .ok (.none, [])
  | .table name => do
      let t ← store.tableNamed name
      return (.table t, t.columnNames)
  | .catalog view argument =>
      if (store.table? view).isSome then .error (.notFunction view)
      else
        match store.view? view with
        | some v => do return (.catalog v.rows (← resolve [] argument), v.columns)
        | none => .error (.noSuchTable view)

def isCount : Expr → Bool
  | .countAll => true
  | _ => false

def planSelection (s : Selection) : Except Failure PlannedSelection := do
  let (source, columns) ← store.planSource s.source
  let results ← resultColumns columns s.columns
  if maxColumns < results.length then throw (.tooManyColumnsIn "result set")
  let filter ← resolveFilter columns s.filter
  if maxColumns < s.order.length then throw .tooManyOrderTerms
  let order ← s.order.mapM fun k => return { k with key := ← resolve columns k.key }
  let limit ← resolveFilter [] s.limit
  let offset ← resolveFilter [] s.offset
  return {
    names := results.map Prod.fst
    values := results.map Prod.snd
    counts := results.any fun (_, e) => isCount e
    source, filter, order
    page := ⟨limit, offset⟩ }

/-! ## Changes -/

/-- The values of a row in the order of the columns, given the positions that they are meant for. -/
def spread (width : Nat) (positions : List Nat) (values : List Expr) : List Expr :=
  (List.range width).map fun i =>
    ((positions.zip values).findSome? fun (p, e) => if p = i then some e else none).getD (.literal .null)

/-- The positions of the columns that an insertion is for: all of them unless it names some. -/
def insertPositions (t : Table) (i : Insertion) : Except Failure (List Nat) :=
  match i.columns with
  | none => .ok (List.range t.columns.length)
  | some names => positionsOf t i.table names

def planInsertion (i : Insertion) : Except Failure PlannedChange := do
  let t ← store.tableNamed i.table
  let positions ← insertPositions t i
  let rows ← i.rows.mapM (resolveList [])
  match rows with
  | [] => .error .unequalValues
  | first :: rest =>
      if rest.any (·.length != first.length) then .error .unequalValues
      else if first.length = positions.length then
        .ok (.insert t.name (rows.map (spread t.columns.length positions)))
      else if i.columns.isSome then .error (.valueCount first.length positions.length)
      else .error (.valueCountOf t.name positions.length first.length)

/-- The assignments of an update by position. -/
def planAssignments (t : Table) : List (String × Expr) → Except Failure (List (Nat × Expr))
  | [] => .ok []
  | (c, e) :: rest =>
      match t.position? c with
      | some i => return (i, ← resolve t.columnNames e) :: (← planAssignments t rest)
      | none => .error (.noSuchColumn c none)

def planChange : Change → Except Failure PlannedChange
  | .insert i => store.planInsertion i
  | .update u => do
      if maxColumns < u.assignments.length then throw (.tooManyColumnsIn "set list")
      let t ← store.tableNamed u.table
      let assignments ← planAssignments t u.assignments
      return .update t.name assignments (← resolveFilter t.columnNames u.filter)
  | .delete d => do
      let t ← store.tableNamed d.table
      return .delete t.name (← resolveFilter t.columnNames d.filter)

/-- Gives a statement its meaning. -/
def plan : Statement → Except Failure Plan
  | .createTable name raw offset body => do
      store.checkTableName name raw offset
      return .createTable (← declaredTable name (← body))
  | .createIndex unique name table terms => do
      let (t, index) ← store.declaredIndex unique name table terms
      return .createIndex t index
  | .createTrigger name raw offset event table body =>
      match store.table? table with
      | none => .error (.noSuchTable ("main." ++ table))
      | some t =>
          if (store.trigger? name).isSome then .error (.triggerExists raw offset)
          else .ok (.createTrigger t ⟨name, event, body⟩)
  | .select s => return .select (← store.planSelection s)
  | .change c => return .change (← store.planChange c)
  | .nothing => .ok .nothing

end Store

end RecordTables.Engine
