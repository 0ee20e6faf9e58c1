import RecordTables.Engine.Evaluate

/-!
# Tables of the engine

A store is a list of tables.  The rows of a table are numbered and stand in ascending order of their numbers.
Names are compared without regard to the case of ASCII letters.
-/

namespace RecordTables.Engine

/-- A column of a stored table. -/
structure TableColumn where
  name : String
  type : String
  affinity : Affinity
  notNull : Bool
  deriving Inhabited

/-- Where an index comes from. -/
inductive IndexOrigin where
  | created
  | unique
  | primaryKey
  deriving DecidableEq, Repr, Inhabited

/-- An index of a stored table; a part that is no column has no position. -/
structure TableIndex where
  name : String
  parts : List (Option Nat)
  unique : Bool
  origin : IndexOrigin
  deriving Inhabited

/-- Statements that follow a change of a row. -/
structure Trigger where
  name : String
  event : Event
  body : List Change

/-- A row and its number. -/
structure NumberedRow where
  number : Int64
  values : List StoredValue
  deriving Inhabited

/-- A stored table. -/
structure Table where
  name : String
  columns : List TableColumn
  /-- The positions of the columns of the primary key, in its order. -/
  primaryKey : List Nat
  /-- The column that holds the number of the row. -/
  numberColumn : Option Nat
  /-- The newest index stands first. -/
  indexes : List TableIndex
  triggers : List Trigger
  rows : List NumberedRow

instance : Inhabited Table := ⟨⟨"", [], [], none, [], [], []⟩⟩

/-- All tables. -/
structure Store where
  tables : List Table
  deriving Inhabited

/-- Equality of names. -/
def sameName (a b : String) : Bool := a.toLower == b.toLower

namespace Table

variable (table : Table)

def columnNames : List String := table.columns.map TableColumn.name

/-- The position of a column. -/
def position? (name : String) : Option Nat := table.columns.findIdx? fun c => sameName c.name name

/-- The name of a column as constraints show it. -/
def qualified (i : Nat) : String := table.name ++ "." ++ (table.columnNames[i]?.getD "")

/-- The rank of a column in the primary key, counted from one; zero outside of it.  Repeated columns count, but no
rank is more than one above the number of columns. -/
def keyRank (i : Nat) : Nat :=
  match table.primaryKey.findIdx? (· == i) with
  | some k => min k table.columns.length + 1
  | none => 0

def affinities : List Affinity := table.columns.map TableColumn.affinity

/-- What expressions on a row see. -/
def scope (parameters : Array StoredValue) (row : List StoredValue) : Scope :=
  { parameters, row, affinities := table.affinities, count := table.rows.length }

/-- The rows for which a condition holds. -/
def filterRows (parameters : Array StoredValue) (filter : Option Expr) : Except Failure (List NumberedRow) :=
  table.rows.filterM fun r => holds (table.scope parameters r.values) filter

def row? (number : Int64) : Option NumberedRow := table.rows.find? fun r => r.number == number

/-- The first free number on the way down from `n`. -/
def freeBelow : Nat → Int64 → Int64
  | 0, n => n
  | fuel + 1, n => if (table.row? n).isSome then freeBelow fuel (n - 1) else n

/-- The number of the next row: one more than the last number, or one if there are no rows.  Behind the greatest
number of all comes one that is free, far away from those that are given in order. -/
def nextNumber : Int64 :=
  match table.rows.getLast? with
  | none => 1
  | some last =>
      if last.number = Int64.maxValue then table.freeBelow table.rows.length 0x4000000000000000
      else last.number + 1

end Table

/-- Puts a row in its place. -/
def insertRow (row : NumberedRow) : List NumberedRow → List NumberedRow
  | [] => [row]
  | r :: rest => if row.number < r.number then row :: r :: rest else r :: insertRow row rest

/-! ## Constraints -/

namespace TableIndex

variable (index : TableIndex)

/-- The values of the parts of an index in a row. -/
def keyOf (values : List StoredValue) : List StoredValue :=
  index.parts.map fun part => (part.bind fun i => values[i]?).getD .null

/-- Whether two rows have the same values in all parts; NULL equals nothing. -/
def agree (a b : List StoredValue) : Bool :=
  ((index.keyOf a).zip (index.keyOf b)).all fun (v, w) =>
    v != .null && w != .null && orderValues v w == .eq

/-- Whether some row already has the values that a unique index would get. -/
def taken (rows : List NumberedRow) (values : List StoredValue) : Bool :=
  index.unique && rows.any fun r => index.agree r.values values

/-- Whether two of several rows collide. -/
def collides : List NumberedRow → Bool
  | [] => false
  | r :: rest => index.taken rest r.values || collides rest

end TableIndex

namespace Table

variable (table : Table)

/-- The first column that refuses NULL and gets it.  The number of a row is never NULL. -/
def nullViolation? (values : List StoredValue) : Option String :=
  (table.columns.zip values).zipIdx.findSome? fun ((c, v), i) =>
    if c.notNull && table.numberColumn != some i && v == .null then some c.name else none

/-- The failure of an index. -/
def violation (index : TableIndex) : Failure :=
  let columns := index.parts.filterMap fun part => part.map table.qualified
  match index.origin with
  | .primaryKey => .uniqueRow columns
  | _ => .uniqueIndex columns

/-- Checks a row against the other rows, and puts it among them.  NULL is refused first; then the number has to be
free, and then the values of each unique index, from the newest to the oldest. -/
def place (others : List NumberedRow) (row : NumberedRow) : Except Failure Table :=
  match table.nullViolation? row.values with
  | some column => .error (.notNull table.name column)
  | none =>
      match table.numberColumn, others.any (·.number == row.number) with
      | some i, true => .error (.uniqueRow [table.qualified i])
      | _, _ =>
          match table.indexes.find? fun index => index.taken others row.values with
          | some index => .error (table.violation index)
          | none => .ok { table with rows := insertRow row others }

/-- Values as the columns store them, under a row number. -/
def stored (number : Int64) (values : List StoredValue) : NumberedRow :=
  { number
    values := ((table.columns.zip values).zipIdx.map fun ((c, v), i) =>
      if table.numberColumn == some i then .int number else c.affinity.store v) }

/-- The number that a row asks for; without one it is `fallback`. -/
def numberFor (fallback : Except Failure Int64) (values : List StoredValue) : Except Failure Int64 :=
  match table.numberColumn with
  | none => fallback
  | some i =>
      match values[i]?.getD .null with
      | .null => fallback
      | v => match rowNumber? v with
          | some n => .ok n
          | none => .error .datatypeMismatch

/-- Adds a row of values in the order of the columns. -/
def insert (values : List StoredValue) : Except Failure (NumberedRow × Table) := do
  let number ← table.numberFor (.ok table.nextNumber) values
  let row := table.stored number values
  let table ← table.place table.rows row
  return (row, table)

/-- Changes the values of a row. -/
def replace (old : NumberedRow) (values : List StoredValue) : Except Failure (NumberedRow × Table) := do
  let number ← table.numberFor
    (if table.numberColumn.isSome then .error .datatypeMismatch else .ok old.number) values
  let row := table.stored number values
  let table ← table.place (table.rows.filter (·.number != old.number)) row
  return (row, table)

/-- Removes a row. -/
def remove (number : Int64) : Table :=
  { table with rows := table.rows.filter (·.number != number) }

end Table

/-! ## Names of a store -/

namespace Store

def empty : Store := ⟨[]⟩

variable (store : Store)

def table? (name : String) : Option Table := store.tables.find? fun t => sameName t.name name

/-- The table of an index, and the index. -/
def index? (name : String) : Option (Table × TableIndex) :=
  store.tables.findSome? fun t =>
    (t.indexes.find? fun i => sameName i.name name).map fun i => (t, i)

def trigger? (name : String) : Option Trigger :=
  store.tables.findSome? fun t => t.triggers.find? fun x => sameName x.name name

/-- The store with a table in place of the one of its name. -/
def setTable (table : Table) : Store :=
  ⟨store.tables.map fun t => if sameName t.name table.name then table else t⟩

/-- The store with one more table. -/
def addTable (table : Table) : Store := ⟨store.tables ++ [table]⟩

end Store

/-- Whether a name is kept for the engine itself. -/
def isReserved (name : String) : Bool := "sqlite_".toList.isPrefixOf name.toLower.toList

end RecordTables.Engine
