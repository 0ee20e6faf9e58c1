import RecordTables.Error
import RecordTables.Schema.Ascending
import RecordTables.Schema.Declared
import RecordTables.Sql.Identifier

/-!
# Table definitions

A definition knows its columns by name, keeps the declared order of its key, and lists its indexes by name.
`TableDefinition.make` refuses a key or an index over an unknown column, and what it accepts carries the proof.
-/

namespace RecordTables

/-- What a table says about one column. -/
structure Column where
  type : ColumnType
  nullable : Bool
  deriving DecidableEq, Repr, Inhabited

/-- An index over columns of a table. -/
structure Index where
  name : String
  columns : List String
  unique : Bool
  deriving DecidableEq, Repr, Inhabited

/-- The definition of a table. -/
structure TableDefinition where
  name : String
  columns : List (String × Column)
  primaryKey : List String
  indexes : List Index
  columns_ascending : columns.Pairwise fun a b => a.1 < b.1
  indexes_ascending : indexes.Pairwise fun a b => a.name ≤ b.name
  key_known : ∀ c ∈ primaryKey, c ∈ columns.map Prod.fst
  indexes_known : ∀ i ∈ indexes, ∀ c ∈ i.columns, c ∈ columns.map Prod.fst

/-- Indexes in the order of their names; equal names keep their order. -/
def sortIndexes (indexes : List Index) : List Index := indexes.mergeSort fun a b => decide (a.name ≤ b.name)

theorem pairwise_sortIndexes (indexes : List Index) :
    (sortIndexes indexes).Pairwise fun a b => a.name ≤ b.name := by
  have h := @List.pairwise_mergeSort _ (fun a b : Index => decide (a.name ≤ b.name))
    (fun a b c hab hbc => by
      simp only [decide_eq_true_eq] at *
      exact String.le_trans hab hbc)
    (fun a b => by simpa using String.le_total a.name b.name) indexes
  simpa [sortIndexes] using h

/-- The names of a list that are not among the given ones. -/
def unknownNames (known names : List String) : List String := names.filter fun n => !known.contains n

theorem mem_of_unknownNames_eq_nil {known names : List String} (h : unknownNames known names = [])
    {n : String} (hn : n ∈ names) : n ∈ known := by
  have := List.filter_eq_nil_iff.1 h n hn
  simpa using this

namespace TableDefinition

/-- Puts a definition together.  Of two columns with one name the later counts. -/
def make (name : String) (columns : List (String × Column)) (primaryKey : List String)
    (indexes : List Index) : Outcome TableDefinition :=
  let sorted := ascendingBy Prod.fst columns
  let known := sorted.map Prod.fst
  let used := primaryKey ++ indexes.flatMap Index.columns
  if h : unknownNames known used = [] then
    .ok
      { name, columns := sorted, primaryKey, indexes := sortIndexes indexes
        columns_ascending := pairwise_ascendingBy Prod.fst columns
        indexes_ascending := pairwise_sortIndexes indexes
        key_known := fun _ hc => mem_of_unknownNames_eq_nil h (List.mem_append_left _ hc)
        indexes_known := fun i hi _ hc => mem_of_unknownNames_eq_nil h
          (List.mem_append_right _ (List.mem_flatMap.2
            ⟨i, (List.mergeSort_perm indexes _).mem_iff.1 hi, hc⟩)) }
  else .error (.invalidColumns (ascending (unknownNames known used)))

variable (table : TableDefinition)

def columnNames : List String := table.columns.map Prod.fst

def column? (name : String) : Option Column := table.columns.lookup name

/-- The columns that take NULL, in ascending order. -/
def nullableColumns : List String := (table.columns.filter (·.2.nullable)).map Prod.fst

/-- The distinct names that are no columns, in ascending order. -/
def unknownColumns (names : List String) : List String := ascending (unknownNames table.columnNames names)

/-- Fails if some of the names are no columns. -/
def validate (names : List String) : Outcome Unit :=
  match table.unknownColumns names with
  | [] => .ok ()
  | unknown => .error (.invalidColumns unknown)

/-- Definitions agree if they differ at most in the order of the key. -/
def agrees (a b : TableDefinition) : Bool :=
  let sorted (key : List String) := key.mergeSort fun x y => decide (x ≤ y)
  a.name == b.name && a.columns == b.columns && a.indexes == b.indexes &&
    sorted a.primaryKey == sorted b.primaryKey

end TableDefinition

/-! ## Texts -/

/-- A column as a table declares it. -/
def Column.text (name : String) (column : Column) : String :=
  Sql.quote name ++ " " ++ column.type.keyword ++ (if column.nullable then " NULL" else " NOT NULL")

/-- The statement that creates an index of a table. -/
def Index.createText (table : String) (index : Index) : String :=
  "CREATE " ++ (if index.unique then "UNIQUE " else "") ++ "INDEX " ++ Sql.quote index.name ++ " ON " ++
    Sql.quote table ++ " (" ++ Sql.quoteList index.columns ++ ")"

/-- The statement that creates a table: its columns in ascending order, then its key. -/
def TableDefinition.createText (table : TableDefinition) : String :=
  let columns := table.columns.map fun (name, column) => column.text name
  let key := if table.primaryKey.isEmpty then []
    else ["PRIMARY KEY (" ++ Sql.quoteList table.primaryKey ++ ")"]
  "CREATE TABLE " ++ Sql.quote table.name ++ " (" ++ Sql.commaList (columns ++ key) ++ ")"

/-- The statements that create the indexes, in the order of their names. -/
def TableDefinition.indexTexts (table : TableDefinition) : List String :=
  table.indexes.map (Index.createText table.name)

end RecordTables
