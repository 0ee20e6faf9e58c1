import RecordTables.Record.Decode
import RecordTables.Schema.Table

/-!
# Table definitions from the catalog

The engine lists the columns of a table, its indexes and their parts, each in any order.  The definition follows
from ranks, names and positions alone, so the order of the lists does not matter.
-/

namespace RecordTables

/-- What the catalog says about a column: the rank in the primary key counts from one, and is zero outside. -/
structure CatalogColumn where
  name : String
  declared : String
  notNull : Bool
  rank : Int
  deriving DecidableEq, Repr

/-- What the catalog says about an index. -/
structure CatalogIndex where
  name : String
  unique : Bool
  origin : String
  deriving DecidableEq, Repr

/-- A part of an index; one that is an expression has no name. -/
structure CatalogPart where
  position : Int
  name : Option String
  deriving DecidableEq, Repr

namespace Catalog

open Shape (cellOf)

/-! ## Statements -/

def columnsText : String := "SELECT name, type, \"notnull\", pk FROM pragma_table_info(?1)"

def indexesText : String := "SELECT name, \"unique\", origin FROM pragma_index_list(?1)"

def partsText : String := "SELECT seqno, name FROM pragma_index_info(?1)"

/-! ## Rows -/

def columnOf (row : Row) : Outcome CatalogColumn := do
  return {
    name := ← (← cellOf row "name").text
    declared := ← (← cellOf row "type").text
    notNull := (← (← cellOf row "notnull").integer) != 0
    rank := ← (← cellOf row "pk").integer }

def indexOf (row : Row) : Outcome CatalogIndex := do
  return {
    name := ← (← cellOf row "name").text
    unique := (← (← cellOf row "unique").integer) != 0
    origin := ← (← cellOf row "origin").text }

def partOf (row : Row) : Outcome CatalogPart := do
  let position ← (← cellOf row "seqno").integer
  let cell ← cellOf row "name"
  if cell.value.isNull then return ⟨position, none⟩ else return ⟨position, some (← cell.text)⟩

/-! ## Definitions -/

/-- The mark of an index that a statement of its own created. -/
def createdOrigin : String := "c"

def isCreated (index : CatalogIndex) : Bool := index.origin == createdOrigin

/-- The names of the key columns in the order of their ranks. -/
def primaryKey (columns : List CatalogColumn) : List String :=
  let keyed := columns.filter fun c => decide (0 < c.rank)
  let sorted := keyed.mergeSort fun a b => decide (a.rank < b.rank ∨ (a.rank = b.rank ∧ a.name ≤ b.name))
  sorted.map CatalogColumn.name

/-- A column of the definition. -/
def column (c : CatalogColumn) : String × Column := (c.name, ⟨.ofDeclared c.declared, !c.notNull⟩)

/-- An index of the definition: its named parts in the order of their positions. -/
def index (i : CatalogIndex) (parts : List CatalogPart) : Index :=
  let sorted := parts.mergeSort fun a b => decide (a.position ≤ b.position)
  { name := i.name, columns := sorted.filterMap CatalogPart.name, unique := i.unique }

/-- The definition that the catalog describes; indexes that constraints brought about do not belong to it. -/
def definition (table : String) (columns : List CatalogColumn)
    (indexes : List (CatalogIndex × List CatalogPart)) : Outcome TableDefinition :=
  TableDefinition.make table (columns.map column) (primaryKey columns)
    ((indexes.filter fun (i, _) => isCreated i).map fun (i, parts) => index i parts)

end Catalog

end RecordTables
