import RecordTables.Record.Probe

/-!
# Record types

A record type is a shape together with what the table of its records is called and how they are told apart.  Its
table definition, the writing of its records into rows and their reading from rows all go by the one shape.
-/

namespace RecordTables

/-- A type whose values are the rows of a table. -/
structure RecordType where
  shape : Shape
  table : String
  primaryKey : List String := []
  indexes : List Index := []
  deriving Inhabited

namespace RecordType

/-- A record type whose table is called like the type. -/
def ofShape (shape : Shape) (primaryKey : List String) (indexes : List Index) : RecordType :=
  { shape, table := shape.typeName.short, primaryKey, indexes }

variable (type : RecordType)

/-- The definition of the table. -/
def definition (registry : Registry) : Outcome TableDefinition := do
  let (_, columns) ← type.shape.probeRecord registry
  TableDefinition.make type.table columns type.primaryKey type.indexes

/-- The row of a record in its own table. -/
def encode (registry : Registry) (d : Datum) : Outcome Row := do
  d.encodeWith (← type.definition registry)

/-- The record that a row holds. -/
def decode (row : Row) : Outcome Datum := type.shape.decodeRow row

end RecordType

end RecordTables
