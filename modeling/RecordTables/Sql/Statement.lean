import RecordTables.Row
import RecordTables.Sql.Query

/-!
# Statements

The texts of the four data statements, with their parameters in the order of the marks.
-/

namespace RecordTables.Sql

/-- A text to execute and the values of its marks. -/
structure Statement where
  text : String
  params : List Value
  deriving Inhabited

/-- The part of a statement that filters rows. -/
def whereText : Option Predicate → String
  | none => ""
  | some p => " WHERE " ++ p.text

def whereParams (filter : Option Predicate) : List Value := (filter.map Predicate.params).getD []

/-- The part of a statement that orders rows. -/
def orderText : List OrderTerm → String
  | [] => ""
  | terms => " ORDER BY " ++ commaList (terms.map OrderTerm.text)

/-- The part of a statement that cuts out a page.  An offset counts only together with a limit. -/
def pageText (limit offset : UInt64) : String :=
  if limit = 0 then ""
  else " LIMIT " ++ toString limit.toNat ++ (if offset = 0 then "" else " OFFSET " ++ toString offset.toNat)

namespace Statement

/-- Inserts one row. -/
def insert (table : String) (row : Row) : Statement :=
  { text := "INSERT INTO " ++ quote table ++ " (" ++ quoteList row.names ++ ") VALUES (" ++ marks row.size ++ ")"
    params := row.values }

/-- Selects all columns of the rows that a query asks for. -/
def select (table : String) (q : Query) : Statement :=
  { text := "SELECT * FROM " ++ quote table ++ whereText q.filter ++ orderText q.order ++ pageText q.limit q.offset
    params := whereParams q.filter }

/-- Assigns the columns of a row; an empty row assigns nothing, and there is no statement for it. -/
def update? (table : String) (row : Row) (filter : Option Predicate) : Option Statement :=
  if row.isEmpty then none
  else some
    { text := "UPDATE " ++ quote table ++ " SET " ++ commaList (row.names.map fun n => quote n ++ " = ?") ++
        whereText filter
      params := row.values ++ whereParams filter }

/-- Deletes the rows that a condition holds for. -/
def delete (table : String) (filter : Option Predicate) : Statement :=
  { text := "DELETE FROM " ++ quote table ++ whereText filter
    params := whereParams filter }

end Statement

end RecordTables.Sql
