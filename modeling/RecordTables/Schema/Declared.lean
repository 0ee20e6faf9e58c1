import RecordTables.Value

/-!
# Declared types

A table declares its columns with free text.  `ColumnType.ofDeclared` finds the storage class that such a text
stands for: the first keyword of a fixed list that occurs anywhere in it decides.
-/

namespace RecordTables

/-- Whether `pattern` occurs in the text. -/
def occursIn (pattern : List Char) : List Char → Bool
  | [] => pattern.isEmpty
  | c :: rest => pattern.isPrefixOf (c :: rest) || occursIn pattern rest

/-- The storage class that a declared type stands for.  Only ASCII letters match in both cases. -/
def ColumnType.ofDeclared (declared : String) : ColumnType :=
  let upper := declared.toList.map Char.toUpper
  let has (word : String) : Bool := occursIn word.toList upper
  if has "INT" then .integer
  else if has "CHAR" || has "CLOB" || has "TEXT" then .text
  else if upper.isEmpty || has "BLOB" then .blob
  else .real

end RecordTables
