/-!
# Failures of the engine

Each failure is a cause with a code.  A failure that belongs to a place in a statement carries the offset of the
place in bytes, and its text quotes the statement.
-/

namespace RecordTables.Engine

/-- Why the engine refuses a statement. -/
inductive Failure where
  /-- A token that cannot stand where it stands. -/
  | unexpectedToken (raw : String) (offset : Nat)
  | unrecognizedToken (raw : String) (offset : Nat)
  | incompleteInput
  /-- The name is given as the statement spells it. -/
  | tableExists (raw : String) (offset : Nat)
  | nameOfIndex (name : String)
  | nameOfTable (name : String)
  | reservedName (name : String)
  | duplicateColumn (name : String)
  | secondPrimaryKey (table : String)
  | indexExists (name : String)
  | triggerExists (raw : String) (offset : Nat)
  | noSuchTable (name : String)
  | noColumnNamed (table column : String)
  | noSuchColumn (name : String) (offset : Option Nat)
  | noSuchFunction (name : String) (offset : Nat)
  | valueCount (given needed : Nat)
  | valueCountOf (table : String) (columns given : Nat)
  | unequalValues
  | parameterCount (given needed : Nat)
  /-- An expression of too many levels. -/
  | tooDeep
  | tooManyVariables (offset : Nat)
  /-- The number of a parameter is out of range. -/
  | variableNumber (offset : Nat)
  | tooManyColumnsOn (table : String)
  /-- A list of columns or values that is too long. -/
  | tooManyColumnsIn (list : String)
  | tooManyOrderTerms
  | patternTooComplex
  | notFunction (name : String)
  | readOnly
  | notNull (table column : String)
  | uniqueRow (columns : List String)
  | uniqueIndex (columns : List String)
  | datatypeMismatch
  | cannotOpen (path : String)
  /-- A result has no row where one is asked for. -/
  | noRows
  /-- A result has no column of a name. -/
  | noResultColumn (name : String)
  deriving DecidableEq, Repr

namespace Failure

/-- The code of a failure. -/
def code : Failure → Int
  | .readOnly => 8
  | .cannotOpen _ => 14
  | .datatypeMismatch => 20
  | .notNull .. => 1299
  | .uniqueRow _ => 1555
  | .uniqueIndex _ => 2067
  | _ => 1

/-- A text that belongs to a place in a statement. -/
def located (text statement : String) (offset : Nat) : String :=
  text ++ " in " ++ statement ++ " at offset " ++ toString offset

def uniqueText (columns : List String) : String :=
  "UNIQUE constraint failed: " ++ String.intercalate ", " columns

/-- The text of a failure of a statement. -/
def text (statement : String) : Failure → String
  | .unexpectedToken raw offset => located ("near \"" ++ raw ++ "\": syntax error") statement offset
  | .unrecognizedToken raw offset => located ("unrecognized token: \"" ++ raw ++ "\"") statement offset
  | .incompleteInput => "incomplete input"
  | .tableExists raw offset => located ("table " ++ raw ++ " already exists") statement offset
  | .nameOfIndex name => "there is already an index named " ++ name
  | .nameOfTable name => "there is already a table named " ++ name
  | .reservedName name => "object name reserved for internal use: " ++ name
  | .duplicateColumn name => "duplicate column name: " ++ name
  | .secondPrimaryKey table => "table \"" ++ table ++ "\" has more than one primary key"
  | .indexExists name => "index " ++ name ++ " already exists"
  | .triggerExists raw offset => located ("trigger " ++ raw ++ " already exists") statement offset
  | .noSuchTable name => "no such table: " ++ name
  | .noColumnNamed table column => "table " ++ table ++ " has no column named " ++ column
  | .noSuchColumn name none => "no such column: " ++ name
  | .noSuchColumn name (some offset) => located ("no such column: " ++ name) statement offset
  | .noSuchFunction name offset => located ("no such function: " ++ name) statement offset
  | .valueCount given needed => toString given ++ " values for " ++ toString needed ++ " columns"
  | .valueCountOf table columns given =>
      "table " ++ table ++ " has " ++ toString columns ++ " columns but " ++ toString given ++
        " values were supplied"
  | .unequalValues => "all VALUES must have the same number of terms"
  | .parameterCount given needed =>
      "Wrong number of parameters passed to query. Got " ++ toString given ++ ", needed " ++ toString needed
  | .tooDeep => "Expression tree is too large (maximum depth 1000)"
  | .tooManyVariables offset => located "too many SQL variables" statement offset
  | .variableNumber offset => located "variable number must be between ?1 and ?32766" statement offset
  | .tooManyColumnsOn table => "too many columns on " ++ table
  | .tooManyColumnsIn list => "too many columns in " ++ list
  | .tooManyOrderTerms => "too many terms in ORDER BY clause"
  | .patternTooComplex => "LIKE or GLOB pattern too complex"
  | .notFunction name => "'" ++ name ++ "' is not a function"
  | .readOnly => "attempt to write a readonly database"
  | .notNull table column => "NOT NULL constraint failed: " ++ table ++ "." ++ column
  | .uniqueRow columns => uniqueText columns
  | .uniqueIndex columns => uniqueText columns
  | .datatypeMismatch => "datatype mismatch"
  | .cannotOpen path => "unable to open database file: " ++ path
  | .noRows => "Query returned no rows"
  | .noResultColumn name => "Invalid column name: " ++ name

end Failure

end RecordTables.Engine
