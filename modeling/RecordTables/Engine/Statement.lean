import RecordTables.Value
import RecordTables.Engine.Failure

/-!
# Statements of the engine

What the engine is asked to do, after its text has been read.  Names in expressions are still names here; a table
gives them their meaning.
-/

namespace RecordTables.Engine

/-- The comparisons of two operands. -/
inductive Relation where
  | equal
  | notEqual
  | less
  | lessEqual
  | greater
  | greaterEqual
  deriving DecidableEq, Repr

/-- An expression. -/
inductive Expr where
  | literal (value : StoredValue)
  /-- A name; one between double quotes that means nothing else stands for its own text. -/
  | name (text : String) (quoted : Bool) (offset : Nat)
  /-- A column of the row that a trigger is about, before or after the change. -/
  | changed (after : Bool) (column : String) (offset : Nat)
  /-- The column at a position of the row at hand. -/
  | column (index : Nat)
  /-- The parameter with a number, counted from one. -/
  | parameter (number : Nat)
  | countAll
  | call (function : String) (arguments : List Expr) (offset : Nat)
  /-- The operand as text. -/
  | asText (operand : Expr)
  | add (left right : Expr)
  | compare (relation : Relation) (left right : Expr)
  | like (operand pattern : Expr)
  | isNull (operand : Expr)
  | isIn (operand : Expr) (values : List Expr)
  | not (operand : Expr)
  | and (left right : Expr)
  | or (left right : Expr)
  deriving Inhabited

namespace Expr

/-- Whether an expression is the same for every row. -/
def isConstant : Expr → Bool
  | .literal _ => true
  | .parameter _ => true
  | .asText e => e.isConstant
  | .add l r => l.isConstant && r.isConstant
  | _ => false

mutual

/-- The levels of an expression.  Membership in one constant is an equality, and adds a level of its own to the
constant. -/
def height : Expr → Nat
  | .call _ arguments _ => heights arguments + 1
  | .asText e => e.height + 1
  | .add l r => max l.height r.height + 1
  | .compare _ l r => max l.height r.height + 1
  | .like e p => max e.height p.height + 1
  | .isNull e => e.height + 1
  | .isIn e [v] => max e.height (if v.isConstant then v.height + 1 else v.height) + 1
  | .isIn e values => max e.height (heights values) + 1
  | .not e => e.height + 1
  | .and l r => max l.height r.height + 1
  | .or l r => max l.height r.height + 1
  | _ => 1

/-- The most levels of several expressions. -/
def heights : List Expr → Nat
  | [] => 0
  | e :: rest => max e.height (heights rest)

end

def falsehood : Expr := .literal (.int 0)

def truth : Expr := .literal (.int 1)

/-- Whether an expression is the constant of falsehood. -/
def isFalsehood : Expr → Bool
  | .literal (.int n) => n == 0
  | _ => false

/-- Both of two expressions; a part that is never true leaves nothing else to be asked. -/
def both (l r : Expr) : Expr := if l.isFalsehood || r.isFalsehood then falsehood else .and l r

end Expr

/-- A column as a table declares it. -/
structure ColumnDeclaration where
  name : String
  type : String
  notNull : Bool
  deriving Inhabited

/-- A set of columns without repeated values. -/
structure KeyDeclaration where
  primary : Bool
  columns : List String
  deriving Inhabited

/-- The parentheses of a table declaration. -/
structure TableBody where
  columns : List ColumnDeclaration
  keys : List KeyDeclaration
  deriving Inhabited

/-- A column of a result. -/
inductive ResultColumn where
  | all
  | value (e : Expr) (name : String)

/-- Where rows come from. -/
inductive Source where
  /-- One row without columns. -/
  | none
  | table (name : String)
  /-- A view of the catalog, with its argument. -/
  | catalog (view : String) (argument : Expr)

/-- A term of an ordering. -/
structure OrderKey where
  key : Expr
  descending : Bool

/-- A selection. -/
structure Selection where
  columns : List ResultColumn
  source : Source
  filter : Option Expr
  order : List OrderKey
  limit : Option Expr
  offset : Option Expr

/-- An insertion; without a list of columns all are meant. -/
structure Insertion where
  table : String
  columns : Option (List String)
  rows : List (List Expr)

/-- A change of rows in place. -/
structure Update where
  table : String
  assignments : List (String × Expr)
  filter : Option Expr

/-- A removal of rows. -/
structure Deletion where
  table : String
  filter : Option Expr

/-- A statement that changes rows. -/
inductive Change where
  | insert (insertion : Insertion)
  | update (update : Update)
  | delete (deletion : Deletion)

/-- The kinds of change that a trigger waits for. -/
inductive Event where
  | insert
  | update
  | delete
  deriving DecidableEq, Repr

/-- A term of an index: a column, or an expression. -/
inductive IndexTerm where
  | column (name : String)
  | expression

/-- A statement. -/
inductive Statement where
  /-- The body is read last, so its failure comes after those that the name gives rise to. -/
  | createTable (name raw : String) (offset : Nat) (body : Except Failure TableBody)
  | createIndex (unique : Bool) (name table : String) (terms : List IndexTerm)
  | createTrigger (name raw : String) (offset : Nat) (event : Event) (table : String) (body : List Change)
  | select (selection : Selection)
  | change (change : Change)
  /-- A statement without any token. -/
  | nothing

end RecordTables.Engine
