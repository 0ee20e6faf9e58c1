import RecordTables.Value
import RecordTables.Sql.Identifier

/-!
# Predicates

A predicate is a tree of conditions on columns.  `Predicate.text` writes it without parentheses, one parameter
mark per value, and `Predicate.params` lists the values in the order of their marks.
-/

namespace RecordTables.Sql

/-- The comparisons of a column with one value. -/
inductive Comparison where
  | eq
  | le
  | lt
  | like
  | ge
  | gt
  | ne
  deriving DecidableEq, Repr

def Comparison.sign : Comparison → String
  | .eq => "="
  | .le => "<="
  | .lt => "<"
  | .like => "LIKE"
  | .ge => ">="
  | .gt => ">"
  | .ne => "<>"

/-- A condition on the columns of a row. -/
inductive Predicate where
  | and (left right : Predicate)
  | or (left right : Predicate)
  | not (body : Predicate)
  | isNull (column : String)
  | isIn (column : String) (values : List Value)
  | compare (column : String) (comparison : Comparison) (value : Value)
  deriving Inhabited

namespace Predicate

/-- The column equals the value. -/
def eq (column : String) (value : Value) : Predicate := .compare column .eq value

/-- The conjunction of a list, from the left; an empty list has none. -/
def all? : List Predicate → Option Predicate
  | [] => none
  | first :: rest => some (rest.foldl .and first)

/-- The condition as it stands in a statement. -/
def text : Predicate → String
  | .and left right => left.text ++ " AND " ++ right.text
  | .or left right => left.text ++ " OR " ++ right.text
  | .not body => "NOT " ++ body.text
  | .isNull column => quote column ++ " IS NULL"
  | .isIn column values => quote column ++ " IN (" ++ marks values.length ++ ")"
  | .compare column comparison _ => quote column ++ " " ++ comparison.sign ++ " ?"

/-- The values in the order of their marks. -/
def params : Predicate → List Value
  | .and left right => left.params ++ right.params
  | .or left right => left.params ++ right.params
  | .not body => body.params
  | .isNull _ => []
  | .isIn _ values => values
  | .compare _ _ value => [value]

/-- The columns in the order in which they stand in the text. -/
def columns : Predicate → List String
  | .and left right => left.columns ++ right.columns
  | .or left right => left.columns ++ right.columns
  | .not body => body.columns
  | .isNull column => [column]
  | .isIn column _ => [column]
  | .compare column _ _ => [column]

/-- Equality of trees in which real numbers compare as numbers. -/
def same : Predicate → Predicate → Bool
  | .and a b, .and c d => a.same c && b.same d
  | .or a b, .or c d => a.same c && b.same d
  | .not a, .not b => a.same b
  | .isNull a, .isNull b => a == b
  | .isIn a vs, .isIn b ws =>
      a == b && vs.length == ws.length && (vs.zip ws).all fun (v, w) => v.same w
  | .compare a x v, .compare b y w => a == b && x == y && v.same w
  | _, _ => false

end Predicate

end RecordTables.Sql
