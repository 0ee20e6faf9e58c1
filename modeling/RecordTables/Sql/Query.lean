import RecordTables.Sql.Predicate

/-!
# Queries

A query collects filters, order terms and paging.  Filters accumulate as a conjunction, order terms are appended,
and the last limit and offset count.
-/

namespace RecordTables.Sql

/-- A term of an ordering. -/
structure OrderTerm where
  column : String
  descending : Bool
  deriving DecidableEq, Repr

def OrderTerm.text (term : OrderTerm) : String :=
  quote term.column ++ (if term.descending then " DESC" else " ASC")

/-- What a selection asks for.  A limit of zero is no limit. -/
structure Query where
  filter : Option Predicate := none
  order : List OrderTerm := []
  limit : UInt64 := 0
  offset : UInt64 := 0
  deriving Inhabited

namespace Query

def empty : Query := {}

/-- Narrows the query by one more condition. -/
def addFilter (q : Query) (p : Predicate) : Query :=
  { q with filter := some (match q.filter with
      | none => p
      | some existing => .and existing p) }

def addOrder (q : Query) (term : OrderTerm) : Query := { q with order := q.order ++ [term] }

def setLimit (q : Query) (n : UInt64) : Query := { q with limit := n }

def setOffset (q : Query) (n : UInt64) : Query := { q with offset := n }

/-- The columns that the query refers to, in the order of the text. -/
def columns (q : Query) : List String :=
  (q.filter.map Predicate.columns).getD [] ++ q.order.map OrderTerm.column

end Query

end RecordTables.Sql
