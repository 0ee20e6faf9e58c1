import RecordTables.Engine.Store

/-!
# Terms of a filter

A filter is a conjunction of terms.  A term that compares a part of an index with a constant bounds a walk through
that index.  An alternative of several conditions has branches, each a conjunction of its own.
-/

namespace RecordTables.Engine.Walk

/-- What rows are sorted by in an index. -/
inductive Part where
  /-- The number of the row. -/
  | number
  | column (index : Nat)
  | expression
  deriving DecidableEq, Repr

/-- How a part is compared with a constant. -/
inductive Guide where
  | equal
  | member (count : Nat)
  | absent
  | below
  | above
  deriving DecidableEq, Repr

/-- A comparison that a walk can follow. -/
structure Bound where
  /-- No two bounds have the same mark. -/
  mark : Nat
  /-- The mark of the term that holds wherever the bound does. -/
  settles : Option Nat
  part : Part
  guide : Guide
  /-- Whether the case of letters counts, as it does in every index. -/
  exact : Bool
  deriving Repr

/-- What is known of a term. -/
structure Facts where
  mark : Nat
  condition : Expr
  /-- The columns that the condition mentions. -/
  columns : List Nat
  /-- Whether the condition may refuse rows that the other terms let pass. -/
  culls : Bool
  bound : Option Bound
  /-- The bounds that follow from the term without being all of it. -/
  hints : List Bound

/-- A term of a conjunction. -/
inductive Term where
  | plain (facts : Facts)
  | anyOf (facts : Facts) (branches : List (List Term))

namespace Term

def facts : Term → Facts
  | .plain f => f
  | .anyOf f _ => f

/-- Whether some bound comes from one of several terms. -/
def anyBound (terms : List Term) : Bool := terms.any fun t => t.facts.bound.isSome || !t.facts.hints.isEmpty

/-- All bounds of a conjunction: those of its terms in their order, then what follows from the last term, and so
on up to the first. -/
def bounds (terms : List Term) : List Bound :=
  terms.filterMap (·.facts.bound) ++ terms.reverse.flatMap (·.facts.hints)

end Term

/-! ## Columns of a condition -/

/-- The part that a column is. -/
def partOf (table : Table) (column : Nat) : Part :=
  if table.numberColumn = some column then .number else .column column

/-- Whether a column is never NULL. -/
def neverNull (table : Table) (column : Nat) : Bool :=
  table.numberColumn == some column || (table.columns[column]?.map TableColumn.notNull).getD false

/-- A column, and whether it is an operand of a comparison. -/
abbrev Mention := Nat × Bool

/-- A mention of an operand of a comparison. -/
def operand (compared : Bool) : Expr → List Mention
  | .column c => [(c, compared)]
  | _ => []

mutual

/-- The columns that a condition mentions.  Whether a column that is never NULL is NULL needs no row. -/
def mentions (table : Table) : Expr → List Mention
  | .column c => [(c, false)]
  | .call _ arguments _ => mentionsOf table arguments
  | .asText e => mentions table e
  | .add l r => mentions table l ++ mentions table r
  | .compare relation (.column c) r => (c, relation != .notEqual) :: mentions table r
  | .compare _ l r => mentions table l ++ mentions table r
  | .like e p => mentions table e ++ mentions table p
  | .isNull (.column c) => if neverNull table c then [] else [(c, false)]
  | .isNull e => mentions table e
  | .isIn (.column c) [v] => (c, true) :: mentions table v
  | .isIn e values => mentions table e ++ mentionsOf table values
  | .not e => mentions table e
  | .and l r => mentions table l ++ mentions table r
  | .or l r => mentions table l ++ mentions table r
  | _ => []

def mentionsOf (table : Table) : List Expr → List Mention
  | [] => []
  | e :: rest => mentions table e ++ mentionsOf table rest

end

/-! ## Bounds -/

/-- How a relation with a constant guides a walk. -/
def guideOf? : Relation → Option Guide
  | .equal => some .equal
  | .notEqual => none
  | .less => some .below
  | .lessEqual => some .below
  | .greater => some .above
  | .greaterEqual => some .above

/-- A relation with its operands exchanged. -/
def exchanged : Relation → Relation
  | .less => .greater
  | .lessEqual => .greaterEqual
  | .greater => .less
  | .greaterEqual => .lessEqual
  | relation => relation

/-- The column and the comparison that a condition consists of. -/
def comparison? (table : Table) : Expr → Option (Nat × Guide)
  | .compare relation (.column c) r => if r.isConstant then (guideOf? relation).map (c, ·) else none
  | .compare relation l (.column c) => if l.isConstant then (guideOf? (exchanged relation)).map (c, ·) else none
  | .isIn (.column c) [v] => if v.isConstant then some (c, .equal) else none
  | .isIn (.column c) values => if values.all Expr.isConstant then some (c, .member values.length) else none
  | .isNull (.column c) => if neverNull table c then none else some (c, .absent)
  | _ => none

/-- The start of a pattern before its first percent sign or underscore, and whether nothing but one percent sign
follows. -/
def openingOf (pattern : ByteArray) : List UInt8 × Bool :=
  let bytes := pattern.toList.takeWhile (· != 0)
  let opening := bytes.takeWhile fun b => b.toNat != percentSign && b.toNat != underscore
  (opening, bytes.drop opening.length == [percentSign.toUInt8])

/-- Whether the start of a pattern, or what comes right after it, could be a number. -/
def numberLike (opening : List UInt8) : Bool :=
  let next := opening.dropLast ++ (opening.getLast?.map (· + 1)).toList
  opening == [0x2d] || (wholeNumber? ⟨opening.toArray⟩).isSome || (wholeNumber? ⟨next.toArray⟩).isSome

/-- The text that an expression is. -/
def textOf? (parameters : Array StoredValue) : Expr → Option ByteArray
  | .literal (.text bytes) => some bytes
  | .parameter k => match parameters[k - 1]? with
      | some (.text bytes) => some bytes
      | _ => none
  | _ => none

/-- What a pattern says of a column: everything that matches it lies between its start and what comes after. -/
def patternHints (table : Table) (parameters : Array StoredValue) (mark : Nat) : Expr → List Bound
  | .like (.column c) p =>
      match textOf? parameters p with
      | none => []
      | some pattern =>
          let (opening, whole) := openingOf pattern
          let isText := (table.columns[c]?.map TableColumn.affinity) == some .text
          if opening.isEmpty || opening.getLast? == some 0xff || (!isText && numberLike opening) then []
          else
            let settles := if whole && opening.getLast? != some 0x40 then some mark else none
            [⟨4 * mark + 2, settles, partOf table c, .above, false⟩,
              ⟨4 * mark + 3, settles, partOf table c, .below, false⟩]
  | _ => []

/-- An alternative of equalities with one column is membership in a list. -/
def memberHints (mark : Nat) (branches : List (List Term)) : List Bound :=
  let parts := branches.map fun
    | [.plain f] => f.bound.bind fun b => if b.guide = .equal then some b.part else none
    | _ => none
  match parts with
  | some part :: _ =>
      if parts.all (· == some part) then [⟨4 * mark + 2, some mark, part, .member parts.length, true⟩] else []
  | _ => []

/-! ## Reading a filter -/

/-- What the terms of a filter are read with. -/
structure Reader where
  table : Table
  parameters : Array StoredValue
  /-- The columns that an equality fixes, and the marks of these equalities. -/
  fixed : List (Nat × Nat)

namespace Reader

variable (reader : Reader)

/-- Whether a mention of a column in a term is the mention of a constant: some other term fixes the column.  Columns
without a preference keep values apart that are equal, so only comparisons can do with the constant. -/
def isFixed (mark : Nat) (mention : Mention) : Bool :=
  reader.fixed.any fun (c, m) => c == mention.1 && m != mark &&
    (mention.2 || (reader.table.columns[c]?.map TableColumn.affinity) != some .blob)

/-- The facts of a condition that is no conjunction. -/
def factsOf (mark : Nat) (condition : Expr) : Facts :=
  let mentioned := mentions reader.table condition
  { mark, condition
    columns := mentioned.map Prod.fst
    culls := mentioned.any fun m => !reader.isFixed mark m
    bound := (comparison? reader.table condition).map fun (c, guide) =>
      ⟨mark, some mark, partOf reader.table c, guide, true⟩
    hints := patternHints reader.table reader.parameters mark condition }

mutual

/-- The terms of a conjunction.  Each condition is marked by its place in the filter. -/
def terms (mark : Nat) : Expr → List Term
  | .and l r => terms (4 * mark) l ++ terms (4 * mark + 1) r
  | .or l r =>
      let parts := branches (4 * mark) l ++ branches (4 * mark + 1) r
      [.anyOf { reader.factsOf mark (.or l r) with hints := memberHints mark parts } parts]
  | e => [.plain (reader.factsOf mark e)]

/-- The branches of an alternative. -/
def branches (mark : Nat) : Expr → List (List Term)
  | .or l r => branches (4 * mark) l ++ branches (4 * mark + 1) r
  | .and l r => [terms (4 * mark) l ++ terms (4 * mark + 1) r]
  | e => [[.plain (reader.factsOf mark e)]]

end

end Reader

/-- The last equality with each column. -/
def fixedColumns (table : Table) : List Term → List (Nat × Nat)
  | [] => []
  | t :: rest =>
      let later := fixedColumns table rest
      match comparison? table t.facts.condition with
      | some (c, .equal) => if later.any (·.1 == c) then later else (c, t.facts.mark) :: later
      | _ => later

/-- The terms of a filter, of which equalities may put constants in the place of columns. -/
def termsOf (table : Table) (parameters : Array StoredValue) (constants : Bool) : Option Expr → List Term
  | none => []
  | some e =>
      let plain := (Reader.mk table parameters []).terms 1 e
      if constants then (Reader.mk table parameters (fixedColumns table plain)).terms 1 e else plain

end RecordTables.Engine.Walk
