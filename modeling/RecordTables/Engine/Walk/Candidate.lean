import RecordTables.Engine.Walk.Magnitude
import RecordTables.Engine.Walk.Term

/-!
# Candidates for a walk

The rows of a table can be met in the order of their numbers or in the order of an index.  Bounds shorten a walk
through either of them.  Each candidate has an estimate of its cost and of the rows that it meets; a table is taken
to be large, and each further part of an index to tell rows apart.
-/

namespace RecordTables.Engine.Walk

/-- What a walk is chosen for. -/
structure Search where
  table : Table
  /-- The parts that the result is sorted by, and whether they descend. -/
  order : List (Option Part × Bool)
  /-- The greatest number of rows that are asked for. -/
  limit : Option Magnitude
  /-- The number of columns of the result. -/
  width : Nat
  /-- Whether the rows are about to be changed. -/
  changes : Bool
  /-- The columns that the selection mentions. -/
  used : List Nat

/-! ## Routes -/

/-- The rows of a table, sorted in one way. -/
structure Route where
  /-- The place among all routes, counted from one. -/
  place : Nat
  /-- The index; there is none for the numbers of the rows. -/
  index : Option TableIndex
  /-- The parts of the index, and then the number of the row. -/
  parts : List Part
  /-- The rows that agree in no part, in the first one, and so on. -/
  counts : List Magnitude
  /-- The cost of a row on the route. -/
  step : Magnitude
  /-- Whether the route shows all that is needed of a row. -/
  complete : Bool
  /-- Whether the route has a part that the result is sorted by. -/
  sorts : Bool

namespace Route

/-- The number of parts before the number of the row. -/
def keyLength (r : Route) : Nat := r.parts.length - 1

end Route

/-- The rows that a table is taken to have. -/
def tableRows : Magnitude := 200

/-- The width of a column; texts and blobs are wider than numbers. -/
def columnWidth (c : TableColumn) : Nat :=
  if (c.affinity = .text ∨ c.affinity = .blob) ∧ c.type ≠ "" then 5 else 1

/-- The width of a row. -/
def tableWidth (table : Table) : Magnitude :=
  let rowNumber := if table.numberColumn.isSome then 0 else 1
  Magnitude.ofCount (4 * (table.columns.map columnWidth).foldl (· + ·) rowNumber)

/-- The width of an entry of an index. -/
def indexWidth (table : Table) (index : TableIndex) : Magnitude :=
  let widths := index.parts.map fun
    | some i => (table.columns[i]?.map columnWidth).getD 1
    | none => 1
  Magnitude.ofCount (4 * widths.foldl (· + ·) 1)

/-- The rows that agree in the first parts of an index. -/
def indexCounts (index : TableIndex) : List Magnitude :=
  let shared := (List.range index.parts.length).map fun i => [33, 32, 30, 28, 27][i]?.getD 23
  let last := if index.unique then shared.dropLast ++ [0] else shared
  tableRows :: last ++ [0]

namespace Search

variable (search : Search)

/-- The route along the numbers of the rows. -/
def numberRoute : Route :=
  { place := 1
    index := none
    parts := [.number]
    counts := [tableRows, 0]
    step := 16
    complete := true
    sorts := search.order.any fun k => k.1 == some .number }

/-- The route along an index. -/
def indexRoute (place : Nat) (index : TableIndex) : Route :=
  let parts := index.parts.map fun part => (part.map (partOf search.table)).getD .expression
  { place
    index := some index
    parts := parts ++ [.number]
    counts := indexCounts index
    step := 1 + 15 * indexWidth search.table index / tableWidth search.table
    complete := search.used.all fun c =>
      index.parts.contains (some c) || search.table.numberColumn == some c
    sorts := search.order.any fun k => match k.1 with
      | some .number => true
      | some part => parts.contains part
      | none => false }

def routes : List Route :=
  search.numberRoute :: search.table.indexes.zipIdx.map fun (index, i) => search.indexRoute (i + 2) index

end Search

/-! ## Candidates -/

/-- What a candidate goes along. -/
inductive Way where
  | route (route : Route)
  /-- One branch of an alternative after the other. -/
  | branches (mark : Nat)

/-- A way to walk. -/
structure Candidate where
  way : Way
  /-- The bounds that are followed. -/
  bounds : List Bound
  /-- The parts that bounds fix; these bounds come first. -/
  leading : Nat
  cost : Magnitude
  rows : Magnitude

namespace Candidate

variable (c : Candidate)

/-- The route along an index. -/
def indexRoute? : Option Route :=
  match c.way with
  | .route r => if r.index.isSome then some r else none
  | .branches _ => none

/-- Candidates of one family compete; those along a route that sorts are kept apart. -/
def family : Nat :=
  match c.way with
  | .route r => if r.sorts then r.place else 0
  | .branches _ => 0

/-- Whether one candidate along an index follows less than another one and promises no more. -/
def weaker (x y : Candidate) : Bool :=
  match x.indexRoute?, y.indexRoute? with
  | some a, some b =>
      (x.cost ≤ y.cost || x.rows ≤ y.rows) &&
        ((x.leading < y.leading && a.place == b.place) ||
          (x.bounds.length < y.bounds.length &&
            x.bounds.all (fun s => y.bounds.any fun t => s.mark == t.mark) &&
            (!a.complete || b.complete)))
  | _, _ => false

/-- A candidate beside the others: what follows more is not more costly than what follows less. -/
def besides (others : List Candidate) : Candidate :=
  others.foldl (fun c p =>
    if p.weaker c then { c with cost := min p.cost c.cost, rows := min (p.rows - 1) c.rows }
    else if c.weaker p then { c with cost := max p.cost c.cost, rows := max (p.rows + 1) c.rows }
    else c) c

/-- Whether a candidate is at least as good as another one of its family. -/
def covers (p q : Candidate) : Bool := p.family == q.family && p.cost ≤ q.cost && p.rows ≤ q.rows

/-- Puts a candidate among the others.  It takes the place of the first one that it covers, and the rest of those
that it covers go, up to one that covers it. -/
def place : List Candidate → List Candidate
  | [] => [c]
  | p :: rest =>
      if p.covers c then p :: rest
      else if c.covers p then c :: clear rest
      else p :: place rest
where
  /-- Without the candidates that are covered. -/
  clear : List Candidate → List Candidate
    | [] => []
    | p :: rest => if p.covers c then p :: rest else if c.covers p then clear rest else p :: clear rest

/-- The candidates with one more. -/
def addTo (others : List Candidate) : List Candidate := (c.besides others).place others

end Candidate

/-! ## Estimates -/

/-- A conjunction that bounds a walk. -/
structure Conjunction where
  terms : List Term
  /-- The bounds of the terms, and those of the conjunctions around them. -/
  bounds : List Bound

/-- The rows that are left by the terms that no bound settles.  An equality leaves at most a quarter. -/
def rowsLeft (terms : List Term) (bounds : List Bound) (rows : Magnitude) : Magnitude :=
  let unsettled := terms.filter fun t =>
    t.facts.culls && !bounds.any fun b => b.mark == t.facts.mark || b.settles == some t.facts.mark
  let strict := unsettled.any fun t => (t.facts.bound.map Bound.guide) == some .equal
  min (rows - unsettled.length) (tableRows - if strict then 20 else 0)

/-- The rows between bounds: a quarter for one, a sixty-fourth for two. -/
def rowsBetween (sides : Nat) (rows : Magnitude) : Magnitude :=
  min (rows - sides) (max 10 (rows - if sides = 1 then 20 else 60))

namespace Route

variable (route : Route)

/-- The candidate along a route that meets some rows, `repeats` times over. -/
def candidate (terms : List Term) (bounds : List Bound) (leading : Nat) (rows repeats : Magnitude) : Candidate :=
  let found := Magnitude.plus (Magnitude.log tableRows) (rows + route.step)
  let shown := if route.complete then found else Magnitude.plus found (rows + 16)
  { way := .route route
    bounds, leading
    cost := shown + repeats
    rows := rowsLeft terms bounds (rows + repeats) }

/-- The greatest number of candidates that are looked at. -/
def maxCandidates : Nat := 21000

/-- The candidates that follow further bounds, part by part. -/
def extend (conjunction : Conjunction) :
    List Part → List Magnitude → List Bound → Magnitude → Magnitude → Array Candidate → Array Candidate
  | part :: parts, count :: next :: counts, followed, rows, repeats, found =>
      let usable := conjunction.bounds.filter fun b =>
        b.part == part && (b.exact || part == .number)
      let make (bounds : List Bound) (leading : Nat) (rows repeats : Magnitude) : Candidate :=
        route.candidate conjunction.terms bounds leading rows repeats
      usable.foldl (fun found b =>
        if maxCandidates ≤ found.size then found
        else
          let bounds := followed ++ [b]
          let fixed (rows repeats : Magnitude) : Array Candidate :=
            extend conjunction parts (next :: counts) bounds rows repeats
              (found.push (make bounds (followed.length + 1) rows repeats))
          match b.guide with
          | .equal => fixed (rows + next - count) repeats
          | .member n => fixed (rows + next - count) (repeats + Magnitude.ofCount n)
          | .absent => fixed (rows + next - count + 10) repeats
          | .below => found.push (make bounds followed.length (rowsBetween 1 rows) repeats)
          | .above =>
              (usable.filter (·.guide == .below)).foldl
                (fun found last =>
                  found.push (make (bounds ++ [last]) followed.length (rowsBetween 2 rows) repeats))
                (found.push (make bounds followed.length (rowsBetween 1 rows) repeats)))
        found
  | _, _, _, _, _, found => found

/-- The candidates along a route that follow some bound. -/
def bounded (conjunction : Conjunction) : List Candidate :=
  (route.extend conjunction route.parts route.counts [] tableRows 0 #[]).toList

/-- The look-ups of whole rows that an unbounded walk along an index needs.  Terms that the index can answer come
before them. -/
def lookUps (table : Table) (index : TableIndex) (terms : List Term) : Magnitude :=
  let answered (columns : List Nat) : Bool :=
    columns.all fun c => index.parts.contains (some c) || table.numberColumn == some c
  let conditions :=
    terms.map (fun t => (t.facts.columns, (t.facts.bound.map Bound.guide) == some .equal)) ++
      terms.reverse.flatMap fun t => t.facts.hints.map fun _ => (t.facts.columns, false)
  ((conditions.takeWhile fun c => answered c.1).map fun c => if c.2 then -20 else -1).foldl (· + ·)
    (tableRows + 16)

/-- The candidate that follows no bound, if it is worth a thought. -/
def unbounded? (search : Search) (terms : List Term) : Option Candidate :=
  let make (cost : Magnitude) : Candidate :=
    ⟨.route route, [], 0, cost, rowsLeft terms [] tableRows⟩
  match route.index with
  | none => some (make (tableRows + route.step))
  | some index =>
      let cost := tableRows + route.step
      if route.sorts then
        some (make (if route.complete then cost
          else Magnitude.plus cost (lookUps search.table index terms)))
      else if route.complete && !search.changes && indexWidth search.table index < tableWidth search.table then
        some (make cost)
      else none

end Route

end RecordTables.Engine.Walk
