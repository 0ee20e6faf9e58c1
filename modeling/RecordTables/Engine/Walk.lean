import RecordTables.Engine.Walk.Order

/-!
# Walks through a table

The rows of a selection come in the order in which the table is walked, as far as the selection does not ask for an
order.  A table is walked by the numbers of its rows or along an index, forward or backward, whichever is estimated
to cost least.  An alternative of several conditions may be walked branch by branch; a row that an earlier branch
has met is not met again.
-/

namespace RecordTables.Engine

/-- An order in which rows are met. -/
inductive Walk where
  | byNumber (backward : Bool)
  | byIndex (index : TableIndex) (backward : Bool)
  /-- One branch after the other, each with the conditions of its rows. -/
  | byBranch (branches : List (List Expr × Walk))
  deriving Inhabited

namespace Walk

/-! ## Costs of alternatives -/

/-- A cost, and the rows that are met for it. -/
abbrev Estimate := Magnitude × Magnitude

/-- The cheaper one of two estimates; fewer rows are never forgotten. -/
def cheaper (best : Option Estimate) (e : Estimate) : Option Estimate :=
  match best with
  | none => some e
  | some b => if e.1 ≤ b.1 then some (e.1, min b.2 e.2) else some b

/-- The least estimate among the routes that follow a bound. -/
def routeEstimate (search : Search) (others : List Candidate) (conjunction : Conjunction) : Option Estimate :=
  let candidates := search.routes.flatMap fun r => r.bounded conjunction
  (candidates.map fun c => c.besides others).foldl (fun best c => cheaper best (c.cost, c.rows)) none

mutual

/-- The estimate of walking the branches of an alternative, each of which has to follow a bound. -/
def alternativeEstimate (search : Search) (others : List Candidate) (around : List Bound) : Term → Option Estimate
  | .plain _ => none
  | .anyOf _ branches =>
      if branches.all Term.anyBound then
        (branchesEstimate search others around none branches).map fun e => (e.1 + 1, e.2)
      else none

/-- The sum of the estimates of several branches. -/
def branchesEstimate (search : Search) (others : List Candidate) (around : List Bound) (sum : Option Estimate) :
    List (List Term) → Option Estimate
  | [] => sum
  | terms :: rest =>
      let bounds := Term.bounds terms ++ around
      let direct := routeEstimate search others ⟨terms, bounds⟩
      match nestedEstimate search others bounds direct terms with
      | none => none
      | some e =>
          let sum := match sum with
            | none => e
            | some s => (Magnitude.plus s.1 e.1, Magnitude.plus s.2 e.2)
          branchesEstimate search others around (some sum) rest

/-- The least of an estimate and those of the alternatives in a conjunction. -/
def nestedEstimate (search : Search) (others : List Candidate) (around : List Bound) (best : Option Estimate) :
    List Term → Option Estimate
  | [] => best
  | t :: rest =>
      let best := match alternativeEstimate search others around t with
        | none => best
        | some e => cheaper best e
      nestedEstimate search others around best rest

end

/-! ## The choice -/

/-- All candidates for the walk of a conjunction. -/
def candidates (search : Search) (terms : List Term) : List Candidate :=
  let conjunction : Conjunction := ⟨terms, Term.bounds terms⟩
  let along := search.routes.foldl (fun found r =>
    let found := ((r.unbounded? search terms).toList).foldl (fun found c => c.addTo found) found
    (r.bounded conjunction).foldl (fun found c => c.addTo found) found) []
  terms.foldl (fun found t =>
    match alternativeEstimate search along conjunction.bounds t with
    | none => found
    | some e => Candidate.addTo ⟨.branches t.facts.mark, [], 0, e.1, e.2⟩ found) along

/-- A candidate with what is compared: its cost, its rows, and its cost without sorting. -/
structure Priced where
  candidate : Candidate
  cost : Magnitude
  unsorted : Magnitude
  backward : Bool
  /-- The terms of the ordering that hold. -/
  holding : Nat

/-- Whether one candidate is better than another. -/
def Priced.better (a b : Priced) : Bool :=
  a.cost < b.cost || (a.cost == b.cost &&
    (a.candidate.rows < b.candidate.rows || (a.candidate.rows == b.candidate.rows && a.unsorted < b.unsorted)))

/-- The best of several candidates; the first one of equals. -/
def best? : List Priced → Option Priced
  | [] => none
  | first :: rest => some (rest.foldl (fun a b => if b.better a then b else a) first)

/-- The cost of a candidate among all there is to do. -/
def startCost (c : Candidate) : Magnitude := Magnitude.plus (Magnitude.plus 0 c.cost) 0

/-- The price of a candidate without regard to the ordering. -/
def priceUnordered (c : Candidate) : Priced := ⟨c, startCost c, startCost c - 2, false, 0⟩

/-- The price of a candidate when the rows that are found have to be sorted. -/
def priceOrdered (search : Search) (all : List Bound) (rows : Magnitude) (c : Candidate) : Priced :=
  let (holding, backward) := search.kept false all c
  let unsorted := startCost c
  if holding < search.order.length then
    ⟨c, Magnitude.plus unsorted (search.sortingCost rows holding) + 3, unsorted, backward, holding⟩
  else ⟨c, unsorted, unsorted - 2, backward, holding⟩

/-- The best candidate, and whether it is walked backward.  The rows to be sorted are those of the best candidate
without an ordering; if that one fixes some part, only candidates that follow a bound themselves are looked at.  Where
everything is sorted, each turn of a walk still goes in the direction that the ordering asks for. -/
def choose? (search : Search) (terms : List Term) : Option (Candidate × Bool) := do
  let found := candidates search terms
  let first ← best? (found.map priceUnordered)
  if search.order.isEmpty then return (first.candidate, false)
  let rest := if first.candidate.leading = 0 then found
    else found.filter fun c => !c.bounds.isEmpty
  let all := Term.bounds terms
  let rows := if first.candidate.rows < 0 then 1 else first.candidate.rows + 1
  let winner ← best? (rest.map (priceOrdered search all rows))
  let numbersInTurns := match winner.candidate.way with
    | .route r => r.index.isNone && winner.candidate.bounds.any fun b => match b.guide with
        | .member _ => true
        | _ => false
    | .branches _ => false
  if winner.holding = 0 && !numbersInTurns then
    let (holding, backward) := search.kept true all winner.candidate
    return (winner.candidate, if holding = search.order.length then backward else winner.backward)
  return (winner.candidate, winner.backward)

/-- Whether a term guides a walk in some way; only such terms are handed on to the branches of another one. -/
def guides (t : Term) : Bool :=
  match t with
  | .plain f => f.bound.isSome
  | .anyOf _ _ => true

/-- The walk of a conjunction.  `fuel` is at least the number of alternatives in it, one of which is taken apart at
each step. -/
def ofTerms (search : Search) : Nat → List Term → Walk
  | 0, _ => .byNumber false
  | fuel + 1, terms =>
      match choose? search terms with
      | none => .byNumber false
      | some (c, backward) =>
          match c.way with
          | .route r => match r.index with
              | none => .byNumber backward
              | some index => .byIndex index backward
          | .branches mark =>
              let rest := terms.filter fun t => t.facts.mark != mark && guides t
              let parts := (terms.find? fun t => t.facts.mark == mark).elim [] fun t => match t with
                | .plain _ => []
                | .anyOf _ branches => branches
              .byBranch (parts.map fun part =>
                (part.map (·.facts.condition), ofTerms { search with order := [], limit := none } fuel (part ++ rest)))

/-- The number of alternatives in an expression. -/
def alternatives : Expr → Nat
  | .and l r => alternatives l + alternatives r
  | .or l r => alternatives l + alternatives r + 1
  | _ => 0

/-- The walk for a filter. -/
def ofFilter (search : Search) (parameters : Array StoredValue) (filter : Option Expr) : Walk :=
  ofTerms search ((filter.map alternatives).getD 0 + 1) (termsOf search.table parameters (!search.changes) filter)

/-! ## Walking -/

/-- Whether the entry of one row in an index stands before that of another, or they agree. -/
def entryLe (index : TableIndex) (a b : NumberedRow) : Bool :=
  match (index.keyOf a.values).zip (index.keyOf b.values) |>.map (fun (v, w) => orderValues v w) |>.find? (· != .eq) with
  | some o => o == .lt
  | none => true

mutual

/-- Rows in the order of a walk.  They are given in the order of their numbers, and all of them satisfy the filter
that the walk is for. -/
def arrange (scope : List StoredValue → Scope) : Walk → List NumberedRow → Except Failure (List NumberedRow)
  | .byNumber backward, rows => .ok (if backward then rows.reverse else rows)
  | .byIndex index backward, rows =>
      let sorted := rows.mergeSort (entryLe index)
      .ok (if backward then sorted.reverse else sorted)
  | .byBranch branches, rows => arrangeBranches scope branches rows

/-- Rows in the order of the branches that meet them first. -/
def arrangeBranches (scope : List StoredValue → Scope) :
    List (List Expr × Walk) → List NumberedRow → Except Failure (List NumberedRow)
  | [], rows => .ok rows
  | (conditions, walk) :: rest, rows => do
      let marked ← rows.mapM fun r => return (← conditions.allM (isTrue (scope r.values)), r)
      let (mine, others) := marked.partition Prod.fst
      return (← arrange scope walk (mine.map Prod.snd)) ++ (← arrangeBranches scope rest (others.map Prod.snd))

end

end Walk

end RecordTables.Engine
