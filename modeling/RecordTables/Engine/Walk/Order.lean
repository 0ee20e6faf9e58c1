import RecordTables.Engine.Walk.Candidate

/-!
# Orders that a walk keeps

A walk along a route meets rows in the order of its parts.  The terms of an ordering that this order agrees with
need no sorting.
-/

namespace RecordTables.Engine.Walk

/-- What is known of an ordering after some parts of a route. -/
structure Kept where
  /-- The terms of the ordering that hold, by position. -/
  settled : List Nat
  /-- Whether the route is walked backward; unknown until a term asks for a direction. -/
  backward : Option Bool
  /-- Whether the parts so far tell all rows apart. -/
  distinct : Bool
  /-- Whether the number of the row is among the parts that hold. -/
  numbered : Bool

namespace Search

variable (search : Search)

/-- The greatest number of terms for which an order is looked for. -/
def maxOrder : Nat := 63

/-- Whether a bound lets only one value pass.  Within one turn of a repeated walk that is also true of a list. -/
def fixes (perTurn : Bool) : Guide → Bool
  | .equal => true
  | .absent => true
  | .member _ => perTurn
  | _ => false

/-- The terms of the ordering whose part has only one value. -/
def constant (perTurn : Bool) (all : List Bound) (c : Candidate) : List Nat :=
  (search.order.zipIdx.filter fun ((part, _), _) =>
    let fixing := all.filter fun b => some b.part == part && fixes perTurn b.guide
    match (fixing.find? (·.guide == .equal)).or fixing.head? with
    | none => false
    | some b => match b.guide with
        | .member _ => c.bounds.any (·.mark == b.mark)
        | _ => true).map Prod.snd

/-- The first term of the ordering that does not hold yet. -/
def next? (kept : Kept) : Option (Nat × Option Part × Bool) :=
  (search.order.zipIdx.find? fun (_, i) => !kept.settled.contains i).map fun ((part, down), i) => (i, part, down)

/-- One more part of a route, which agrees with the next term of the ordering or ends the agreement. -/
def agree? (part : Part) (kept : Kept) : Option Kept :=
  match search.next? kept with
  | some (i, some p, down) =>
      if p = part ∧ kept.backward.getD down = down then
        some { kept with
          settled := i :: kept.settled
          backward := some down
          numbered := kept.numbered || part == .number }
      else none
  | _ => none

/-- Follows the parts of a route for as long as they agree with the ordering. -/
def follow (perTurn : Bool) (c : Candidate) (keyLength : Nat) : Nat → List Part → Kept → Kept
  | _, [], kept => kept
  | j, part :: rest, kept =>
      let bound := if j < c.leading then c.bounds[j]? else none
      let repeated := (bound.map fun b =>
        ((c.bounds.take c.leading).drop (j + 1)).any (·.mark == b.mark)).getD false
      match bound.bind fun b => if fixes perTurn b.guide then some b.guide else none with
      | some guide =>
          follow perTurn c keyLength (j + 1) rest
            { kept with distinct := kept.distinct && guide != .absent }
      | none =>
          let certain := match part with
            | .number => true
            | .column i => j < c.leading || neverNull search.table i
            | .expression => false
          let kept := { kept with distinct := kept.distinct && certain }
          match if repeated then none else search.agree? part kept with
          | some kept => follow perTurn c keyLength (j + 1) rest kept
          | none => { kept with distinct := kept.distinct && j != 0 && keyLength ≤ j }

/-- How many terms of the ordering hold on a walk without sorting, and whether the walk goes backward. -/
def kept (perTurn : Bool) (all : List Bound) (c : Candidate) : Nat × Bool :=
  match c.way with
  | .branches _ => (0, false)
  | .route r =>
      if maxOrder < search.order.length then (0, false)
      else
        let unique := (r.index.map TableIndex.unique).getD true
        let start : Kept := ⟨search.constant perTurn all c, none, unique, false⟩
        let last := search.follow perTurn c r.keyLength 0 r.parts start
        let backward := last.backward.getD false
        if last.distinct || last.numbered then (search.order.length, backward)
        else
          let holding := (List.range search.order.length).takeWhile last.settled.contains
          (holding.length, backward)

/-- The cost of sorting rows of which some terms of the ordering hold already. -/
def sortingCost (rows : Magnitude) (holding : Nat) : Magnitude :=
  let terms := search.order.length
  let base := rows + Magnitude.ofCount ((search.width + 59) / 30) +
    if holding = 0 then 0 else Magnitude.ofCount ((terms - holding) * 100 / terms) - 66
  match search.limit with
  | none => base + Magnitude.log rows
  | some limit => base + (if holding = 0 then 10 else 16) + Magnitude.log (min limit rows)

end Search

end RecordTables.Engine.Walk
