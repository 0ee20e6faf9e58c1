import RecordTables.Engine.Plan
import RecordTables.Engine.Walk

/-!
# Executing statements

A connection holds a store and counts changed rows.  `Connection.run` gives the rows of a statement and the
connection after it.  A statement that fails leaves everything as it was, unless nothing is kept for undoing it:
then the rows that it has changed stay changed.
-/

namespace RecordTables.Engine

/-- A store in use. -/
structure Connection where
  store : Store
  readOnly : Bool
  /-- Whether the changes of a statement that fails are undone. -/
  undoes : Bool
  /-- The rows that the last statement to change rows changed itself. -/
  changes : Nat
  /-- The rows that all statements changed, those of triggers included. -/
  totalChanges : Nat
  deriving Inhabited

/-- The rows of a result, under the names of their columns. -/
structure Result where
  names : List String
  rows : List (List StoredValue)
  deriving Inhabited

namespace Result

def empty : Result := ⟨[], []⟩

end Result

/-! ## Selections -/

/-- A bound of a page: no bound if it is negative. -/
def pageBound (parameters : Array StoredValue) : Option Expr → Except Failure (Option Nat)
  | none => .ok none
  | some e => do
      match rowNumber? (← evaluate ⟨parameters, [], [], 0⟩ e) with
      | some n => return if n < 0 then none else some n.toNatClampNeg
      | none => throw .datatypeMismatch

/-- The page of a list. -/
def pageOf {α : Type} (limit offset : Option Nat) (rows : List α) : List α :=
  let rest := rows.drop (offset.getD 0)
  match limit with
  | some n => rest.take n
  | none => rest

/-- Whether one list of keys stands before another or equals it. -/
def keysLe : List (StoredValue × Bool) → List (StoredValue × Bool) → Bool
  | (v, descending) :: rest, (w, _) :: others =>
      match orderValues v w with
      | .eq => keysLe rest others
      | .lt => !descending
      | .gt => descending
  | _, _ => true

/-- The columns that several expressions mention. -/
def mentionedColumns (t : Table) (expressions : List Expr) : List Nat :=
  (Walk.mentionsOf t expressions).map Prod.fst

namespace PlannedSelection

variable (s : PlannedSelection)

/-- The number of rows that a selection is known to ask for. -/
def fixedLimit? : Option Nat :=
  match s.page.limit with
  | some (.literal (.int n)) => if 0 < n ∧ n.toInt < 0x80000000 then some n.toNatClampNeg else none
  | _ => none

/-- The walk of a selection through a table. -/
def walk (t : Table) (parameters : Array StoredValue) : Walk :=
  let order := s.order.map fun k => match k.key with
    | .column i => (some (Walk.partOf t i), k.descending)
    | _ => (none, k.descending)
  let search : Walk.Search :=
    { table := t
      order
      limit := s.fixedLimit?.map Magnitude.ofCount
      width := s.values.length
      changes := false
      used := mentionedColumns t (s.values ++ s.filter.toList ++ s.order.map OrderKey.key) }
  Walk.ofFilter search parameters s.filter

/-- The affinities of a source, and its rows for which the filter holds, as they are met. -/
def found (parameters : Array StoredValue) : Except Failure (List Affinity × List (List StoredValue)) :=
  match s.source with
  | .none => do
      let rows ← [[]].filterM fun row => holds ⟨parameters, row, [], 0⟩ s.filter
      return ([], rows)
  | .table t => do
      let rows ← t.filterRows parameters s.filter
      let met ← Walk.arrange (t.scope parameters) (s.walk t parameters) rows
      return (t.affinities, met.map NumberedRow.values)
  | .catalog view argument => do
      let all := view (← evaluate ⟨parameters, [], [], 0⟩ argument)
      let rows ← all.filterM fun row => holds ⟨parameters, row, [], 0⟩ s.filter
      return ([], rows)

/-- The rows of a selection. -/
def run (parameters : Array StoredValue) : Except Failure Result := do
  let limit ← pageBound parameters s.page.limit
  let offset ← pageBound parameters s.page.offset
  let (affinities, found) ← s.found parameters
  let scope (row : List StoredValue) (count : Nat) : Scope := ⟨parameters, row, affinities, count⟩
  let keyed ← found.mapM fun row => do
    return (← s.order.mapM fun k => do return (← evaluate (scope row 0) k.key, k.descending), row)
  let sorted := (keyed.mergeSort fun a b => keysLe a.1 b.1).map Prod.snd
  let rows ←
    if s.counts then do pure [← s.values.mapM (evaluate (scope [] found.length))]
    else sorted.mapM fun row => s.values.mapM (evaluate (scope row 0))
  return ⟨s.names, pageOf limit offset rows⟩

end PlannedSelection

/-! ## Changes -/

/-- A statement that fails, and what it has made of the store. -/
structure Interruption where
  failure : Failure
  store : Store

/-- A store while a statement changes it: the rows changed by the statement itself, and by triggers. -/
structure Progress where
  store : Store
  direct : Nat
  triggered : Nat

/-- What follows the change of a row, from its values before and after. -/
abbrev Aftermath := Progress → Table → List StoredValue → List StoredValue → Except Interruption Progress

namespace Store

/-- A failure with the store as it is. -/
def interrupted {α : Type} (store : Store) (x : Except Failure α) : Except Interruption α :=
  x.mapError fun failure => ⟨failure, store⟩

end Store

/-- The rows that an update changes, in the order in which it changes them.  They are changed as they are met on a
walk along an index if the update leaves that index alone, and else by their numbers. -/
def updatedRows (t : Table) (parameters : Array StoredValue) (assignments : List (Nat × Expr))
    (filter : Option Expr) : Except Failure (List NumberedRow) := do
  let rows ← t.filterRows parameters filter
  let search : Walk.Search :=
    { table := t
      order := []
      limit := none
      width := 0
      changes := true
      used := mentionedColumns t (filter.toList ++ assignments.map Prod.snd) }
  let walk := Walk.ofFilter search parameters filter
  let assigned (c : Nat) : Bool := assignments.any (·.1 == c)
  let atOnce := match walk with
    | .byIndex index _ => !(index.parts.any fun part => part.any assigned)
    | _ => false
  if atOnce && !t.numberColumn.any assigned && !t.triggers.any (·.event == .update) then
    Walk.arrange (t.scope parameters) walk rows
  else return rows

namespace Progress

/-- One more row changed by the statement itself. -/
def count (p : Progress) (store : Store) : Progress := { p with store, direct := p.direct + 1 }

/-- Adds the rows of an insertion. -/
def insertRows (parameters : Array StoredValue) (name : String) (after : Aftermath) :
    List (List Expr) → Progress → Except Interruption Progress
  | [], p => .ok p
  | row :: rest, p => do
      let (new, changed) ← p.store.interrupted do
        let table ← p.store.tableNamed name
        table.insert (← row.mapM (evaluate ⟨parameters, [], [], 0⟩))
      let p ← after (p.count (p.store.setTable changed)) changed [] new.values
      insertRows parameters name after rest p

/-- The values of a row after assignments, all of which see the row as it was. -/
def assigned (table : Table) (parameters : Array StoredValue) (assignments : List (Nat × Expr))
    (values : List StoredValue) : Except Failure (List StoredValue) :=
  let scope := table.scope parameters values
  values.zipIdx.mapM fun (v, i) =>
    match assignments.reverse.find? fun (p, _) => p = i with
    | some (_, e) => evaluate scope e
    | none => .ok v

/-- Changes the rows of given numbers. -/
def updateRows (parameters : Array StoredValue) (name : String) (assignments : List (Nat × Expr))
    (after : Aftermath) : List Int64 → Progress → Except Interruption Progress
  | [], p => .ok p
  | number :: rest, p => do
      let table ← p.store.interrupted (p.store.tableNamed name)
      match table.row? number with
      | none => updateRows parameters name assignments after rest p
      | some old => do
          let (new, changed) ← p.store.interrupted do
            table.replace old (← assigned table parameters assignments old.values)
          let p ← after (p.count (p.store.setTable changed)) changed old.values new.values
          updateRows parameters name assignments after rest p

/-- Removes the rows of given numbers. -/
def deleteRows (name : String) (after : Aftermath) : List Int64 → Progress → Except Interruption Progress
  | [], p => .ok p
  | number :: rest, p => do
      let table ← p.store.interrupted (p.store.tableNamed name)
      match table.row? number with
      | none => deleteRows name after rest p
      | some old => do
          let changed := table.remove number
          let p ← after (p.count (p.store.setTable changed)) changed old.values []
          deleteRows name after rest p

/-- Carries out a planned change.  `after` follows the change of each row. -/
def run (parameters : Array StoredValue) (after : Event → Aftermath) (p : Progress) :
    PlannedChange → Except Interruption Progress
  | .insert name rows => insertRows parameters name (after .insert) rows p
  | .update name assignments filter => do
      let rows ← p.store.interrupted do
        updatedRows (← p.store.tableNamed name) parameters assignments filter
      updateRows parameters name assignments (after .update) (rows.map NumberedRow.number) p
  | .delete name filter => do
      let rows ← p.store.interrupted do
        (← p.store.tableNamed name).filterRows parameters filter
      deleteRows name (after .delete) (rows.map NumberedRow.number) p

/-- Carries out the changes of a trigger; they set off no further triggers. -/
def runBody (columns : List String) (old new : List StoredValue) :
    List Change → Progress → Except Interruption Progress
  | [], p => .ok p
  | change :: rest, p => do
      let planned ← p.store.interrupted (p.store.planChange (change.substitute columns old new))
      let inner ← run #[] (fun _ p _ _ _ => .ok p) ⟨p.store, 0, 0⟩ planned
      runBody columns old new rest
        { p with store := inner.store, triggered := p.triggered + inner.direct }

/-- Sets off the triggers of a table that wait for an event. -/
def fire (event : Event) : Aftermath := fun p table old new =>
  (table.triggers.filter (·.event == event)).foldlM
    (fun p trigger => runBody table.columnNames old new trigger.body p) p

end Progress

/-! ## Statements -/

namespace Connection

/-- A fresh connection to a store. -/
def ofStore (store : Store) (readOnly undoes : Bool) : Connection := ⟨store, readOnly, undoes, 0, 0⟩

variable (c : Connection)

/-- Refuses to write if only reading is allowed. -/
def writing : Except Failure Unit := if c.readOnly then .error .readOnly else .ok ()

/-- Carries out a plan. -/
def execute (parameters : Array StoredValue) : Plan → Except Interruption (Result × Connection)
  | .createTable table => do
      c.store.interrupted c.writing
      return (.empty, { c with store := c.store.addTable table })
  | .createIndex table index => do
      c.store.interrupted c.writing
      if index.collides table.rows then c.store.interrupted (.error (table.violation index))
      else return (.empty, { c with store := c.store.setTable { table with indexes := index :: table.indexes } })
  | .createTrigger table trigger => do
      c.store.interrupted c.writing
      return (.empty,
        { c with store := c.store.setTable { table with triggers := table.triggers ++ [trigger] } })
  | .select s => return (← c.store.interrupted (s.run parameters), c)
  | .change change => do
      c.store.interrupted c.writing
      let p ← Progress.run parameters Progress.fire ⟨c.store, 0, 0⟩ change
      return (.empty, { c with
        store := p.store
        changes := p.direct
        totalChanges := c.totalChanges + p.direct + p.triggered })
  | .nothing => .ok (.empty, c)

/-- The plan of a statement with values for its parameters. -/
def planOf (text : String) (parameters : List StoredValue) : Except Failure Plan := do
  let (statement, needed) ← Statement.ofText text
  let plan ← c.store.plan statement
  if parameters.length = needed then return plan
  else throw (.parameterCount parameters.length needed)

/-- Runs a statement with the values of its parameters: its rows or its failure, and the connection after it. -/
def run (text : String) (parameters : List StoredValue) : Except Failure Result × Connection :=
  match c.store.interrupted (c.planOf text parameters) >>= c.execute parameters.toArray with
  | .ok (result, after) => (.ok result, after)
  | .error stop => (.error stop.failure, if c.undoes then c else { c with store := stop.store })

end Connection

end RecordTables.Engine
