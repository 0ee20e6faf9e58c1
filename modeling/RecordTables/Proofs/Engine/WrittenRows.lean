import RecordTables.Proofs.Engine.Selected

/-!
# Rows that a statement writes

A change goes through rows one by one: it adds, replaces or removes the row, and then the triggers that wait for this
do the same with rows of their own.  Here the rows are kept, those of the statement apart from those of its triggers; the
two counts of the engine are the lengths of the two lists.
-/

namespace RecordTables.Engine

/-- A row that is accepted is put among the others, and nothing else changes. -/
theorem Table.of_place {table changed : Table} {others : List NumberedRow} {row : NumberedRow}
    (h : table.place others row = .ok changed) : changed = { table with rows := insertRow row others } := by
  unfold Table.place at h
  split at h
  · cases h
  · split at h
    · cases h
    · split at h
      · cases h
      · cases h
        rfl

/-- A row that was written: its table afterwards, and its values before and after.  A row that was added has no values
before, and one that was removed has none after. -/
structure WrittenRow where
  table : Table
  old : List StoredValue
  new : List StoredValue

namespace WrittenRow

/-- The row that an insertion adds for a row of expressions. -/
def added (parameters : Array StoredValue) (name : String) (store : Store) (row : List Expr) :
    Except Failure (Option WrittenRow) := do
  let table ← store.tableNamed name
  let (new, changed) ← table.insert (← row.mapM (evaluate ⟨parameters, [], [], 0⟩))
  return some ⟨changed, [], new.values⟩

/-- The row that an update replaces under a number, if it is still there. -/
def replaced (parameters : Array StoredValue) (name : String) (assignments : List (Nat × Expr)) (store : Store)
    (number : Int64) : Except Failure (Option WrittenRow) := do
  let table ← store.tableNamed name
  match table.row? number with
  | none => return none
  | some old => do
      let (new, changed) ← table.replace old (← Progress.assigned table parameters assignments old.values)
      return some ⟨changed, old.values, new.values⟩

/-- The row that a deletion removes under a number, if it is still there. -/
def removed (name : String) (store : Store) (number : Int64) : Except Failure (Option WrittenRow) := do
  let table ← store.tableNamed name
  return (table.row? number).map fun old => ⟨table.remove number, old.values, []⟩

variable {parameters : Array StoredValue} {name : String} {store : Store} {w : WrittenRow}

/-- A row that an insertion added stands in its table beside the others. -/
theorem of_added {row : List Expr} (h : added parameters name store row = .ok (some w)) :
    ∃ table r, store.tableNamed name = .ok table ∧
      w = ⟨{ table with rows := insertRow r table.rows }, [], r.values⟩ := by
  obtain ⟨table, htable, h⟩ := bind_eq_ok.1 h
  obtain ⟨values, -, h⟩ := bind_eq_ok.1 h
  obtain ⟨⟨new, changed⟩, hinsert, h⟩ := bind_eq_ok.1 h
  obtain ⟨number, -, hinsert⟩ := bind_eq_ok.1 hinsert
  obtain ⟨placed, hplace, hinsert⟩ := bind_eq_ok.1 hinsert
  cases hinsert
  cases h
  exact ⟨table, _, htable, by rw [Table.of_place hplace]⟩

/-- A row that an update replaced has its place taken by one with the values after the update. -/
theorem of_replaced {assignments : List (Nat × Expr)} {number : Int64}
    (h : replaced parameters name assignments store number = .ok (some w)) :
    ∃ table old r, store.tableNamed name = .ok table ∧ table.row? number = some old ∧
      w = ⟨{ table with rows := insertRow r (table.rows.filter (·.number != old.number)) }, old.values, r.values⟩ := by
  obtain ⟨table, htable, h⟩ := bind_eq_ok.1 h
  cases hold : table.row? number with
  | none =>
      rw [hold] at h
      cases h
  | some old =>
      rw [hold] at h
      obtain ⟨values, -, h⟩ := bind_eq_ok.1 h
      obtain ⟨⟨new, changed⟩, hreplace, h⟩ := bind_eq_ok.1 h
      obtain ⟨number, -, hreplace⟩ := bind_eq_ok.1 hreplace
      obtain ⟨placed, hplace, hreplace⟩ := bind_eq_ok.1 hreplace
      cases hreplace
      cases h
      exact ⟨table, old, _, htable, hold, by rw [Table.of_place hplace]⟩

/-- A row that a deletion removed was in its table, and is no more. -/
theorem of_removed {number : Int64} (h : removed name store number = .ok (some w)) :
    ∃ table old, store.tableNamed name = .ok table ∧ table.row? number = some old ∧
      w = ⟨{ table with rows := table.rows.filter (·.number != number) }, old.values, []⟩ := by
  obtain ⟨table, htable, h⟩ := bind_eq_ok.1 h
  cases hold : table.row? number with
  | none =>
      rw [hold] at h
      cases h
  | some old =>
      rw [hold] at h
      cases h
      exact ⟨table, old, htable, hold, rfl⟩

end WrittenRow

open WrittenRow

/-! ## Runs without counters -/

/-- What follows a row that was written: the rows that are written in turn, and the store after them. -/
abbrev Follow := WrittenRow → Store → List WrittenRow → Store → Prop

/-- A change takes its turn at each of several items.  The rows that it writes itself are listed apart from those that
follow; an item whose row is gone is passed over. -/
inductive Writes {ι : Type} (turn : Store → ι → Except Failure (Option WrittenRow)) (follow : Follow) :
    Store → List ι → List WrittenRow → List WrittenRow → Store → Prop where
  | done {store : Store} : Writes turn follow store [] [] [] store
  | gone {store after : Store} {item : ι} {items : List ι} {own others : List WrittenRow}
      (hturn : turn store item = .ok none) (hrest : Writes turn follow store items own others after) :
      Writes turn follow store (item :: items) own others after
  | written {store between after : Store} {item : ι} {items : List ι} {w : WrittenRow}
      {own next others : List WrittenRow} (hturn : turn store item = .ok (some w))
      (hfollow : follow w (store.setTable w.table) next between)
      (hrest : Writes turn follow between items own others after) :
      Writes turn follow store (item :: items) (w :: own) (next ++ others) after

/-- A planned change is carried out. -/
inductive Performs (parameters : Array StoredValue) (follow : Event → Follow) (store : Store) :
    PlannedChange → List WrittenRow → List WrittenRow → Store → Prop where
  | insert {name : String} {rows : List (List Expr)} {own others : List WrittenRow} {after : Store}
      (h : Writes (added parameters name) (follow .insert) store rows own others after) :
      Performs parameters follow store (.insert name rows) own others after
  | update {name : String} {assignments : List (Nat × Expr)} {filter : Option Expr} {table : Table}
      {rows : List NumberedRow} {own others : List WrittenRow} {after : Store}
      (htable : store.tableNamed name = .ok table) (hrows : updatedRows table parameters assignments filter = .ok rows)
      (h : Writes (replaced parameters name assignments) (follow .update) store (rows.map NumberedRow.number) own others
        after) :
      Performs parameters follow store (.update name assignments filter) own others after
  | delete {name : String} {filter : Option Expr} {table : Table} {rows : List NumberedRow}
      {own others : List WrittenRow} {after : Store} (htable : store.tableNamed name = .ok table)
      (hrows : table.filterRows parameters filter = .ok rows)
      (h : Writes (removed name) (follow .delete) store (rows.map NumberedRow.number) own others after) :
      Performs parameters follow store (.delete name filter) own others after

/-- Nothing follows. -/
def Quiet : Follow := fun _ store rows after => rows = [] ∧ after = store

/-- Steps that write rows, one after the other. -/
inductive InTurn {ι : Type} (step : ι → Store → List WrittenRow → Store → Prop) :
    List ι → Store → List WrittenRow → Store → Prop where
  | done {store : Store} : InTurn step [] store [] store
  | next {item : ι} {items : List ι} {store between after : Store} {rows others : List WrittenRow}
      (hstep : step item store rows between) (hrest : InTurn step items between others after) :
      InTurn step (item :: items) store (rows ++ others) after

/-- A change in the body of a trigger is carried out for a row that was written, and sets off nothing further. -/
def Answers (w : WrittenRow) (change : Change) (store : Store) (rows : List WrittenRow) (after : Store) : Prop :=
  ∃ planned, store.planChange (change.substitute w.table.columnNames w.old w.new) = .ok planned ∧
    Performs #[] (fun _ => Quiet) store planned rows [] after

/-- The triggers of the table that wait for an event are carried out for a row that was written. -/
def SetsOff (event : Event) : Follow := fun w =>
  InTurn (fun trigger => InTurn (Answers w) trigger.body) (w.table.triggers.filter (·.event == event))

section Writes

variable {ι : Type} {turn : Store → ι → Except Failure (Option WrittenRow)} {follow : Follow} {store after : Store}
  {items : List ι} {own others : List WrittenRow}

/-- No item gives more than one row. -/
theorem Writes.length_le (h : Writes turn follow store items own others after) : own.length ≤ items.length := by
  induction h with
  | done => exact le_rfl
  | gone _ _ ih => exact Nat.le_succ_of_le ih
  | written _ _ _ ih => exact Nat.succ_le_succ ih

/-- If no row can be gone, each item gives one row. -/
theorem Writes.length_eq (h : Writes turn follow store items own others after)
    (hturn : ∀ store item, turn store item ≠ .ok none) : own.length = items.length := by
  induction h with
  | done => rfl
  | gone hgone _ _ => exact absurd hgone (hturn _ _)
  | written _ _ _ ih => exact congrArg Nat.succ ih

/-- Where nothing follows, no other rows are written. -/
theorem Writes.others_eq_nil (h : Writes turn Quiet store items own others after) : others = [] := by
  induction h with
  | done => rfl
  | gone _ _ ih => exact ih
  | written _ hfollow _ ih => rw [hfollow.1, ih, List.append_nil]

end Writes

theorem added_ne_none (parameters : Array StoredValue) (name : String) (store : Store) (row : List Expr) :
    added parameters name store row ≠ .ok none := by
  intro h
  obtain ⟨table, -, h⟩ := bind_eq_ok.1 h
  obtain ⟨values, -, h⟩ := bind_eq_ok.1 h
  obtain ⟨p, -, h⟩ := bind_eq_ok.1 h
  cases h

theorem Performs.others_eq_nil {parameters : Array StoredValue} {store after : Store} {change : PlannedChange}
    {own others : List WrittenRow} (h : Performs parameters (fun _ => Quiet) store change own others after) :
    others = [] := by
  cases h with
  | insert h => exact h.others_eq_nil
  | update _ _ h => exact h.others_eq_nil
  | delete _ _ h => exact h.others_eq_nil

/-! ## The counters -/

namespace Progress

/-- Progress is made by writing rows that count as triggered. -/
def Counts (m : Progress → Except Interruption Progress) (writes : Store → List WrittenRow → Store → Prop) : Prop :=
  ∀ p q, m p = .ok q ↔
    ∃ rows after, writes p.store rows after ∧ q = ⟨after, p.direct, p.triggered + rows.length⟩

/-- What follows each row counts as triggered. -/
def Matches (aftermath : Aftermath) (follow : Follow) : Prop :=
  ∀ w, Counts (fun p => aftermath p w.table w.old w.new) (follow w)

section Loop

variable {ι : Type} (turn : Store → ι → Except Failure (Option WrittenRow)) (aftermath : Aftermath)

/-- Takes a turn at each of several items: what all three kinds of change do. -/
def writeAll : List ι → Progress → Except Interruption Progress
  | [], p => .ok p
  | item :: items, p => do
      match ← p.store.interrupted (turn p.store item) with
      | none => writeAll items p
      | some w => do
          let p ← aftermath (p.count (p.store.setTable w.table)) w.table w.old w.new
          writeAll items p

end Loop

theorem insertRows_eq (parameters : Array StoredValue) (name : String) (aftermath : Aftermath)
    (rows : List (List Expr)) (p : Progress) :
    insertRows parameters name aftermath rows p = writeAll (added parameters name) aftermath rows p := by
  induction rows generalizing p with
  | nil => rfl
  | cons row rows ih =>
      simp only [insertRows, writeAll, added, ih]
      cases p.store.tableNamed name with
      | error f => rfl
      | ok table =>
          simp only [bind, Except.bind]
          cases row.mapM (evaluate ⟨parameters, [], [], 0⟩) with
          | error f => rfl
          | ok values =>
              simp only
              cases table.insert values <;> rfl

theorem updateRows_eq (parameters : Array StoredValue) (name : String) (assignments : List (Nat × Expr))
    (aftermath : Aftermath) (numbers : List Int64) (p : Progress) :
    updateRows parameters name assignments aftermath numbers p =
      writeAll (replaced parameters name assignments) aftermath numbers p := by
  induction numbers generalizing p with
  | nil => rfl
  | cons number numbers ih =>
      simp only [updateRows, writeAll, replaced, ih]
      cases p.store.tableNamed name with
      | error f => rfl
      | ok table =>
          simp only [Store.interrupted, Except.mapError, bind, Except.bind]
          cases table.row? number with
          | none => rfl
          | some old =>
              simp only
              cases assigned table parameters assignments old.values with
              | error f => rfl
              | ok values =>
                  simp only
                  cases table.replace old values <;> rfl

theorem deleteRows_eq (name : String) (aftermath : Aftermath) (numbers : List Int64) (p : Progress) :
    deleteRows name aftermath numbers p = writeAll (removed name) aftermath numbers p := by
  induction numbers generalizing p with
  | nil => rfl
  | cons number numbers ih =>
      simp only [deleteRows, writeAll, removed, ih]
      cases p.store.tableNamed name with
      | error f => rfl
      | ok table =>
          simp only [Store.interrupted, Except.mapError, bind, Except.bind]
          cases table.row? number <;> rfl

theorem interrupted_eq_ok {α : Type} {store : Store} {x : Except Failure α} {a : α} :
    store.interrupted x = .ok a ↔ x = .ok a := by
  cases x <;> simp [Store.interrupted, Except.mapError]

variable {ι : Type} {turn : Store → ι → Except Failure (Option WrittenRow)} {aftermath : Aftermath} {follow : Follow}

/-- A loop gets through exactly if it writes rows, and then it has counted them. -/
theorem writeAll_iff (h : Matches aftermath follow) {items : List ι} {p q : Progress} :
    writeAll turn aftermath items p = .ok q ↔ ∃ own others after, Writes turn follow p.store items own others after ∧
      q = ⟨after, p.direct + own.length, p.triggered + others.length⟩ := by
  induction items generalizing p with
  | nil =>
      constructor
      · intro hrun
        cases hrun
        exact ⟨[], [], _, .done, rfl⟩
      · rintro ⟨_, _, _, ⟨⟩, rfl⟩
        rfl
  | cons item items ih =>
      rw [writeAll, bind_eq_ok]
      constructor
      · rintro ⟨turned, hturn, hrun⟩
        rw [interrupted_eq_ok] at hturn
        cases turned with
        | none =>
            obtain ⟨own, others, after, hwrites, rfl⟩ := ih.1 hrun
            exact ⟨own, others, after, .gone hturn hwrites, rfl⟩
        | some w =>
            obtain ⟨between, hafter, hrun⟩ := bind_eq_ok.1 hrun
            obtain ⟨next, store, hfollow, rfl⟩ := (h w _ _).1 hafter
            obtain ⟨own, others, after, hwrites, rfl⟩ := ih.1 hrun
            refine ⟨w :: own, next ++ others, after, .written hturn hfollow hwrites, ?_⟩
            rw [List.length_cons, List.length_append]
            simp only [count, mk.injEq, true_and]
            omega
      · rintro ⟨own, others, after, hwrites, rfl⟩
        cases hwrites with
        | gone hturn hwrites => exact ⟨none, interrupted_eq_ok.2 hturn, ih.2 ⟨_, _, _, hwrites, rfl⟩⟩
        | written hturn hfollow hwrites =>
            refine ⟨some _, interrupted_eq_ok.2 hturn, bind_eq_ok.2 ⟨_, (h _ _ _).2 ⟨_, _, hfollow, rfl⟩, ?_⟩⟩
            refine ih.2 ⟨_, _, _, hwrites, ?_⟩
            rw [List.length_cons, List.length_append]
            simp only [count, mk.injEq, true_and]
            omega

/-- A change gets through exactly if it can be carried out, and then its counts are the numbers of rows. -/
theorem run_iff {aftermath : Event → Aftermath} {follow : Event → Follow}
    (h : ∀ event, Matches (aftermath event) (follow event)) {parameters : Array StoredValue}
    {change : PlannedChange} {p q : Progress} :
    run parameters aftermath p change = .ok q ↔ ∃ own others after,
      Performs parameters follow p.store change own others after ∧
        q = ⟨after, p.direct + own.length, p.triggered + others.length⟩ := by
  cases change with
  | insert name rows =>
      rw [run, insertRows_eq, writeAll_iff (h .insert)]
      constructor
      · rintro ⟨own, others, after, hwrites, hq⟩
        exact ⟨own, others, after, .insert hwrites, hq⟩
      · rintro ⟨own, others, after, ⟨hwrites⟩, hq⟩
        exact ⟨own, others, after, hwrites, hq⟩
  | update name assignments filter =>
      rw [run, bind_eq_ok]
      constructor
      · rintro ⟨rows, hfound, hrun⟩
        obtain ⟨table, htable, hrows⟩ := bind_eq_ok.1 (interrupted_eq_ok.1 hfound)
        rw [updateRows_eq, writeAll_iff (h .update)] at hrun
        obtain ⟨own, others, after, hwrites, hq⟩ := hrun
        exact ⟨own, others, after, .update htable hrows hwrites, hq⟩
      · rintro ⟨own, others, after, hperforms, hq⟩
        cases hperforms with
        | update htable hrows hwrites =>
            refine ⟨_, interrupted_eq_ok.2 (bind_eq_ok.2 ⟨_, htable, hrows⟩), ?_⟩
            rw [updateRows_eq, writeAll_iff (h .update)]
            exact ⟨own, others, after, hwrites, hq⟩
  | delete name filter =>
      rw [run, bind_eq_ok]
      constructor
      · rintro ⟨rows, hfound, hrun⟩
        obtain ⟨table, htable, hrows⟩ := bind_eq_ok.1 (interrupted_eq_ok.1 hfound)
        rw [deleteRows_eq, writeAll_iff (h .delete)] at hrun
        obtain ⟨own, others, after, hwrites, hq⟩ := hrun
        exact ⟨own, others, after, .delete htable hrows hwrites, hq⟩
      · rintro ⟨own, others, after, hperforms, hq⟩
        cases hperforms with
        | delete htable hrows hwrites =>
            refine ⟨_, interrupted_eq_ok.2 (bind_eq_ok.2 ⟨_, htable, hrows⟩), ?_⟩
            rw [deleteRows_eq, writeAll_iff (h .delete)]
            exact ⟨own, others, after, hwrites, hq⟩

/-! ## Triggers -/

theorem matches_quiet : Matches (fun p _ _ _ => .ok p) Quiet := by
  intro w p q
  constructor
  · intro hrun
    cases hrun
    exact ⟨[], p.store, ⟨rfl, rfl⟩, rfl⟩
  · rintro ⟨_, _, ⟨rfl, rfl⟩, rfl⟩
    rfl

/-- Steps that count what they write can be taken one after the other. -/
theorem counts_foldlM {f : Progress → ι → Except Interruption Progress}
    {step : ι → Store → List WrittenRow → Store → Prop} (h : ∀ item, Counts (fun p => f p item) (step item))
    (items : List ι) : Counts (fun p => items.foldlM f p) (InTurn step items) := by
  induction items with
  | nil =>
      intro p q
      constructor
      · intro hrun
        cases hrun
        exact ⟨[], p.store, .done, rfl⟩
      · rintro ⟨_, _, ⟨⟩, rfl⟩
        rfl
  | cons item items ih =>
      intro p q
      show (f p item >>= fun p => items.foldlM f p) = .ok q ↔ _
      rw [bind_eq_ok]
      constructor
      · rintro ⟨between, hstep, hrun⟩
        obtain ⟨rows, store, hfirst, rfl⟩ := (h item _ _).1 hstep
        obtain ⟨others, after, hrest, rfl⟩ := (ih _ _).1 hrun
        refine ⟨rows ++ others, after, .next hfirst hrest, ?_⟩
        rw [List.length_append, Nat.add_assoc]
      · rintro ⟨_, after, hsteps, rfl⟩
        cases hsteps with
        | next hfirst hrest =>
            refine ⟨_, (h item _ _).2 ⟨_, _, hfirst, rfl⟩, (ih _ _).2 ⟨_, _, hrest, ?_⟩⟩
            rw [List.length_append, Nat.add_assoc]

theorem runBody_eq (columns : List String) (old new : List StoredValue) (changes : List Change) (p : Progress) :
    runBody columns old new changes p = changes.foldlM (fun p change => runBody columns old new [change] p) p := by
  induction changes generalizing p with
  | nil => rfl
  | cons change changes ih =>
      simp only [runBody, List.foldlM_cons, bind_assoc, ih]
      rfl

/-- What a change in the body of a trigger writes counts as triggered. -/
theorem counts_runBody (w : WrittenRow) (change : Change) :
    Counts (runBody w.table.columnNames w.old w.new [change]) (Answers w change) := by
  intro p q
  have hquiet := @run_iff (fun _ p _ _ _ => .ok p) (fun _ => Quiet) fun _ => matches_quiet
  rw [runBody, bind_eq_ok]
  constructor
  · rintro ⟨planned, hplan, hrun⟩
    obtain ⟨inner, hinner, hrun⟩ := bind_eq_ok.1 hrun
    obtain ⟨own, others, after, hperforms, rfl⟩ := hquiet.1 hinner
    cases hrun
    have hnone := hperforms.others_eq_nil
    subst hnone
    exact ⟨own, after, ⟨planned, interrupted_eq_ok.1 hplan, hperforms⟩, by rw [Nat.zero_add]⟩
  · rintro ⟨rows, after, ⟨planned, hplan, hperforms⟩, rfl⟩
    refine ⟨planned, interrupted_eq_ok.2 hplan, bind_eq_ok.2 ⟨_, hquiet.2 ⟨_, _, _, hperforms, rfl⟩, ?_⟩⟩
    rw [Nat.zero_add]
    rfl

/-- What the triggers of a row write counts as triggered, and nothing else does. -/
theorem matches_fire (event : Event) : Matches (fire event) (SetsOff event) := by
  intro w
  refine counts_foldlM (fun trigger => ?_) _
  intro p q
  show runBody w.table.columnNames w.old w.new trigger.body p = .ok q ↔ _
  rw [runBody_eq]
  exact counts_foldlM (fun change => counts_runBody w change) trigger.body p q

end Progress

end RecordTables.Engine
