import RecordTables.Proofs.Engine.Counters
import RecordTables.Proofs.Engine.WrittenRows

/-!
# What statements add to the counters

The total of a connection grows by the rows that a change writes, with those of its triggers, and by nothing else.  The
count of the last change stays where it is until the next change: told by itself, it is stale.  A statement that moved
the total has set it, and one that has not moved the total has written nothing.
-/

namespace RecordTables.Engine

variable {store after : Store} {parameters : Array StoredValue} {change : PlannedChange} {own others : List WrittenRow}

/-! ## Rows that a change finds -/

/-- The number of rows that a change is about: those that an insertion gives, and those of which the condition of an
update or deletion holds. -/
inductive PlannedChange.Finds (store : Store) (parameters : Array StoredValue) : PlannedChange → Nat → Prop where
  | insert {name : String} {rows : List (List Expr)} : Finds store parameters (.insert name rows) rows.length
  | update {name : String} {assignments : List (Nat × Expr)} {filter : Option Expr} {table : Table}
      {rows : List NumberedRow} (htable : store.tableNamed name = .ok table)
      (hrows : table.filterRows parameters filter = .ok rows) :
      Finds store parameters (.update name assignments filter) rows.length
  | delete {name : String} {filter : Option Expr} {table : Table} {rows : List NumberedRow}
      (htable : store.tableNamed name = .ok table) (hrows : table.filterRows parameters filter = .ok rows) :
      Finds store parameters (.delete name filter) rows.length

/-- An update changes the rows of its condition, in whatever order. -/
theorem perm_updatedRows {table : Table} {assignments : List (Nat × Expr)} {filter : Option Expr}
    {rows found : List NumberedRow} (h : updatedRows table parameters assignments filter = .ok rows)
    (hfound : table.filterRows parameters filter = .ok found) : rows.Perm found := by
  unfold updatedRows at h
  simp only [hfound, bind, Except.bind] at h
  generalize Walk.ofFilter _ parameters filter = walk at h
  cases walk with
  | byNumber backward =>
      simp only [Bool.false_and, Bool.false_eq_true, if_false] at h
      cases h
      exact .refl _
  | byBranch branches =>
      simp only [Bool.false_and, Bool.false_eq_true, if_false] at h
      cases h
      exact .refl _
  | byIndex index backward =>
      simp only at h
      split at h
      · cases h
        cases backward with
        | false => exact List.mergeSort_perm ..
        | true => exact (List.reverse_perm _).trans (List.mergeSort_perm ..)
      · cases h
        exact .refl _

/-- A change writes no more rows itself than it finds. -/
theorem Performs.length_le {follow : Event → Follow} {count : Nat}
    (h : Performs parameters follow store change own others after) (hcount : change.Finds store parameters count) :
    own.length ≤ count := by
  cases hcount with
  | insert =>
      cases h with
      | insert hwrites => exact hwrites.length_le
  | update htable hrows =>
      cases h with
      | update htable' hrows' hwrites =>
          cases htable.symm.trans htable'
          rw [← (perm_updatedRows hrows' hrows).length_eq, ← List.length_map NumberedRow.number]
          exact hwrites.length_le
  | delete htable hrows =>
      cases h with
      | delete htable' hrows' hwrites =>
          cases htable.symm.trans htable'
          cases hrows.symm.trans hrows'
          rw [← List.length_map NumberedRow.number]
          exact hwrites.length_le

/-- An insertion adds a row for each that it is given. -/
theorem Performs.length_insert {follow : Event → Follow} {name : String} {rows : List (List Expr)}
    (h : Performs parameters follow store (.insert name rows) own others after) : own.length = rows.length := by
  cases h with
  | insert hwrites => exact hwrites.length_eq fun store row => added_ne_none parameters name store row

/-- A change can be carried out in one way only, as far as numbers of rows go. -/
theorem Performs.length_unique {after' : Store} {own' others' : List WrittenRow}
    (h : Performs parameters SetsOff store change own others after)
    (h' : Performs parameters SetsOff store change own' others' after') :
    own.length = own'.length ∧ others.length = others'.length := by
  have hcounts : ∀ {own others : List WrittenRow} {after : Store},
      Performs parameters SetsOff store change own others after →
      Progress.run parameters Progress.fire ⟨store, 0, 0⟩ change = .ok ⟨after, own.length, others.length⟩ :=
    fun h => (Progress.run_iff Progress.matches_fire).2 ⟨_, _, _, h, by simp only [Nat.zero_add]⟩
  have hsame := Except.ok.inj ((hcounts h).symm.trans (hcounts h'))
  exact ⟨congrArg Progress.direct hsame, congrArg Progress.triggered hsame⟩

namespace Connection

variable {c after : Connection} {text : String} {parameters : List StoredValue} {own others : List WrittenRow}

/-! ## One statement -/

/-- The rows that a statement writes on a connection, its own and those of triggers.  A statement that is no change
writes none. -/
inductive Wrote (c : Connection) (text : String) (parameters : List StoredValue) :
    List WrittenRow → List WrittenRow → Prop where
  | change {change : PlannedChange} {own others : List WrittenRow} {store : Store}
      (hplan : c.planOf text parameters = .ok (.change change))
      (h : Performs parameters.toArray SetsOff c.store change own others store) : Wrote c text parameters own others
  | other {plan : Plan} (hplan : c.planOf text parameters = .ok plan) (hother : ∀ change, plan ≠ .change change) :
      Wrote c text parameters [] []

/-- All that a statement can do to a connection. -/
inductive Ran (c : Connection) (text : String) (parameters : List StoredValue) :
    Except Failure Result → Connection → Prop where
  | change {change : PlannedChange} {own others : List WrittenRow} {store : Store}
      (hplan : c.planOf text parameters = .ok (.change change))
      (h : Performs parameters.toArray SetsOff c.store change own others store) :
      Ran c text parameters (.ok .empty)
        { c with
          store
          changes := own.length
          totalChanges := c.totalChanges + own.length + others.length }
  | other {plan : Plan} {result : Result} {store : Store} (hplan : c.planOf text parameters = .ok plan)
      (hother : ∀ change, plan ≠ .change change) : Ran c text parameters (.ok result) { c with store }
  | failed {f : Failure} {store : Store} : Ran c text parameters (.error f) { c with store }

/-- A plan that is no change leaves the counters alone. -/
theorem execute_other {plan : Plan} {parameters : Array StoredValue} {result : Result}
    (hother : ∀ change, plan ≠ .change change) (h : c.execute parameters plan = .ok (result, after)) :
    ∃ store, after = { c with store } := by
  cases plan with
  | change change => exact absurd rfl (hother change)
  | nothing =>
      cases h
      exact ⟨c.store, rfl⟩
  | select s =>
      obtain ⟨found, -, h⟩ := bind_eq_ok.1 h
      cases h
      exact ⟨c.store, rfl⟩
  | createTable table | createTrigger table trigger =>
      obtain ⟨_, -, h⟩ := bind_eq_ok.1 h
      cases h
      exact ⟨_, rfl⟩
  | createIndex table index =>
      obtain ⟨_, -, h⟩ := bind_eq_ok.1 h
      split at h
      · cases h
      · cases h
        exact ⟨_, rfl⟩

/-- A change that succeeds sets the count to its own rows, and adds all rows to the total. -/
theorem execute_change {change : PlannedChange} {parameters : Array StoredValue} {result : Result}
    (h : c.execute parameters (.change change) = .ok (result, after)) : ∃ own others store,
      Performs parameters SetsOff c.store change own others store ∧ result = .empty ∧
      after = { c with
        store
        changes := own.length
        totalChanges := c.totalChanges + own.length + others.length } := by
  obtain ⟨_, -, h⟩ := bind_eq_ok.1 h
  obtain ⟨p, hrun, h⟩ := bind_eq_ok.1 h
  obtain ⟨own, others, store, hperforms, rfl⟩ := (Progress.run_iff Progress.matches_fire).1 hrun
  cases h
  exact ⟨own, others, store, hperforms, rfl, by simp only [Nat.zero_add]⟩

theorem ran (c : Connection) (text : String) (parameters : List StoredValue) :
    Ran c text parameters (c.run text parameters).1 (c.run text parameters).2 := by
  have hfailed : ∀ (f : Failure) (store : Store),
      Ran c text parameters (.error f) (if c.undoes then c else { c with store }) := by
    intro f store
    split
    · exact @Ran.failed c text parameters f c.store
    · exact .failed
  unfold run
  cases hrun : c.store.interrupted (c.planOf text parameters) >>= c.execute parameters.toArray with
  | error stop => exact hfailed _ _
  | ok p =>
      obtain ⟨plan, hplan, hexecute⟩ := bind_eq_ok.1 hrun
      rw [Progress.interrupted_eq_ok] at hplan
      obtain ⟨result, after⟩ := p
      by_cases hchange : ∃ change, plan = .change change
      · obtain ⟨change, rfl⟩ := hchange
        obtain ⟨own, others, store, hperforms, rfl, rfl⟩ := execute_change hexecute
        exact .change hplan hperforms
      · have hother : ∀ change, plan ≠ .change change := fun change h => hchange ⟨change, h⟩
        obtain ⟨store, rfl⟩ := execute_other hother hexecute
        exact .other hplan hother

/-- A statement that succeeds has written rows, or it was none that writes. -/
theorem exists_wrote {result : Result} (h : c.run text parameters = (.ok result, after)) :
    ∃ own others, Wrote c text parameters own others := by
  have hran := ran c text parameters
  rw [h] at hran
  cases hran with
  | change hplan hperforms => exact ⟨_, _, .change hplan hperforms⟩
  | other hplan hother => exact ⟨[], [], .other hplan hother⟩

/-- What is told from the counters is the number of rows that the statement wrote itself, wherever the counters
stood. -/
theorem changedBetween_run {result : Result} (h : c.run text parameters = (.ok result, after))
    (hwrote : Wrote c text parameters own others) : changedBetween c after = own.length := by
  have hran := ran c text parameters
  rw [h] at hran
  cases hran with
  | other hplan hother =>
      cases hwrote with
      | change hplan' _ =>
          cases hplan.symm.trans hplan'
          exact absurd rfl (hother _)
      | other _ _ => exact if_pos rfl
  | change hplan hperforms =>
      cases hwrote with
      | other hplan' hother =>
          cases hplan.symm.trans hplan'
          exact absurd rfl (hother _)
      | change hplan' hperforms' =>
          cases hplan.symm.trans hplan'
          rw [changedBetween_change, (hperforms.length_unique hperforms').1]
          split
          · omega
          · rfl

/-! ## Several statements -/

/-- The rows that the changes among several statements wrote, change by change. -/
inductive Log : Connection → List (String × List StoredValue) → List (List WrittenRow × List WrittenRow) → Prop where
  | done {c : Connection} : Log c [] []
  | change {c : Connection} {s : String × List StoredValue} {rest : List (String × List StoredValue)}
      {change : PlannedChange} {own others : List WrittenRow} {store : Store} {result : Result}
      {log : List (List WrittenRow × List WrittenRow)} (hrun : (c.run s.1 s.2).1 = .ok result)
      (hplan : c.planOf s.1 s.2 = .ok (.change change))
      (h : Performs s.2.toArray SetsOff c.store change own others store) (hrest : Log (c.run s.1 s.2).2 rest log) :
      Log c (s :: rest) ((own, others) :: log)
  | other {c : Connection} {s : String × List StoredValue} {rest : List (String × List StoredValue)}
      {log : List (List WrittenRow × List WrittenRow)}
      (hother : ∀ result, (c.run s.1 s.2).1 = .ok result → ∀ change, c.planOf s.1 s.2 ≠ .ok (.change change))
      (hrest : Log (c.run s.1 s.2).2 rest log) : Log c (s :: rest) log

/-- The counters after any statements: the total has grown by all rows that were written, and the count is that of the
last change, however many other statements came after it. -/
theorem counters_runAll (c : Connection) (statements : List (String × List StoredValue)) :
    ∃ log, Log c statements log ∧
      (c.runAll statements).totalChanges = c.totalChanges + (log.map fun e => e.1.length + e.2.length).sum ∧
      (c.runAll statements).changes = (log.getLast?.map fun e => e.1.length).getD c.changes := by
  induction statements generalizing c with
  | nil => exact ⟨[], .done, rfl, rfl⟩
  | cons s rest ih =>
      obtain ⟨log, hlog, htotal, hlast⟩ := ih (c.run s.1 s.2).2
      have hran := ran c s.1 s.2
      rw [runAll, htotal, hlast]
      generalize houtcome : (c.run s.1 s.2).1 = outcome at hran
      generalize hafter : (c.run s.1 s.2).2 = after at hran
      cases hran with
      | failed =>
          refine ⟨log, .other (fun result hrun => ?_) hlog, rfl, rfl⟩
          rw [houtcome] at hrun
          cases hrun
      | other hplan hother =>
          refine ⟨log, .other (fun _ _ change hplan' => ?_) hlog, rfl, rfl⟩
          cases hplan.symm.trans hplan'
          exact hother change rfl
      | change hplan hperforms =>
          refine ⟨_, .change houtcome hplan hperforms hlog, ?_, ?_⟩
          · rw [List.map_cons, List.sum_cons]
            dsimp only
            omega
          · rw [List.getLast?_cons]
            cases log.getLast? <;> rfl

end Connection

end RecordTables.Engine
