import RecordTables.Engine.Connection

/-!
# Counters of a connection

A connection counts changed rows from its opening on.  What a statement answers and does, and the number of rows that it
is said to have changed, does not depend on where the counters stand.
-/

namespace RecordTables.Engine.Connection

variable {c d : Connection} {text : String} {parameters : List StoredValue}

/-- A connection as if it had just been opened to what it has stored. -/
def reset (c : Connection) : Connection := .ofStore c.store c.readOnly c.undoes

/-- The connection after several statements with values for their parameters, whatever they answered. -/
def runAll (c : Connection) : List (String × List StoredValue) → Connection
  | [] => c
  | statement :: rest => (c.run statement.1 statement.2).2.runAll rest

/-- The rows that a statement changed itself, told from the counters before and after it. -/
def changedBetween (before after : Connection) : Nat :=
  if after.totalChanges = before.totalChanges then 0 else after.changes

theorem reset_eq_iff : c.reset = d.reset ↔ c.store = d.store ∧ c.readOnly = d.readOnly ∧ c.undoes = d.undoes := by
  simp only [reset, ofStore, mk.injEq, and_true]

/-- A statement that leaves the total alone has changed no rows, wherever the total stood. -/
theorem changedBetween_eq_of_total {c' d' : Connection} (hc : c'.totalChanges = c.totalChanges)
    (hd : d'.totalChanges = d.totalChanges) : changedBetween c c' = changedBetween d d' := by
  rw [changedBetween, changedBetween, if_pos hc, if_pos hd]

/-- The total moves by the rows of the statement, wherever it stood. -/
theorem changedBetween_change (c : Connection) (store : Store) (direct triggered : Nat) :
    changedBetween c { c with store, changes := direct, totalChanges := c.totalChanges + direct + triggered } =
      if direct + triggered = 0 then 0 else direct := by
  unfold changedBetween
  by_cases h : direct + triggered = 0
  · rw [if_pos h, if_pos (by dsimp only; omega)]
  · rw [if_neg h, if_neg (by dsimp only; omega)]

/-- Two outcomes that differ at most in the counters, for connections that differ at most in them. -/
inductive Alike (c d : Connection) : Except Interruption (Result × Connection) →
    Except Interruption (Result × Connection) → Prop where
  | stopped (stop : Interruption) : Alike c d (.error stop) (.error stop)
  | done {result : Result} {c' d' : Connection} (hreset : c'.reset = d'.reset) (hmode : c'.readOnly = c.readOnly)
      (hundoes : c'.undoes = c.undoes) (hchanged : changedBetween c c' = changedBetween d d') :
      Alike c d (.ok (result, c')) (.ok (result, d'))

theorem Alike.unchanged {result : Result} (h : c.reset = d.reset) : Alike c d (.ok (result, c)) (.ok (result, d)) :=
  .done h rfl rfl (changedBetween_eq_of_total rfl rfl)

/-- A plan is carried out alike, wherever the counters stand. -/
theorem alike_execute (h : c.reset = d.reset) (parameters : Array StoredValue) (plan : Plan) :
    Alike c d (c.execute parameters plan) (d.execute parameters plan) := by
  obtain ⟨hstore, hreads, hundoes⟩ := reset_eq_iff.1 h
  have hkept : ∀ store : Store, ({ c with store } : Connection).reset = ({ d with store } : Connection).reset :=
    fun store => reset_eq_iff.2 ⟨rfl, hreads, hundoes⟩
  have hsame : ∀ store : Store, changedBetween c { c with store } = changedBetween d { d with store } :=
    fun store => changedBetween_eq_of_total rfl rfl
  have hwriting : d.writing = c.writing := by rw [writing, writing, hreads]
  cases plan with
  | nothing => exact .unchanged h
  | select s =>
      simp only [execute, ← hstore]
      cases c.store.interrupted (s.run parameters) with
      | error stop => exact .stopped stop
      | ok result => exact .unchanged h
  | createTable table =>
      simp only [execute, hwriting, ← hstore]
      cases c.store.interrupted c.writing with
      | error stop => exact .stopped stop
      | ok => exact .done (hkept _) rfl rfl (hsame _)
  | createTrigger table trigger =>
      simp only [execute, hwriting, ← hstore]
      cases c.store.interrupted c.writing with
      | error stop => exact .stopped stop
      | ok => exact .done (hkept _) rfl rfl (hsame _)
  | createIndex table index =>
      simp only [execute, hwriting, ← hstore]
      cases c.store.interrupted c.writing with
      | error stop => exact .stopped stop
      | ok =>
          simp only [bind, Except.bind]
          split
          · exact .stopped _
          · exact .done (hkept _) rfl rfl (hsame _)
  | change change =>
      simp only [execute, hwriting, ← hstore]
      cases c.store.interrupted c.writing with
      | error stop => exact .stopped stop
      | ok =>
          simp only [bind, Except.bind]
          cases Progress.run parameters Progress.fire ⟨c.store, 0, 0⟩ change with
          | error stop => exact .stopped stop
          | ok p =>
              refine .done (reset_eq_iff.2 ⟨rfl, hreads, hundoes⟩) rfl rfl ?_
              rw [changedBetween_change, changedBetween_change]

/-- A statement runs alike, wherever the counters stand: same answer, same tables, same count. -/
theorem run_of_reset_eq (h : c.reset = d.reset) (text : String) (parameters : List StoredValue) :
    (c.run text parameters).1 = (d.run text parameters).1 ∧
      (c.run text parameters).2.reset = (d.run text parameters).2.reset ∧
      changedBetween c (c.run text parameters).2 = changedBetween d (d.run text parameters).2 := by
  obtain ⟨hstore, hreads, hundoes⟩ := reset_eq_iff.1 h
  have hplan : d.planOf text parameters = c.planOf text parameters := by rw [planOf, planOf, hstore]
  have halike : Alike c d (c.store.interrupted (c.planOf text parameters) >>= c.execute parameters.toArray)
      (d.store.interrupted (d.planOf text parameters) >>= d.execute parameters.toArray) := by
    rw [hplan, ← hstore]
    cases c.store.interrupted (c.planOf text parameters) with
    | error stop => exact .stopped stop
    | ok plan => exact alike_execute h _ plan
  unfold run
  generalize c.store.interrupted (c.planOf text parameters) >>= c.execute parameters.toArray = x at halike ⊢
  generalize d.store.interrupted (d.planOf text parameters) >>= d.execute parameters.toArray = y at halike ⊢
  cases halike with
  | stopped stop =>
      dsimp only
      rw [← hundoes]
      split
      · exact ⟨rfl, h, changedBetween_eq_of_total rfl rfl⟩
      · exact ⟨rfl, reset_eq_iff.2 ⟨rfl, hreads, rfl⟩, changedBetween_eq_of_total rfl rfl⟩
  | done hreset _ _ hchanged => exact ⟨rfl, hreset, hchanged⟩

/-- A statement does not change how the connection was opened. -/
theorem run_mode (c : Connection) (text : String) (parameters : List StoredValue) :
    (c.run text parameters).2.readOnly = c.readOnly ∧ (c.run text parameters).2.undoes = c.undoes := by
  unfold run
  cases hplan : c.store.interrupted (c.planOf text parameters) with
  | error stop =>
      simp only [bind, Except.bind]
      split <;> exact ⟨rfl, rfl⟩
  | ok plan =>
      have halike := alike_execute (c := c) rfl parameters.toArray plan
      simp only [bind, Except.bind]
      cases hexecute : c.execute parameters.toArray plan with
      | error stop =>
          simp only
          split <;> exact ⟨rfl, rfl⟩
      | ok p =>
          rw [hexecute] at halike
          cases halike with
          | done _ hmode hundoes _ => exact ⟨hmode, hundoes⟩

end RecordTables.Engine.Connection
