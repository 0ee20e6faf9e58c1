import RecordTables.Database.Session

/-!
# Steps of a session

What each kind of step does to a database, in terms of the connection that the database has for it: the open one, or the
one that it opens.
-/

namespace RecordTables

open Engine (Connection Failure Result Store)

namespace Database

/-- The connection that a database has for a step. -/
def live (db : Database) : Except Failure Connection :=
  match db.connection with
  | some c => .ok c
  | none => db.openConnection

/-- A database that notes a statement, and keeps what the engine made of its connection. -/
def noted (db : Database) (issued : Issued) (after : Connection) : Database :=
  { db.keep after with issued := db.issued ++ [issued] }

@[simp]
theorem live_keep (db : Database) (c : Connection) : (db.keep c).live = .ok c := rfl

@[simp]
theorem live_noted (db : Database) (issued : Issued) (after : Connection) : (db.noted issued after).live = .ok after := rfl

theorem keep_keep (db : Database) (c after : Connection) : (db.keep c).keep after = db.keep after := by
  unfold keep
  cases db.location <;> rfl

end Database

namespace Session

variable {α β : Type} {db db' : Database}

/-! ## Computations -/

@[simp]
theorem perform_pure (a : α) : perform (pure a) db = (.ok a, db) := rfl

@[simp]
theorem perform_throw (e : Error) : perform (throw e : Session α) db = (.error e, db) := rfl

@[simp]
theorem perform_liftM (x : Outcome α) : perform (liftM x) db = (x, db) := by
  cases x <;> rfl

theorem perform_get : perform get db = (.ok db, db) := rfl

theorem perform_set : perform (set db') db = (.ok (), db') := rfl

theorem perform_modify (f : Database → Database) : perform (modify f) db = (.ok (), f db) := rfl

/-- A step that succeeds is followed by the next one. -/
theorem perform_bind {x : Session α} {f : α → Session β} {a : α} (h : perform x db = (.ok a, db')) :
    perform (x >>= f) db = perform (f a) db' := by
  change (ExceptT.run x).run db = _ at h
  change (ExceptT.run (x >>= f)).run db = _
  rw [ExceptT.run_bind, StateT.run_bind, h]
  rfl

/-- Behind a step that fails nothing happens. -/
theorem perform_bind_error {x : Session α} {f : α → Session β} {e : Error} (h : perform x db = (.error e, db')) :
    perform (x >>= f) db = (.error e, db') := by
  change (ExceptT.run x).run db = _ at h
  change (ExceptT.run (x >>= f)).run db = _
  rw [ExceptT.run_bind, StateT.run_bind, h]
  rfl

/-- Steps that succeed one after the other succeed each. -/
theorem of_perform_bind {x : Session α} {f : α → Session β} {b : β} (h : perform (x >>= f) db = (.ok b, db')) :
    ∃ a between, perform x db = (.ok a, between) ∧ perform (f a) between = (.ok b, db') := by
  rcases hx : perform x db with ⟨result, between⟩
  cases result with
  | error e => rw [perform_bind_error hx] at h; cases h
  | ok a => exact ⟨a, between, rfl, (perform_bind hx).symm.trans h⟩

/-- The answer of a step, put another way. -/
theorem perform_map (f : α → β) (x : Session α) (db : Database) :
    perform (f <$> x) db = (f <$> (perform x db).1, (perform x db).2) := by
  rw [map_eq_pure_bind]
  rcases h : perform x db with ⟨result, after⟩
  cases result with
  | error e => exact perform_bind_error h
  | ok a => exact perform_bind h

theorem perform_liftM_bind_error {x : Outcome α} {f : α → Session β} {e : Error} (h : x = .error e) :
    perform (liftM x >>= f) db = (.error e, db) := by
  subst h
  exact perform_bind_error (perform_liftM _)

/-- What follows a step and leaves the database alone does not show in it. -/
theorem perform_bind_snd {x : Session α} {f : α → Session β} (h : ∀ a db, (perform (f a) db).2 = db) :
    (perform (x >>= f) db).2 = (perform x db).2 := by
  rcases hx : perform x db with ⟨result, after⟩
  cases result with
  | error e => rw [perform_bind_error hx]
  | ok a => rw [perform_bind hx, h]

theorem perform_liftM_bind {x : Outcome α} {f : α → Session β} {a : α} (h : x = .ok a) :
    perform (liftM x >>= f) db = perform (f a) db := by
  subst h
  exact perform_bind (perform_liftM _)

/-- A computation on each of several values, which leaves the database alone. -/
theorem perform_mapM {f : α → Outcome β} (xs : List α) :
    perform (xs.mapM fun x => liftM (f x)) db = (xs.mapM f, db) := by
  induction xs with
  | nil => rfl
  | cons x xs ih =>
      rw [List.mapM_cons, List.mapM_cons]
      cases hx : f x with
      | error e => exact perform_bind_error (perform_liftM _)
      | ok y =>
          rw [perform_bind (perform_liftM _)]
          cases hxs : xs.mapM f with
          | error e =>
              rw [hxs] at ih
              exact perform_bind_error ih
          | ok ys =>
              rw [hxs] at ih
              exact perform_bind ih

theorem perform_mapM_liftM {f : α → Outcome β} {xs : List α} {ys : List β} (h : xs.mapM f = .ok ys) :
    perform (xs.mapM fun x => liftM (f x)) db = (.ok ys, db) := by
  rw [perform_mapM, h]

/-! ## Statements -/

variable {c : Connection}

theorem perform_connection (h : db.live = .ok c) :
    ∃ opened, perform connection db = (.ok c, opened) ∧ ∀ issued after,
      ({ opened with issued := opened.issued ++ [issued] } : Database).keep after = db.noted issued after := by
  unfold Database.live at h
  split at h
  · rename_i kept hkept
    cases h
    refine ⟨db, ?_, fun issued after => rfl⟩
    unfold connection
    rw [perform_bind perform_get, hkept]
    rfl
  · rename_i hnone
    refine ⟨db.keep c, ?_, fun issued after => ?_⟩
    · unfold connection
      rw [perform_bind perform_get, hnone]
      simp only [h]
      rw [perform_bind perform_set]
      rfl
    · have hkeep := db.keep_keep c after
      unfold Database.keep Database.noted at *
      simp only [Database.keep, Database.mk.injEq] at hkeep ⊢
      exact ⟨trivial, trivial, hkeep.2.2.1, trivial, trivial⟩

/-- A statement goes to the connection that the database has. -/
theorem perform_run {purpose : Purpose} {text : String} {params : List Value} {result : Result} {after : Connection}
    (hlive : db.live = .ok c) (h : c.run text (params.map Value.bound) = (.ok result, after)) :
    perform (run purpose text params) db = (.ok (c, result, after), db.noted ⟨purpose, text, params.length⟩ after) := by
  obtain ⟨opened, hopened, hnoted⟩ := perform_connection hlive
  unfold run
  rw [perform_bind hopened, perform_bind (perform_modify _), h, ← hnoted]
  exact perform_bind (perform_modify _)

theorem perform_run_error {purpose : Purpose} {text : String} {params : List Value} {f : Failure} {after : Connection}
    (hlive : db.live = .ok c) (h : c.run text (params.map Value.bound) = (.error f, after)) :
    perform (run purpose text params) db =
      (.error (engineError text f), db.noted ⟨purpose, text, params.length⟩ after) := by
  obtain ⟨opened, hopened, hnoted⟩ := perform_connection hlive
  unfold run
  rw [perform_bind hopened, perform_bind (perform_modify _), h, ← hnoted]
  exact perform_bind (perform_modify _)

/-- Without a connection no statement is handed over. -/
theorem perform_run_unopened {purpose : Purpose} {text : String} {params : List Value} {f : Failure}
    (hlive : db.live = .error f) : perform (run purpose text params) db = (.error (engineError "" f), db) := by
  have hconnection : perform connection db = (.error (engineError "" f), db) := by
    unfold Database.live at hlive
    split at hlive
    · cases hlive
    · rename_i hnone
      unfold connection
      rw [perform_bind perform_get, hnone]
      simp only [hlive]
      rfl
  exact perform_bind_error hconnection

/-- A statement that is handed over is noted, whatever becomes of it. -/
theorem issued_run {purpose : Purpose} {text : String} {params : List Value} (hlive : db.live = .ok c) :
    (perform (run purpose text params) db).2.issued = db.issued ++ [⟨purpose, text, params.length⟩] := by
  rcases h : c.run text (params.map Value.bound) with ⟨result, after⟩
  cases result with
  | error f => rw [perform_run_error hlive h]; rfl
  | ok result => rw [perform_run hlive h]; rfl

/-- The rows of a result, as a session gives them. -/
def records (result : Result) : List Row :=
  result.rows.map fun values => Row.ofList (result.names.zip (values.map Value.ofStored))

theorem perform_rows {text : String} {params : List Value} {result : Result} {after : Connection}
    (hlive : db.live = .ok c) (h : c.run text (params.map Value.bound) = (.ok result, after)) :
    perform (rows text params) db = (.ok (records result), db.noted ⟨.query, text, params.length⟩ after) :=
  perform_bind (perform_run hlive h)

/-- A statement counts the rows that it changed itself. -/
theorem perform_exec {text : String} {params : List Value} {result : Result} {after : Connection}
    (hlive : db.live = .ok c) (h : c.run text (params.map Value.bound) = (.ok result, after)) :
    perform (exec text params) db =
      (.ok (if after.totalChanges = c.totalChanges then 0 else after.changes),
        db.noted ⟨.exec, text, params.length⟩ after) :=
  perform_bind (perform_run hlive h)

/-- A statement that succeeds was run on the connection that there is. -/
theorem of_perform_exec {text : String} {params : List Value} {count : Nat} (hlive : db.live = .ok c)
    (h : perform (exec text params) db = (.ok count, db')) :
    ∃ result after, c.run text (params.map Value.bound) = (.ok result, after) ∧ db'.live = .ok after := by
  rcases hrun : c.run text (params.map Value.bound) with ⟨result, after⟩
  cases result with
  | error f => rw [exec, perform_bind_error (perform_run_error hlive hrun)] at h; cases h
  | ok result =>
      rw [perform_exec hlive hrun] at h
      cases h
      exact ⟨result, after, rfl, rfl⟩

theorem perform_exec_error {text : String} {params : List Value} {f : Failure} {after : Connection}
    (hlive : db.live = .ok c) (h : c.run text (params.map Value.bound) = (.error f, after)) :
    perform (exec text params) db = (.error (engineError text f), db.noted ⟨.exec, text, params.length⟩ after) :=
  perform_bind_error (perform_run_error hlive h)

end Session

end RecordTables
