import RecordTables.Proofs.Database.KeyedRecords
import RecordTables.Proofs.Engine.Pages

/-!
# Paging

Pages of a query are stretches of what it answers without a limit, so consecutive ones cover it without loss or
repetition.  That holds for limits and offsets below `2 ^ 63`; from there on, a number of a query is no integer to the
engine, and the query is refused.
-/

namespace RecordTables

open Engine (Connection Failure Result)

/-! ## Stretches -/

section Stretches

variable {α β : Type} {f : α → Outcome β} {xs : List α} {ys : List β}

theorem mapM_drop (h : xs.mapM f = .ok ys) (m : Nat) : (xs.drop m).mapM f = .ok (ys.drop m) :=
  Engine.mapM_eq_ok_iff.2 (List.forall₂_drop m (Engine.mapM_eq_ok_iff.1 h))

theorem mapM_take (h : xs.mapM f = .ok ys) (n : Nat) : (xs.take n).mapM f = .ok (ys.take n) :=
  Engine.mapM_eq_ok_iff.2 (List.forall₂_take n (Engine.mapM_eq_ok_iff.1 h))

/-- Stretches of one length, one after the other, make up the beginning of a list. -/
theorem flatten_stretches (xs : List α) (n count : Nat) :
    ((List.range count).map fun i => (xs.drop (i * n)).take n).flatten = xs.take (count * n) := by
  induction count with
  | zero => simp
  | succ count ih =>
      rw [Nat.succ_mul, List.take_add, List.range_succ, List.map_append, List.flatten_append, ih]
      simp

end Stretches

/-! ## Selections of a session -/

namespace Session

variable {registry : Registry} {type : RecordType} {q : Sql.Query} {db db' : Database} {table : TableDefinition}
  {c after : Connection} {all : List Datum}

/-- The values that a connection gets for the marks of a selection. -/
def marks (q : Sql.Query) : List StoredValue := (Sql.whereParams q.filter).map Value.bound

theorem perform_select (htable : type.definition registry = .ok table) (hvalid : table.validate q.columns = .ok ())
    (hlive : db.live = .ok c) {result : Result}
    (h : c.run (Sql.Statement.select table.name q).text (marks q) = (.ok result, after)) :
    perform (select registry type q) db = ((records result).mapM type.decode,
      db.noted ⟨.query, (Sql.Statement.select table.name q).text, (Sql.whereParams q.filter).length⟩ after) := by
  rw [select, definition, perform_liftM_bind htable, perform_liftM_bind hvalid]
  exact (perform_bind (perform_rows hlive h)).trans (perform_mapM _)

theorem perform_select_error (htable : type.definition registry = .ok table)
    (hvalid : table.validate q.columns = .ok ()) (hlive : db.live = .ok c) {f : Failure}
    (h : c.run (Sql.Statement.select table.name q).text (marks q) = (.error f, after)) :
    (perform (select registry type q) db).1 = .error (engineError (Sql.Statement.select table.name q).text f) := by
  rw [select, definition, perform_liftM_bind htable, perform_liftM_bind hvalid]
  exact congrArg Prod.fst (perform_bind_error (perform_bind_error (perform_run_error hlive h)))

/-- Rows that are answered were found on the connection that the database has. -/
theorem of_perform_rows {text : String} {params : List Value} {found : List Row}
    (h : perform (rows text params) db = (.ok found, db')) :
    ∃ c result, db.live = .ok c ∧ (c.run text (params.map Value.bound)).1 = .ok result ∧ found = records result := by
  cases hlive : db.live with
  | error f =>
      rw [rows, perform_bind_error (perform_run_unopened hlive)] at h
      cases h
  | ok c =>
      rcases hrun : c.run text (params.map Value.bound) with ⟨result, after⟩
      cases result with
      | error f =>
          rw [rows, perform_bind_error (perform_run_error hlive hrun)] at h
          cases h
      | ok result =>
          rw [perform_rows hlive hrun] at h
          cases h
          exact ⟨c, result, rfl, congrArg Prod.fst hrun, rfl⟩

/-- Records that are answered were found on the connection that the database has, and read. -/
theorem of_perform_select (h : perform (select registry type q) db = (.ok all, db')) :
    ∃ table c result, type.definition registry = .ok table ∧ table.validate q.columns = .ok () ∧ db.live = .ok c ∧
      (c.run (Sql.Statement.select table.name q).text (marks q)).1 = .ok result ∧
      (records result).mapM type.decode = .ok all := by
  obtain ⟨table, _, htable, h⟩ := of_perform_bind h
  rw [definition, perform_liftM] at htable
  obtain ⟨hdefinition, rfl⟩ := Prod.mk.inj htable
  obtain ⟨_, _, hvalid, h⟩ := of_perform_bind h
  rw [perform_liftM] at hvalid
  obtain ⟨hcolumns, rfl⟩ := Prod.mk.inj hvalid
  obtain ⟨found, _, hrows, h⟩ := of_perform_bind h
  obtain ⟨c, result, hlive, hrun, rfl⟩ := of_perform_rows hrows
  rw [perform_mapM] at h
  exact ⟨table, c, result, hdefinition, hcolumns, hlive, hrun, (Prod.mk.inj h).1⟩

/-- A query with a page. -/
def page (registry : Registry) (type : RecordType) (q : Sql.Query) (n m : UInt64) : Session (List Datum) :=
  select registry type ((q.setLimit n).setOffset m)

/-- Whether the engine meets the rows of a query in the same order where it is asked for `n` of them at most. -/
def ScannedAlike (registry : Registry) (type : RecordType) (q : Sql.Query) (n : UInt64) (db : Database) : Prop :=
  ∀ table c, type.definition registry = .ok table → db.live = .ok c →
    c.met (Sql.Statement.select table.name ((q.setLimit n).setOffset 0)).text (marks q) =
      c.met (Sql.Statement.select table.name (q.setLimit 0)).text (marks q)

/-- What a database answers to the pages of a query that has `all` for an answer without a limit. -/
structure Paged (registry : Registry) (type : RecordType) (q : Sql.Query) (n : UInt64) (db : Database)
    (all : List Datum) : Prop where
  /-- Without a limit an offset does nothing. -/
  unlimited : ∀ m, perform (page registry type q 0 m) db = perform (select registry type (q.setLimit 0)) db
  answers : n.toNat < 2 ^ 63 → ∀ m : UInt64, m.toNat < 2 ^ 63 →
    (perform (page registry type q n m) db).1 = .ok ((all.drop m.toNat).take n.toNat)
  /-- Consecutive pages, as many as have an offset. -/
  covers : n.toNat < 2 ^ 63 → ∀ count : Nat, (∀ i < count, i * n.toNat < 2 ^ 63) → ∃ pages,
    (perform ((List.range count).mapM fun i => page registry type q n (UInt64.ofNat (i * n.toNat))) db).1 = .ok pages ∧
      pages.flatten = all.take (count * n.toNat)
  refuses : ∀ m : UInt64, 2 ^ 63 ≤ n.toNat ∨ 2 ^ 63 ≤ m.toNat →
    (perform (page registry type q n m) db).1 = .error (.engine 20 "datatype mismatch")

/-- Steps that answer on a connection and leave it as it is answer one after the other. -/
theorem perform_mapM_live {α β : Type} {f : α → Session β} {g : α → β} {xs : List α}
    (h : ∀ x ∈ xs, ∀ db : Database, db.live = .ok c →
      ∃ db', perform (f x) db = (.ok (g x), db') ∧ db'.live = .ok c) (hlive : db.live = .ok c) :
    ∃ db', perform (xs.mapM f) db = (.ok (xs.map g), db') ∧ db'.live = .ok c := by
  induction xs generalizing db with
  | nil => exact ⟨db, rfl, hlive⟩
  | cons x xs ih =>
      rw [List.forall_mem_cons] at h
      obtain ⟨between, hfirst, hlive⟩ := h.1 db hlive
      obtain ⟨db', hrest, hlive⟩ := ih h.2 hlive
      refine ⟨db', ?_, hlive⟩
      rw [List.mapM_cons, perform_bind hfirst, perform_bind hrest]
      rfl

/-- A query that is answered is answered in pages of any size, as long as the engine meets its rows in a fixed order.
Without an ordering it does. -/
theorem paged_of_select (h : (perform (select registry type (q.setLimit 0)) db).1 = .ok all) {n : UInt64} (hn : n ≠ 0)
    (hscan : q.order ≠ [] → ScannedAlike registry type q n db) : Paged registry type q n db all := by
  obtain ⟨table, c, result, htable, hvalid, hlive, hrun, hread⟩ := of_perform_select (Prod.ext h rfl)
  have hpages := fun m => Connection.run_page hrun hn (fun hq => hscan hq table c htable hlive) m
  have hanswer : n.toNat < 2 ^ 63 → ∀ m : UInt64, m.toNat < 2 ^ 63 → ∀ db : Database, db.live = .ok c →
      ∃ db', perform (page registry type q n m) db = (.ok ((all.drop m.toNat).take n.toNat), db') ∧
        db'.live = .ok c := by
    intro hlimit m hm db hlive
    have hpage := hpages m
    rw [if_pos ⟨hlimit, hm⟩] at hpage
    have hrecords : records ⟨result.names, (result.rows.drop m.toNat).take n.toNat⟩ =
        ((records result).drop m.toNat).take n.toNat := by
      simp only [records, List.map_take, List.map_drop]
    have hselect := @perform_select _ _ ((q.setLimit n).setOffset m) _ _ _ _ htable hvalid hlive _ hpage
    rw [hrecords, mapM_take (mapM_drop hread _)] at hselect
    exact ⟨_, hselect, Database.live_noted _ _ _⟩
  refine ⟨fun m => rfl, fun hlimit m hm => ?_, fun hlimit count hcount => ?_, fun m hm => ?_⟩
  · obtain ⟨_, hperform, -⟩ := hanswer hlimit m hm db hlive
    rw [hperform]
  · have hoffset : ∀ i < count, (UInt64.ofNat (i * n.toNat)).toNat = i * n.toNat := fun i hi =>
      UInt64.toNat_ofNat_of_lt' (show _ < 2 ^ 64 from (hcount i hi).trans (by decide))
    have heach : ∀ i ∈ List.range count, ∀ db : Database, db.live = .ok c →
        ∃ db', perform (page registry type q n (UInt64.ofNat (i * n.toNat))) db =
          (.ok ((all.drop (i * n.toNat)).take n.toNat), db') ∧ db'.live = .ok c := by
      intro i hi db hlive
      rw [List.mem_range] at hi
      have hpage := hanswer hlimit (UInt64.ofNat (i * n.toNat)) (by rw [hoffset i hi]; exact hcount i hi) db hlive
      rwa [hoffset i hi] at hpage
    obtain ⟨_, hperform, -⟩ := perform_mapM_live heach hlive
    exact ⟨_, congrArg Prod.fst hperform, flatten_stretches all n.toNat count⟩
  · have hpage := hpages m
    rw [if_neg (by omega)] at hpage
    exact @perform_select_error _ _ ((q.setLimit n).setOffset m) _ _ _ _ htable hvalid hlive _ hpage

/-! ## Open tasks -/

/-- Tasks that an ordering by what is done does not tell apart. -/
def openTasks : Engine.Table where
  name := "Task"
  columns := [⟨"done", "INTEGER", .integer, true⟩, ⟨"id", "INTEGER", .integer, true⟩, ⟨"note", "TEXT", .text, false⟩,
    ⟨"title", "TEXT", .text, true⟩]
  primaryKey := [1]
  numberColumn := some 1
  indexes := [⟨"task_title", [some 3, some 0], false, .created⟩]
  triggers := []
  rows := [⟨1, [.int 0, .int 1, .null, .text "write".toUTF8]⟩, ⟨2, [.int 0, .int 2, .null, .text "read".toUTF8]⟩]

/-- A database that holds them. -/
def openDatabase : Database :=
  { location := .memory, options := {}, connection := some (.ofStore ⟨[openTasks]⟩ false true) }

/-- All tasks, those that are done behind the others. -/
def byDone : Sql.Query := Sql.Query.empty.addOrder ⟨"done", false⟩

/-- A task that is open. -/
def openTask (id : Int) (title : String) : Datum :=
  .record [("id", .int .i64 id), ("title", .text title), ("done", .bool false), ("note", .absent)]

/-- What the selection of all tasks means to the engine. -/
def openSelection : Engine.PlannedSelection :=
  ⟨["done", "id", "note", "title"], [.column 0, .column 1, .column 2, .column 3], false, .table openTasks, none,
    [⟨.column 0, false⟩], ⟨none, none⟩⟩

theorem run_openTasks : (Connection.ofStore ⟨[openTasks]⟩ false true).run
    (Sql.Statement.select taskTable.name (byDone.setLimit 0)).text (marks (byDone.setLimit 0)) =
      (.ok ⟨openSelection.names, openTasks.rows.map Engine.NumberedRow.values⟩, .ofStore ⟨[openTasks]⟩ false true) := by
  have htext : Engine.Statement.ofText (Sql.Statement.select taskTable.name (byDone.setLimit 0)).text =
      .ok (.select ⟨[.all], .table "Task", none, [⟨.name "done" true 30, false⟩], none, none⟩, 0) := by
    cbv
  have hplan : (Connection.ofStore ⟨[openTasks]⟩ false true).store.planSelection
      ⟨[.all], .table "Task", none, [⟨.name "done" true 30, false⟩], none, none⟩ = .ok openSelection := by
    cbv
  have hfound : openSelection.found #[] = .ok (openTasks.affinities, openTasks.rows.map Engine.NumberedRow.values) := by
    decide +kernel
  have hshown : openSelection.shown #[] (openTasks.affinities, openTasks.rows.map Engine.NumberedRow.values) =
      .ok (openTasks.rows.map Engine.NumberedRow.values) := by
    cbv
  rw [Connection.run_of_planOf ((Connection.planOf_select htext).2 ⟨_, rfl, hplan, rfl⟩)]
  exact congrArg (·, _)
    (@Engine.PlannedSelection.run_paged openSelection #[] ⟨none, none⟩ _ _ _ _ rfl rfl hfound hshown)

theorem select_openTasks : (perform (select .empty (Gallery.task "gallery") (byDone.setLimit 0)) openDatabase).1 =
    .ok [openTask 1 "write", openTask 2 "read"] := by
  rw [perform_select hasKey_task.definition (by decide) rfl run_openTasks]
  cbv

theorem scannedAlike_openTasks : ScannedAlike .empty (Gallery.task "gallery") byDone 1 openDatabase := by
  intro table c htable hlive
  rw [hasKey_task.definition] at htable
  cases htable
  cases hlive
  decide +kernel

theorem paged_openTasks : Paged .empty (Gallery.task "gallery") byDone 1 openDatabase
    [openTask 1 "write", openTask 2 "read"] :=
  paged_of_select select_openTasks (by decide) fun _ => scannedAlike_openTasks

/-- Not every limit gives a page: one of `2 ^ 63` is refused, though all rows are fewer. -/
theorem not_page_of_select : ¬ ∀ (registry : Registry) (type : RecordType) (q : Sql.Query) (db : Database)
    (all : List Datum) (n m : UInt64), n ≠ 0 → ScannedAlike registry type q n db →
      (perform (select registry type (q.setLimit 0)) db).1 = .ok all →
        (perform (page registry type q n m) db).1 = .ok ((all.drop m.toNat).take n.toNat) := by
  intro h
  have hscan : ScannedAlike .empty (Gallery.task "gallery") byDone 0x8000000000000000 openDatabase := by
    intro table c htable hlive
    rw [hasKey_task.definition] at htable
    cases htable
    cases hlive
    decide +kernel
  have hrun := @Connection.run_page _ _ _ byDone _ (congrArg Prod.fst run_openTasks) 0x8000000000000000 (by decide)
    (fun _ => hscan taskTable _ hasKey_task.definition rfl) 0
  rw [if_neg (by decide)] at hrun
  have hpage := h _ _ byDone openDatabase _ 0x8000000000000000 0 (by decide) hscan select_openTasks
  rw [page, @perform_select_error _ _ ((byDone.setLimit 0x8000000000000000).setOffset 0) _ _ _ _ hasKey_task.definition
    (by decide) rfl _ hrun] at hpage
  cases hpage

end Session

end RecordTables
