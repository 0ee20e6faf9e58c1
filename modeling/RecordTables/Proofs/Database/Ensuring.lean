import RecordTables.Proofs.Database.Ensured
import RecordTables.Proofs.Database.Introspection
import RecordTables.Proofs.Database.KeyedRecords
import RecordTables.Proofs.Database.Scripts
import RecordTables.Proofs.Schema.Agreeing

/-!
# Ensuring a table

Ensuring looks first: a table that is there is compared and left alone, and only one that is not there is created.
Ensured once, a table is found again by the next attempt.
-/

namespace RecordTables

open Engine (sameName Connection Failure Result Store)
open Engine.Store (Free)
open Session (perform perform_bind perform_bind_error perform_liftM_bind IsCatalogQuery Scripted)
open Sql (Unbroken)

/-! ## Tables that are not found -/

namespace Engine.Store

variable {store : Store} {name : String}

/-- Of a table in the store, the catalog lists the columns. -/
theorem columns_of_columnRows {t : Table} (h : store.columnRows name = []) (ht : store.table? name = some t) :
    t.columns = [] := by
  rw [columnRows, ht] at h
  simpa using h

/-- The catalog lists the columns of its own views. -/
theorem covers_of_columnRows (h : store.columnRows name = []) (hnone : store.table? name = none) :
    Session.coversView name = false := by
  rw [columnRows, hnone] at h
  have hfind : builtInColumns.find? (fun b => sameName b.1 name) = none := by
    cases hfound : builtInColumns.find? fun b => sameName b.1 name with
    | none => rfl
    | some b =>
        have hne : ∀ b ∈ builtInColumns, b.2 ≠ [] := by decide
        simp only [hfound, Option.map_some, Option.getD_some, List.map_eq_nil_iff, List.zipIdx_eq_nil_iff] at h
        exact absurd h (hne b (List.mem_of_find?_eq_some hfound))
  rw [List.find?_eq_none] at hfind
  apply List.any_eq_false.2
  intro v hv hsame
  have hmem : (v.1, v.2.map (·, "")) ∈ builtInColumns := List.mem_append_right _ (List.mem_map_of_mem hv)
  exact hfind _ hmem (Engine.sameName_iff.2 (Engine.sameName_iff.1 hsame).symm)

end Engine.Store

namespace Session

variable {registry : Registry} {type : RecordType} {table : TableDefinition} {db after : Database} {c : Connection}

/-- Where no table is found, the catalog could be asked for columns, and it lists none. -/
theorem of_introspect_none {name : String} (h : (perform (introspect name) db).1 = .ok none) :
    ∃ c, db.live = .ok c ∧ c.store.table? "pragma_table_info" = none ∧
      (Unbroken name → c.store.columnRows name = []) := by
  cases hlive : db.live with
  | error f =>
      rw [(Asking.introspect name).unopened hlive] at h
      cases h
  | ok c =>
      have hperform : perform (introspect name) db = (.ok none, (perform (introspect name) db).2) := Prod.ext h rfl
      obtain ⟨listed, asked, hasked, hcolumns⟩ := of_perform_bind hperform
      have hview : c.store.table? "pragma_table_info" = none := by
        by_contra hcovered
        have hplan := Connection.planOf_covered Connection.ofText_columnsText (Option.ne_none_iff_isSome.1 hcovered)
          ([Value.text name].map Value.bound)
        rw [rows, perform_bind_error (perform_run_error hlive (Connection.run_unplanned hplan))] at hasked
        cases hasked
      refine ⟨c, rfl, hview, fun hname => ?_⟩
      obtain ⟨next, hrows, -⟩ := perform_rows_view hname hlive (Connection.planOf_columnsText hview)
      rw [hrows] at hasked
      cases hasked
      obtain ⟨columns, read, hread, hrest⟩ := of_perform_bind hcolumns
      rw [perform_mapM] at hread
      have hmapM := congrArg Prod.fst hread
      split at hrest
      · rename_i hempty
        rw [List.isEmpty_iff] at hempty
        subst hempty
        exact List.map_eq_nil_iff.1 (List.forall₂_nil_right_iff.1 (Engine.mapM_eq_ok_iff.1 hmapM))
      · obtain ⟨_, _, _, hrest⟩ := of_perform_bind hrest
        obtain ⟨_, _, _, hrest⟩ := of_perform_bind hrest
        obtain ⟨_, _, _, hrest⟩ := of_perform_bind hrest
        obtain ⟨_, _, _, hrest⟩ := of_perform_bind hrest
        cases hrest

/-! ## What is executed -/

/-- Statements without parameters that succeeded on a connection one after the other, and the connection after them. -/
inductive Executed : Connection → List String → Connection → Prop where
  | nil (c : Connection) : Executed c [] c
  | cons {c next after : Connection} {text : String} {rest : List String} {result : Result}
      (h : c.run text [] = (.ok result, next)) (hrest : Executed next rest after) : Executed c (text :: rest) after

/-- Texts that were all executed were handed over in their order. -/
theorem executed_of_execAll {texts : List String} {count : Nat} (hlive : db.live = .ok c)
    (h : perform (execAll texts) db = (.ok count, after)) : ∃ c', Executed c texts c' ∧ after.live = .ok c' ∧
      after.issued = db.issued ++ texts.map fun text => ⟨.exec, text, 0⟩ := by
  induction texts generalizing db c count with
  | nil =>
      cases h
      exact ⟨c, .nil c, hlive, (List.append_nil _).symm⟩
  | cons text rest ih =>
      obtain ⟨first, between, hfirst, hrest⟩ := of_perform_bind h
      obtain ⟨more, last, hmore, hlast⟩ := of_perform_bind hrest
      cases hlast
      obtain ⟨result, next, hrun, hbetween⟩ := of_perform_exec hlive hfirst
      have hnoted : between.issued = db.issued ++ [⟨.exec, text, 0⟩] := by
        have hissued : (perform (exec text []) db).2.issued = db.issued ++ [⟨.exec, text, 0⟩] := by
          rw [exec, perform_bind_snd fun _ _ => rfl]
          exact issued_run hlive
        rwa [hfirst] at hissued
      obtain ⟨c', hexecuted, hlast, hissued⟩ := ih hbetween hmore
      refine ⟨c', .cons hrun hexecuted, hlast, ?_⟩
      rw [hissued, hnoted]
      exact List.append_assoc ..

/-- A definition that was created is one that the store could take. -/
theorem creatable_of_perform_create {count : Nat} (hne : table.columns ≠ []) (hkey : table.primaryKey.Nodup)
    (hdistinct : ∀ i ∈ table.indexes, i.columns.Nodup) (hlive : db.live = .ok c)
    (h : perform (create table) db = (.ok count, after)) : Creatable c.store table ∧
      after.live = .ok { c with store := c.store.addTable (table.storedWith table.indexes.reverse) } := by
  obtain ⟨-, hfree, hnames, hapart, hwidth, hindexes, hafter⟩ := of_perform_create hne hkey hlive h
  refine ⟨?_, hafter⟩
  exact
    { columns := hne
      columnsApart := hapart
      key := hkey
      indexesApart := by
        refine Apart.cons.2 ⟨fun other hother => ?_, hindexes.apart⟩
        obtain ⟨i, hi, rfl⟩ := List.mem_map.1 hother
        exact (hindexes.beside i hi).1
      indexColumns := fun i hi => ⟨hindexes.columns i hi, hdistinct i hi⟩
      free := by
        refine List.forall_mem_cons.2 ⟨hfree, fun n hn => ?_⟩
        obtain ⟨i, hi, rfl⟩ := List.mem_map.1 hn
        exact hindexes.free i hi
      width := hwidth
      unbroken := by
        obtain ⟨htable, hcolumns⟩ := List.forall_mem_cons.1 hnames
        refine List.forall_mem_cons.2 ⟨htable, List.forall_mem_append.2 ⟨hcolumns, fun n hn => ?_⟩⟩
        obtain ⟨i, hi, rfl⟩ := List.mem_map.1 hn
        exact hindexes.unbroken i hi }

/-- Whether some table stands in front of a view of the catalog that the indexes of a definition are read back from. -/
inductive Covered (store : Store) (table : TableDefinition) : Prop where
  | list (h : (store.table? "pragma_index_list").isSome = true)
  | parts (hne : table.indexes ≠ []) (h : (store.table? "pragma_index_info").isSome = true)

/-- What is there after a table was created that introspection had not found: the table, and the views as they were. -/
theorem of_created {asked : Database} {count : Nat} (hne : table.columns ≠ []) (hkey : table.primaryKey.Nodup)
    (hdistinct : ∀ i ∈ table.indexes, i.columns.Nodup) (hlive : db.live = .ok c)
    (hasked : perform (introspect table.name) db = (.ok none, asked))
    (h : perform (create table) asked = (.ok count, after)) :
    Creatable c.store table ∧
      after.live = .ok { c with store := c.store.addTable (table.storedWith table.indexes.reverse) } ∧
      c.store.table? "pragma_table_info" = none ∧ ∀ view ∈ Store.viewColumns.map Prod.fst,
        (c.store.addTable (table.storedWith table.indexes.reverse)).table? view = c.store.table? view := by
  obtain ⟨c', hlive', hcolumnView, hcolumns⟩ := of_introspect_none (congrArg Prod.fst hasked)
  cases hlive.symm.trans hlive'
  have huntouched := untouched_of_introspect hasked
  obtain ⟨hcreatable, hafter⟩ := creatable_of_perform_create hne hkey hdistinct (huntouched.live.trans hlive) h
  have hname : Unbroken table.name := hcreatable.unbroken _ (List.mem_cons_self ..)
  have htable := (hcreatable.free _ (List.mem_cons_self ..)).table
  -- Were it called like a view, the catalog would have listed the columns of the view.
  have hcovers := Store.covers_of_columnRows (hcolumns hname) htable
  refine ⟨hcreatable, hafter, hcolumnView, fun view hview => ?_⟩
  obtain ⟨v, hv, rfl⟩ := List.mem_map.1 hview
  have hother : sameName table.name v.1 = false := Bool.eq_false_iff.2 (List.any_eq_false.1 hcovers v hv)
  cases hview : c.store.table? v.1 with
  | none => exact Store.table?_addTable_eq_none.2 ⟨hview, hother⟩
  | some t =>
      unfold Store.table? at hview ⊢
      rw [Store.addTable, List.find?_append, hview, Option.some_or]

/-- What introspection did not find, and was created, introspection finds. -/
theorem introspect_of_created {asked : Database} {count : Nat} (hne : table.columns ≠ [])
    (hkey : table.primaryKey.Nodup) (hdistinct : ∀ i ∈ table.indexes, i.columns.Nodup) (hlive : db.live = .ok c)
    (hviews : ¬ Covered c.store table) (hasked : perform (introspect table.name) db = (.ok none, asked))
    (h : perform (create table) asked = (.ok count, after)) :
    ∃ found, perform (introspect table.name) after = (.ok (some table), found) := by
  obtain ⟨hcreatable, hafter, hcolumnView, hstays⟩ := of_created hne hkey hdistinct hlive hasked h
  have hindexView : c.store.table? "pragma_index_list" = none := by
    by_contra hcovered
    exact hviews (.list (Option.ne_none_iff_isSome.1 hcovered))
  have hpartView : table.indexes ≠ [] → c.store.table? "pragma_index_info" = none := by
    intro hindexes
    by_contra hcovered
    exact hviews (.parts hindexes (Option.ne_none_iff_isSome.1 hcovered))
  obtain ⟨found, hfound, -⟩ := perform_introspect hcreatable hafter ((hstays _ (by decide)).trans hcolumnView)
    ((hstays _ (by decide)).trans hindexView) (fun hindexes => (hstays _ (by decide)).trans (hpartView hindexes)) rfl
  exact ⟨found, hfound⟩

/-! ## Decisions -/

theorem perform_ensure_failed {e : Error} {asked : Database} (h : type.definition registry = .ok table)
    (hasked : perform (introspect table.name) db = (.error e, asked)) :
    perform (ensure registry type) db = (.error e, asked) := by
  rw [ensure, definition, perform_liftM_bind h]
  exact perform_bind_error hasked

theorem perform_ensure_found {live : TableDefinition} {asked : Database} (h : type.definition registry = .ok table)
    (hasked : perform (introspect table.name) db = (.ok (some live), asked)) : perform (ensure registry type) db =
      (if live.agrees table then .ok false else .error (.schemaMismatch table.name), asked) := by
  rw [ensure, definition, perform_liftM_bind h, perform_bind hasked]
  dsimp only
  split <;> rfl

theorem perform_ensure_absent {asked : Database} (h : type.definition registry = .ok table)
    (hasked : perform (introspect table.name) db = (.ok none, asked)) :
    perform (ensure registry type) db = perform (create table >>= fun _ => pure true) asked := by
  rw [ensure, definition, perform_liftM_bind h, perform_bind hasked]

/-- What is sure of ensuring a table on a database, given what introspection tells of it. -/
structure Ensures (registry : Registry) (type : RecordType) (table : TableDefinition) (db : Database)
    (asked : Outcome (Option TableDefinition)) (answer : Outcome Bool) (after : Database) : Prop where
  /-- Nothing but queries is handed over unless introspection finds no table. -/
  looks : ∃ new, after.issued = db.issued ++ new ∧ ((∃ i ∈ new, i.purpose ≠ .query) → asked = .ok none)
  /-- A table that was created is the work of its statements, the indexes in the order of their names. -/
  created : answer = .ok true → asked = .ok none ∧ table.indexes.Pairwise (fun i j => i.name ≤ j.name) ∧
    ∃ c c' queries, db.live = .ok c ∧ (∀ q ∈ queries, q.purpose = .query) ∧
      after.issued = db.issued ++ queries ++ (table.createText :: table.indexTexts).map (fun text => ⟨.exec, text, 0⟩) ∧
      Executed c (table.createText :: table.indexTexts) c' ∧ after.live = .ok c'
  /-- A table that is there is not reported absent. -/
  notices : ∀ c t, db.live = .ok c → c.store.table? table.name = some t → t.columns ≠ [] → Unbroken table.name →
    asked ≠ .ok none
  /-- A table that was found is compared up to the order of its key, and left alone. -/
  compares : ∀ live, asked = .ok (some live) → db.Untouched after ∧
    (answer = .ok false ↔ live.name = table.name ∧ live.columns = table.columns ∧ live.indexes = table.indexes ∧
      live.primaryKey.Perm table.primaryKey) ∧
    (answer = .ok false ∨ answer = .error (.schemaMismatch table.name))
  fails : ∀ e, asked = .error e → answer = .error e ∧ db.Untouched after
  /-- Ensured once, the table is found, if the views of the catalog can be asked that have to be. -/
  again : table.columns ≠ [] → table.primaryKey.Nodup → (∀ i ∈ table.indexes, i.columns.Nodup) →
    (∀ c, db.live = .ok c → ¬ Covered c.store table) → ∀ b, answer = .ok b →
      (perform (ensure registry type) after).1 = .ok false

/-- Introspection hands over queries. -/
theorem issued_of_introspect {name : String} {answer : Outcome (Option TableDefinition)} {asked : Database}
    (h : perform (introspect name) db = (answer, asked)) :
    ∃ queries, asked.issued = db.issued ++ queries ∧ ∀ q ∈ queries, q.purpose = .query := by
  obtain ⟨queries, hissued, hqueries⟩ := ((Scripted.introspect name).reaches db).issued
  rw [h] at hissued
  exact ⟨queries, hissued, fun q hq => (hqueries q hq).1⟩

/-- A table that is there is not reported absent. -/
theorem introspect_ne_none {name : String} {t : Engine.Table} (hlive : db.live = .ok c)
    (ht : c.store.table? name = some t) (hne : t.columns ≠ []) (hname : Unbroken name) :
    (perform (introspect name) db).1 ≠ .ok none := by
  intro hnone
  obtain ⟨c', hlive', -, hcolumns⟩ := of_introspect_none hnone
  cases hlive.symm.trans hlive'
  exact hne (Store.columns_of_columnRows (hcolumns hname) ht)

/-- Without an answer from the catalog, nothing is done. -/
theorem ensures_failed {e : Error} {asked : Database}
    (hasked : perform (introspect table.name) db = (.error e, asked)) :
    Ensures registry type table db (.error e) (.error e) asked where
  looks := by
    obtain ⟨queries, hissued, hqueries⟩ := issued_of_introspect hasked
    refine ⟨queries, hissued, ?_⟩
    rintro ⟨q, hq, hno⟩
    exact absurd (hqueries q hq) hno
  created := fun heq => by cases heq
  notices := fun _ _ _ _ _ _ heq => by cases heq
  compares := fun _ heq => by cases heq
  fails := fun _ heq => by
    cases heq
    exact ⟨rfl, untouched_of_introspect hasked⟩
  again := fun _ _ _ _ _ heq => by cases heq

/-- A table that was found is compared. -/
theorem ensures_found {live : TableDefinition} {asked : Database} (h : type.definition registry = .ok table)
    (hasked : perform (introspect table.name) db = (.ok (some live), asked)) :
    Ensures registry type table db (.ok (some live))
      (if live.agrees table then .ok false else .error (.schemaMismatch table.name)) asked := by
  have huntouched := untouched_of_introspect hasked
  -- A database that was only asked gives the same answer again.
  have hagain : (perform (ensure registry type) asked).1 = (perform (ensure registry type) db).1 := by
    refine ((Scripted.ensure registry type).alike ?_).1
    rw [Database.seen, huntouched.live, Database.seen]
  rw [perform_ensure_found h hasked] at hagain
  refine
    { looks := ?_
      created := fun heq => ?_
      notices := fun _ _ _ _ _ _ heq => by cases heq
      compares := fun _ heq => ?_
      fails := fun _ heq => by cases heq
      again := fun _ _ _ _ b heq => ?_ }
  · obtain ⟨queries, hissued, hqueries⟩ := issued_of_introspect hasked
    refine ⟨queries, hissued, ?_⟩
    rintro ⟨q, hq, hno⟩
    exact absurd (hqueries q hq) hno
  · split at heq <;> cases heq
  · cases heq
    rw [← TableDefinition.agrees_iff]
    refine ⟨huntouched, ?_⟩
    split
    · exact ⟨iff_of_true rfl ‹_›, .inl rfl⟩
    · exact ⟨iff_of_false (fun hno => by cases hno) ‹_›, .inr rfl⟩
  · rw [hagain]
    split at heq
    · exact if_pos ‹_›
    · cases heq

/-- A table that was not found and could not be created. -/
theorem ensures_refused {e : Error} {asked after : Database}
    (hasked : perform (introspect table.name) db = (.ok none, asked))
    (hcreate : perform (create table) asked = (.error e, after)) :
    Ensures registry type table db (.ok none) (.error e) after where
  looks := by
    obtain ⟨queries, hissued, -⟩ := issued_of_introspect hasked
    obtain ⟨more, hmore, -⟩ := ((Scripted.create table).reaches asked).issued
    rw [hcreate, hissued, List.append_assoc] at hmore
    exact ⟨queries ++ more, hmore, fun _ => rfl⟩
  created := fun heq => by cases heq
  notices := fun _ _ hlive ht hne hname _ => introspect_ne_none hlive ht hne hname (congrArg Prod.fst hasked)
  compares := fun _ heq => by cases heq
  fails := fun _ heq => by cases heq
  again := fun _ _ _ _ _ heq => by cases heq

/-- A table that was not found and was created. -/
theorem ensures_created {count : Nat} {asked after : Database} (h : type.definition registry = .ok table)
    (hasked : perform (introspect table.name) db = (.ok none, asked))
    (hcreate : perform (create table) asked = (.ok count, after)) :
    Ensures registry type table db (.ok none) (.ok true) after := by
  obtain ⟨queries, hissued, hqueries⟩ := issued_of_introspect hasked
  obtain ⟨c, hlive, -, -⟩ := of_introspect_none (congrArg Prod.fst hasked)
  obtain ⟨c', hexecuted, hafter, hstatements⟩ :=
    executed_of_execAll ((untouched_of_introspect hasked).live.trans hlive) hcreate
  rw [hissued] at hstatements
  exact
    { looks := ⟨_, hstatements.trans (List.append_assoc ..), fun _ => rfl⟩
      created := fun _ =>
        ⟨rfl, table.indexes_ascending, c, c', queries, hlive, hqueries, hstatements, hexecuted, hafter⟩
      notices := fun _ _ hlive ht hne hname _ => introspect_ne_none hlive ht hne hname (congrArg Prod.fst hasked)
      compares := fun _ heq => by cases heq
      fails := fun _ heq => by cases heq
      again := fun hne hkey hdistinct hviews _ _ => by
        obtain ⟨found, hfound⟩ := introspect_of_created hne hkey hdistinct hlive (hviews c hlive) hasked hcreate
        rw [perform_ensure_found h hfound, table.agrees_self, if_pos rfl] }

/-- Ensuring decides by what introspection tells, and changes nothing that is there. -/
theorem ensure_decides (h : type.definition registry = .ok table) (db : Database) :
    Ensures registry type table db (perform (introspect table.name) db).1 (perform (ensure registry type) db).1
      (perform (ensure registry type) db).2 := by
  rcases hasked : perform (introspect table.name) db with ⟨e | _ | live, asked⟩
  · rw [perform_ensure_failed h hasked]
    exact ensures_failed hasked
  · rw [perform_ensure_absent h hasked]
    rcases hcreate : perform (create table) asked with ⟨e | count, after⟩
    · rw [perform_bind_error hcreate]
      exact ensures_refused hasked hcreate
    · rw [perform_bind hcreate, perform_pure]
      exact ensures_created h hasked hcreate
  · rw [perform_ensure_found h hasked]
    exact ensures_found h hasked

/-- The table of tasks is created once, with its index, and found again. -/
theorem ensure_decides_task : ∃ created c',
    perform (ensure .empty (Gallery.task "gallery")) (.ofLocation .memory {}) = (.ok true, created) ∧
      Executed (.ofStore .empty false true) (taskTable.createText :: taskTable.indexTexts) c' ∧ created.live = .ok c' ∧
      (perform (ensure .empty (Gallery.task "gallery")) created).1 = .ok false := by
  obtain ⟨created, hensure⟩ := ensure_task
  have hdecides := ensure_decides hasKey_task.definition (.ofLocation .memory {})
  rw [hensure] at hdecides
  have hempty : ∀ c, (Database.ofLocation .memory {}).live = .ok c → c = .ofStore .empty false true := by
    intro c hlive
    cases hlive
    rfl
  obtain ⟨-, -, c, c', queries, hlive, -, -, hexecuted, hafter⟩ := hdecides.created rfl
  rw [hempty c hlive] at hexecuted
  refine ⟨created, c', hensure, hexecuted, hafter, ?_⟩
  refine hdecides.again (by decide) (by decide) (by decide) (fun c hlive hcovered => ?_) true rfl
  rw [hempty c hlive] at hcovered
  cases hcovered with
  | list h => cases h
  | parts _ h => cases h

/-! ## A table in front of a view -/

/-- A view behind a table cannot be asked. -/
theorem perform_rows_covered {text view : String} {asked : List Engine.ResultColumn} {argument : Engine.Expr}
    {needed : Nat} (htext : Engine.Statement.ofText text =
      .ok (.select ⟨asked, .catalog view argument, none, [], none, none⟩, needed)) (hlive : db.live = .ok c)
    (htable : (c.store.table? view).isSome = true) (params : List Value) :
    ∃ e found, perform (rows text params) db = (.error e, found) :=
  ⟨_, _, perform_bind_error (perform_run_error hlive
    (Connection.run_unplanned (Connection.planOf_covered htext htable (params.map Value.bound))))⟩

/-- A table that was created is not read back if a view that it takes is covered. -/
theorem introspect_fails_of_covered {store : Store} (h : Creatable store table) (hlive : db.live = .ok c)
    (hcolumnView : c.store.table? "pragma_table_info" = none)
    (hstore : c.store = store.addTable (table.storedWith table.indexes.reverse)) (hcovered : Covered c.store table) :
    ∃ e found, perform (introspect table.name) db = (.error e, found) := by
  obtain ⟨first, hfirstLive, hfirst⟩ := perform_introspect_columns h hlive hcolumnView hstore
  rcases hlist : c.store.table? "pragma_index_list" with _ | t
  · obtain ⟨second, hsecondLive, hsecond⟩ := perform_introspect_indexes h hlive hcolumnView hlist hstore
    cases hcovered with
    | list h => rw [hlist] at h; cases h
    | parts hne hinfo =>
        obtain ⟨i, rest, hindexes⟩ := List.exists_cons_of_ne_nil (List.reverse_ne_nil_iff.2 hne)
        obtain ⟨e, found, hrows⟩ := perform_rows_covered Connection.ofText_partsText hsecondLive hinfo [.text i.name]
        refine ⟨e, found, ?_⟩
        rw [hsecond, hindexes, List.map_cons, indexParts]
        exact perform_bind_error (perform_bind_error hrows)
  · obtain ⟨e, found, hrows⟩ := perform_rows_covered Connection.ofText_indexesText hfirstLive
      (Option.isSome_iff_exists.2 ⟨t, hlist⟩) [.text table.name]
    refine ⟨e, found, ?_⟩
    rw [hfirst]
    exact perform_bind_error hrows

/-- What was created had not been found. -/
theorem absent_of_ensure {created : Database} (h : type.definition registry = .ok table)
    (hensure : perform (ensure registry type) db = (.ok true, created)) :
    ∃ asked, perform (introspect table.name) db = (.ok none, asked) := by
  rcases hasked : perform (introspect table.name) db with ⟨e | _ | live, asked⟩
  · rw [perform_ensure_failed h hasked] at hensure
    cases hensure
  · exact ⟨asked, rfl⟩
  · rw [perform_ensure_found h hasked] at hensure
    split at hensure <;> cases hensure

/-- Behind such a table, what was ensured cannot be ensured again. -/
theorem ensure_fails_again_of_covered {created : Database} (h : type.definition registry = .ok table)
    (hne : table.columns ≠ []) (hkey : table.primaryKey.Nodup) (hdistinct : ∀ i ∈ table.indexes, i.columns.Nodup)
    (hlive : db.live = .ok c) (hcovered : Covered c.store table)
    (hensure : perform (ensure registry type) db = (.ok true, created)) :
    (perform (ensure registry type) created).1.isOk = false := by
  obtain ⟨asked, hasked⟩ := absent_of_ensure h hensure
  rw [perform_ensure_absent h hasked] at hensure
  obtain ⟨count, between, hcreate, hlast⟩ := of_perform_bind hensure
  cases hlast
  obtain ⟨hcreatable, hafter, hcolumnView, hstays⟩ := of_created hne hkey hdistinct hlive hasked hcreate
  have hstill : Covered (c.store.addTable (table.storedWith table.indexes.reverse)) table := by
    cases hcovered with
    | list h => exact .list (by rwa [hstays _ (by decide)])
    | parts hindexes h => exact .parts hindexes (by rwa [hstays _ (by decide)])
  obtain ⟨e, found, hfails⟩ :=
    introspect_fails_of_covered hcreatable hafter ((hstays _ (by decide)).trans hcolumnView) rfl hstill
  rw [perform_ensure_failed h hfails]
  rfl

/-- A database in memory with a table in front of the view that lists indexes. -/
def coveredDatabase : Database :=
  (perform (exec "CREATE TABLE pragma_index_list (v INTEGER)" []) (.ofLocation .memory {})).2

theorem covered_coveredDatabase : ∃ c, coveredDatabase.live = .ok c ∧ ∀ table, Covered c.store table := by
  have hcovered : (coveredDatabase.live.toOption.any fun c => (c.store.table? "pragma_index_list").isSome) = true := by
    decide +kernel
  cases hlive : coveredDatabase.live with
  | error f => rw [hlive] at hcovered; cases hcovered
  | ok c =>
      rw [hlive] at hcovered
      exact ⟨c, rfl, fun _ => .list hcovered⟩

deriving instance DecidableEq for TableDefinition

theorem definition_keyless : (Gallery.keyless "gallery").definition .empty = .ok (oneColumn "Keyless" "value") := by
  decide +kernel

/-- There, a table with a single column is created, and not found again. -/
theorem not_ensure_again : (Gallery.keyless "gallery").definition .empty = .ok (oneColumn "Keyless" "value") ∧
    (oneColumn "Keyless" "value").columns ≠ [] ∧ (oneColumn "Keyless" "value").primaryKey.Nodup ∧
    Apart (oneColumn "Keyless" "value").columnNames ∧ (oneColumn "Keyless" "value").indexes = [] ∧
    ∃ created, perform (ensure .empty (Gallery.keyless "gallery")) coveredDatabase = (.ok true, created) ∧
      (perform (ensure .empty (Gallery.keyless "gallery")) created).1.isOk = false := by
  obtain ⟨c, hlive, hcovered⟩ := covered_coveredDatabase
  have hcreated : (perform (ensure .empty (Gallery.keyless "gallery")) coveredDatabase).1.toOption = some true := by
    rw [ensure, definition, perform_liftM_bind definition_keyless]
    decide +kernel
  refine ⟨definition_keyless, by decide, .nil, by decide +kernel, rfl, ?_⟩
  rcases hensure : perform (ensure .empty (Gallery.keyless "gallery")) coveredDatabase with ⟨_ | created, after⟩
  · rw [hensure] at hcreated
    cases hcreated
  · rw [hensure] at hcreated
    obtain rfl : created = true := Option.some.inj hcreated
    exact ⟨after, rfl, ensure_fails_again_of_covered definition_keyless (by decide) .nil (List.forall_mem_nil _) hlive
      (hcovered _) hensure⟩

end Session

end RecordTables
