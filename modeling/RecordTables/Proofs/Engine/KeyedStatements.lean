import RecordTables.Proofs.Engine.KeyConditions
import RecordTables.Proofs.Engine.NamedParameters

/-!
# Statements on a keyed table

What becomes of a keyed table when a row is inserted, when the row of a key is updated or deleted, and what a selection of
all rows finds in it.
-/

namespace RecordTables

open Engine (NumberedRow Failure Scope Expr Connection Store keyCondition namedParameters filterM_ok)
open Engine.Store (maxColumns)
open Engine.Reading (maxHeight maxParameter)
open Sql (Unbroken)

/-! ## Plans -/

/-- A keyed table that statements can be written for: its name is taken by no other table, no name breaks off, and the
condition on its key is not too high. -/
structure TableDefinition.Served (store : Store) (table : TableDefinition) : Prop extends table.Keyed where
  free : store.table? table.name = none
  unbroken : ∀ n ∈ table.name :: table.columnNames, Unbroken n
  low : table.primaryKey.length < maxHeight

/-- A connection that writes, in whose store a keyed table holds rows. -/
structure Engine.Connection.Serves (c : Connection) (store : Store) (table : TableDefinition) (rows : List NumberedRow) :
    Prop where
  writes : c.readOnly = false
  store : c.store = store.addTable (table.holding rows)
  rows : table.Holds rows

namespace Engine

theorem resolveList_parameters (columns : List String) (numbers : List Nat) :
    resolveList columns (numbers.map Expr.parameter) = .ok (numbers.map Expr.parameter) := by
  induction numbers with
  | nil => rfl
  | cons n rest ih =>
      rw [List.map_cons, resolveList, ih]
      rfl

namespace Connection

variable {store : Store} {c : Connection} {table : TableDefinition} {rows : List NumberedRow} {row : Row}
  {parameters : List StoredValue}

theorem tableNamed_addTable (h : store.table? table.name = none) (rows : List NumberedRow) :
    (store.addTable (table.holding rows)).tableNamed table.name = .ok (table.holding rows) := by
  have hfound : (store.addTable (table.holding rows)).table? table.name = some (table.holding rows) := by
    rw [Store.table?_addTable h]
    exact if_pos (sameName_self _)
  rw [Store.tableNamed, hfound]

theorem planOf_insert (h : table.Served store) (hserves : c.Serves store table rows)
    (hnames : ∀ n, n ∈ row.names ↔ n ∈ table.columnNames) (hcount : parameters.length = row.size) :
    c.planOf (Sql.Statement.insert table.name row).text parameters =
      .ok (.change (.insert table.name [table.columnNames.map fun n => .parameter (row.names.idxOf n + 1)])) := by
  have hunbroken := List.forall_mem_cons.1 h.unbroken
  have hsize : row.names.length = row.size := List.length_map _
  have hwidth : row.size ≤ maxParameter := by
    have hle := (Store.length_le_of_known (fun n hn => (hnames n).1 hn) row.distinct).trans h.width
    have hmax : maxColumns ≤ maxParameter := by decide
    rw [← hsize]
    exact hle.trans hmax
  have hne : row.names ≠ [] := by
    obtain ⟨k, hk⟩ := List.exists_mem_of_ne_nil _ h.keyed
    exact List.ne_nil_of_mem ((hnames k).2 (table.key_known k hk))
  have htext := ofText_insert hne hwidth hunbroken.1 fun n hn => hunbroken.2 n ((hnames n).1 hn)
  have hpositions : Store.positionsOf (table.holding rows) table.name row.names = .ok (row.names.map table.place) :=
    Store.positionsOf_of_columns (table.columnNames_holding rows) h.columnsApart fun n hn => (hnames n).1 hn
  have hparameters : (List.range' 1 row.size).map Expr.parameter = (namedParameters row.names).map Prod.snd := by
    rw [← hsize]
    exact namedParameters_eq_range row.distinct
  have hspread := table.spread_named (fun n hn => (hnames n).1 hn) fun n hn => (hnames n).2 hn
  have hchange : c.store.planChange (.insert ⟨table.name, some row.names, [(List.range' 1 row.size).map .parameter]⟩) =
      .ok (.insert table.name [table.columnNames.map fun n => .parameter (row.names.idxOf n + 1)]) := by
    have hrow : [(List.range' 1 row.size).map Expr.parameter].mapM (resolveList []) =
        .ok [(namedParameters row.names).map Prod.snd] := by
      rw [List.mapM_cons, resolveList_parameters, hparameters]
      rfl
    have hlength : ((namedParameters row.names).map Prod.snd).length = (row.names.map table.place).length := by
      simp [namedParameters]
    have hcolumns : (table.holding rows).columns.length = table.columns.length := List.length_map _
    rw [hserves.store, Store.planChange, Store.planInsertion]
    simp only [tableNamed_addTable h.free, Store.insertPositions, hpositions, hrow, bind, Except.bind, List.any_nil,
      hlength, Bool.false_eq_true, if_false, if_true, List.map_cons, List.map_nil, hcolumns, hspread]
    rfl
  simp only [planOf, htext, bind, Except.bind, Store.plan, hchange, hcount, if_true]
  rfl

/-! ## Runs -/

/-- The rows that a statement changed itself: its count means something only if the total has moved. -/
def changed (c after : Connection) : Nat := if after.totalChanges = c.totalChanges then 0 else after.changes

variable {text : String} {change : PlannedChange}

theorem run_change {p : Progress} (hwrites : c.readOnly = false) (hplan : c.planOf text parameters = .ok (.change change))
    (hrun : Progress.run parameters.toArray Progress.fire ⟨c.store, 0, 0⟩ change = .ok p) :
    c.run text parameters = (.ok .empty,
      { c with
        store := p.store
        changes := p.direct
        totalChanges := c.totalChanges + p.direct + p.triggered }) := by
  simp only [run, hplan, Store.interrupted, Except.mapError, bind, Except.bind, execute, writing, hwrites,
    Bool.false_eq_true, if_false, hrun, pure, Except.pure]

/-- A change that fails before it has changed anything leaves the connection as it is. -/
theorem run_change_error {f : Failure} (hwrites : c.readOnly = false)
    (hplan : c.planOf text parameters = .ok (.change change))
    (hrun : Progress.run parameters.toArray Progress.fire ⟨c.store, 0, 0⟩ change = .error ⟨f, c.store⟩) :
    c.run text parameters = (.error f, c) := by
  have hwriting : c.writing = .ok () := by rw [writing, hwrites]; rfl
  simp only [run, hplan, Store.interrupted, Except.mapError, bind, Except.bind, execute, hwriting, hrun]
  split <;> rfl

theorem setTable_holding (h : store.table? table.name = none) (rows rows' : List NumberedRow) :
    (store.addTable (table.holding rows)).setTable (table.holding rows') = store.addTable (table.holding rows') :=
  Store.setTable_addTable h rfl

/-- A change that is carried out on the rows of a table leaves a connection that serves the rows after it. -/
theorem run_serves {rows' : List NumberedRow} {count : Nat} (hserves : c.Serves store table rows)
    (hplan : c.planOf text parameters = .ok (.change change)) (hholds : table.Holds rows')
    (hrun : Progress.run parameters.toArray Progress.fire ⟨store.addTable (table.holding rows), 0, 0⟩ change =
      .ok ⟨store.addTable (table.holding rows'), count, 0⟩) :
    ∃ after, c.run text parameters = (.ok .empty, after) ∧ after.Serves store table rows' ∧ c.changed after = count := by
  rw [← hserves.store] at hrun
  refine ⟨_, run_change hserves.writes hplan hrun, ⟨hserves.writes, rfl, hholds⟩, ?_⟩
  unfold changed
  split
  · rename_i hsame
    change c.totalChanges + count + 0 = c.totalChanges at hsame
    omega
  · rfl

/-- A row with a new key is inserted. -/
theorem run_insert_of_absent {values : List StoredValue} (h : table.Served store) (hserves : c.Serves store table rows)
    (hnames : ∀ n, n ∈ row.names ↔ n ∈ table.columnNames) (hv : table.Keeps values)
    (hparameters : parameters = row.names.map (table.valueAt values)) (hroom : rows.length < 2 ^ 64)
    (habsent : ∀ r ∈ rows, table.keyValues r.values ≠ table.keyValues values) :
    ∃ after rows', c.run (Sql.Statement.insert table.name row).text parameters = (.ok .empty, after) ∧
      after.Serves store table rows' ∧ c.changed after = 1 ∧
      (rows'.map NumberedRow.values).Perm (values :: rows.map NumberedRow.values) := by
  have hcount : parameters.length = row.size := by rw [hparameters, List.length_map]; exact List.length_map _
  have hplan := planOf_insert h hserves hnames hcount
  have hvalues := TableDefinition.evaluate_named (fun n hn => (hnames n).2 hn) hv.length hparameters
  obtain ⟨new, rows', hinsert, hholds, hperm⟩ := TableDefinition.insert_of_absent h.toKeyed hserves.rows hroom hv habsent
  have hrun : Progress.run parameters.toArray Progress.fire ⟨store.addTable (table.holding rows), 0, 0⟩
      (.insert table.name [table.columnNames.map fun n => .parameter (row.names.idxOf n + 1)]) =
        .ok ⟨store.addTable (table.holding rows'), 1, 0⟩ := by
    rw [← setTable_holding h.free rows rows']
    simp only [Progress.run, Progress.insertRows, tableNamed_addTable h.free, hvalues, hinsert, Store.interrupted,
      Except.mapError, bind, Except.bind]
    rfl
  obtain ⟨after, hafter, hserves', hcount⟩ := run_serves hserves hplan hholds hrun
  exact ⟨after, rows', hafter, hserves', hcount, hperm⟩

/-- A row with the key of another one is refused, and nothing changes. -/
theorem run_insert_of_present {values : List StoredValue} (h : table.Served store) (hserves : c.Serves store table rows)
    (hnames : ∀ n, n ∈ row.names ↔ n ∈ table.columnNames) (hv : table.Keeps values)
    (hparameters : parameters = row.names.map (table.valueAt values))
    (hpresent : ∃ r ∈ rows, table.keyValues r.values = table.keyValues values) :
    ∃ f, c.run (Sql.Statement.insert table.name row).text parameters = (.error f, c) := by
  have hcount : parameters.length = row.size := by rw [hparameters, List.length_map]; exact List.length_map _
  have hplan := planOf_insert h hserves hnames hcount
  have hvalues := TableDefinition.evaluate_named (fun n hn => (hnames n).2 hn) hv.length hparameters
  obtain ⟨f, hinsert⟩ := TableDefinition.insert_of_present h.toKeyed hserves.rows hv hpresent
  refine ⟨f, run_change_error hserves.writes hplan ?_⟩
  rw [hserves.store]
  simp only [Progress.run, Progress.insertRows, tableNamed_addTable h.free, hvalues, hinsert, Store.interrupted,
    Except.mapError, bind, Except.bind]

/-! ## Rows found by their key -/

/-- The columns of the key with their places. -/
def keyPlaces (table : TableDefinition) : List (String × Nat) := table.primaryKey.map fun n => (n, table.place n)

theorem findIdx?_keyPlaces (hkeyed : table.Keyed) :
    ∀ p ∈ keyPlaces table, table.columnNames.findIdx? (sameName · p.1) = some p.2 := by
  intro p hp
  obtain ⟨n, hn, rfl⟩ := List.mem_map.1 hp
  exact hkeyed.columnsApart.findIdx? (table.key_known n hn)

theorem map_fst_keyPlaces : (keyPlaces table).map Prod.fst = table.primaryKey := by
  rw [keyPlaces, List.map_map]
  exact List.map_id _

theorem map_snd_keyPlaces : (keyPlaces table).map Prod.snd = table.primaryKey.map table.place := by
  rw [keyPlaces, List.map_map]
  rfl

theorem keyPlaces_ne_nil (hkeyed : table.Keyed) : keyPlaces table ≠ [] := by
  rw [keyPlaces, ne_eq, List.map_eq_nil_iff]
  exact hkeyed.keyed

theorem length_keyPlaces (hkeyed : table.Keyed) : (keyPlaces table).length ≤ maxColumns := by
  rw [keyPlaces, List.length_map]
  exact (Store.length_le_of_known table.key_known hkeyed.distinct).trans hkeyed.width

/-- An assignment of parameters names columns by their places. -/
theorem planAssignments_parameters (hapart : Apart table.columnNames) {names : List String}
    (hknown : ∀ n ∈ names, n ∈ table.columnNames) (number : String → Nat) :
    Store.planAssignments (table.holding rows) (names.map fun n => (n, .parameter (number n))) =
      .ok (table.placed (names.map fun n => (n, .parameter (number n)))) := by
  induction names with
  | nil => rfl
  | cons n rest ih =>
      rw [List.forall_mem_cons] at hknown
      have hposition : (table.holding rows).position? n = some (table.place n) :=
        Store.position?_of_columns (table.columnNames_holding rows) hapart hknown.1
      rw [List.map_cons, Store.planAssignments, hposition, ih hknown.2]
      rfl

theorem planOf_update {filter : Sql.Predicate} {s : Sql.Statement} (h : table.Served store)
    (hserves : c.Serves store table rows) (hs : Sql.Statement.update? table.name row (some filter) = some s)
    (htokens : filter.tokens = keyTokens table.primaryKey) (hcolumns : filter.columns = table.primaryKey)
    (hknown : ∀ n ∈ row.names, n ∈ table.columnNames)
    (hcount : parameters.length = row.size + table.primaryKey.length) :
    c.planOf s.text parameters = .ok (.change (.update table.name (table.placed (namedParameters row.names))
      (some (keyCondition row.size (table.primaryKey.map table.place))))) := by
  have hunbroken := List.forall_mem_cons.1 h.unbroken
  have hsize : row.names.length = row.size := List.length_map _
  have hwidth : row.size ≤ maxColumns := by
    rw [← hsize]
    exact (Store.length_le_of_known hknown row.distinct).trans h.width
  have hkeyLength : (keyPlaces table).length = table.primaryKey.length := List.length_map _
  have hroom : row.size + (keyPlaces table).length ≤ maxParameter := by
    have hle := length_keyPlaces h.toKeyed
    have hmax : maxColumns + maxColumns ≤ maxParameter := by decide
    omega
  obtain ⟨e, htext, hmeans⟩ := ofText_update hs (keyPlaces_ne_nil h.toKeyed) (by rw [htokens, map_fst_keyPlaces])
    (findIdx?_keyPlaces h.toKeyed) (by rw [hkeyLength]; exact h.low) hroom hunbroken.1
    (fun n hn => hunbroken.2 n (hknown n hn)) fun n hn => hunbroken.2 n (table.key_known n (hcolumns ▸ hn))
  rw [map_snd_keyPlaces] at hmeans
  have hassignments : Store.planAssignments (table.holding rows) (namedParameters row.names) =
      .ok (table.placed (namedParameters row.names)) :=
    planAssignments_parameters h.columnsApart hknown fun n => row.names.idxOf n + 1
  have hgiven : parameterAssignments 0 row.names = namedParameters row.names :=
    namedParameters_eq_assignments row.distinct
  have hnarrow : ¬ maxColumns < (namedParameters row.names).length := by
    rw [namedParameters, List.length_map]
    omega
  have hchange : c.store.planChange (.update ⟨table.name, parameterAssignments 0 row.names, some e⟩) =
      .ok (.update table.name (table.placed (namedParameters row.names))
        (some (keyCondition row.size (table.primaryKey.map table.place)))) := by
    rw [hgiven, hserves.store, Store.planChange]
    simp only [hnarrow, if_false, tableNamed_addTable h.free, bind, Except.bind, pure, Except.pure, hassignments,
      resolveFilter, table.columnNames_holding, hmeans]
    rfl
  simp only [planOf, htext, bind, Except.bind, Store.plan, hchange, hcount, hkeyLength, if_true]
  rfl

theorem planOf_delete {filter : Sql.Predicate} (h : table.Served store) (hserves : c.Serves store table rows)
    (htokens : filter.tokens = keyTokens table.primaryKey) (hcolumns : filter.columns = table.primaryKey)
    (hcount : parameters.length = table.primaryKey.length) :
    c.planOf (Sql.Statement.delete table.name (some filter)).text parameters =
      .ok (.change (.delete table.name (some (keyCondition 0 (table.primaryKey.map table.place))))) := by
  have hunbroken := List.forall_mem_cons.1 h.unbroken
  have hkeyLength : (keyPlaces table).length = table.primaryKey.length := List.length_map _
  have hroom : (keyPlaces table).length ≤ maxParameter := by
    have hle := length_keyPlaces h.toKeyed
    have hmax : maxColumns ≤ maxParameter := by decide
    omega
  obtain ⟨e, htext, hmeans⟩ := ofText_delete (keyPlaces_ne_nil h.toKeyed) (by rw [htokens, map_fst_keyPlaces])
    (findIdx?_keyPlaces h.toKeyed) (by rw [hkeyLength]; exact h.low) hroom hunbroken.1
    fun n hn => hunbroken.2 n (table.key_known n (hcolumns ▸ hn))
  rw [map_snd_keyPlaces] at hmeans
  have hchange : c.store.planChange (.delete ⟨table.name, some e⟩) =
      .ok (.delete table.name (some (keyCondition 0 (table.primaryKey.map table.place)))) := by
    rw [hserves.store, Store.planChange]
    simp only [tableNamed_addTable h.free, bind, Except.bind, pure, Except.pure, resolveFilter,
      table.columnNames_holding, hmeans]
    rfl
  simp only [planOf, htext, bind, Except.bind, Store.plan, hchange, hcount, hkeyLength, if_true]
  rfl

/-- The rows that have the key of given values. -/
def sameKey (table : TableDefinition) (values : List StoredValue) (rows : List NumberedRow) : List NumberedRow :=
  rows.filter fun r => decide (table.keyValues r.values = table.keyValues values)

variable {values : List StoredValue} {old : NumberedRow}

theorem sameKey_of_mem (h : table.Holds rows) (hold : old ∈ rows)
    (hsame : table.keyValues old.values = table.keyValues values) : sameKey table values rows = [old] := by
  apply List.perm_singleton.1
  rw [sameKey, List.perm_ext_iff_of_nodup ((h.nodup_numbers.of_map _).filter _) (List.nodup_singleton _)]
  intro r
  rw [List.mem_filter, List.mem_singleton, decide_eq_true_eq]
  constructor
  · rintro ⟨hr, hkey⟩
    exact h.eq_of_key hr hold (hkey.trans hsame.symm)
  · rintro rfl
    exact ⟨hold, hsame⟩

theorem sameKey_of_absent (habsent : ∀ r ∈ rows, table.keyValues r.values ≠ table.keyValues values) :
    sameKey table values rows = [] := by
  rw [sameKey, List.filter_eq_nil_iff]
  simpa using habsent

/-- At most one row has a key. -/
theorem length_sameKey (h : table.Holds rows) : (sameKey table values rows).length ≤ 1 := by
  by_cases hpresent : ∃ r ∈ rows, table.keyValues r.values = table.keyValues values
  · obtain ⟨r, hr, hsame⟩ := hpresent
    rw [sameKey_of_mem h hr hsame]
    exact Nat.le_refl _
  · push Not at hpresent
    rw [sameKey_of_absent hpresent]
    exact Nat.zero_le _

/-- The condition on the key finds the rows that have it. -/
theorem filterRows_key (hkeyed : table.Keyed) (h : table.Holds rows) (hv : table.Keeps values)
    {before parameters : List StoredValue} (hparameters : parameters = before ++ table.keyValues values) :
    (table.holding rows).filterRows parameters.toArray
      (some (keyCondition before.length (table.primaryKey.map table.place))) = .ok (sameKey table values rows) :=
  filterM_ok fun r hr => TableDefinition.isTrue_keyCondition hkeyed (h.fits r hr).keeps hv hparameters

/-- A single row is changed in whatever order rows are met. -/
theorem updatedRows_of_few {t : Table} {parameters : Array StoredValue} (assignments : List (Nat × Expr))
    {filter : Option Expr} {found : List NumberedRow} (hfound : t.filterRows parameters filter = .ok found)
    (hfew : found.length ≤ 1) : updatedRows t parameters assignments filter = .ok found := by
  have hsorted : ∀ index : TableIndex, found.mergeSort (Walk.entryLe index) = found := by
    intro index
    apply List.mergeSort_of_pairwise
    rcases found with _ | ⟨r, _ | ⟨s, rest⟩⟩
    · exact .nil
    · exact List.pairwise_singleton ..
    · simp at hfew
  have hreverse : found.reverse = found := by
    rcases found with _ | ⟨r, _ | ⟨s, rest⟩⟩
    · rfl
    · rfl
    · simp at hfew
  unfold updatedRows
  simp only [hfound, bind, Except.bind]
  split
  · rename_i index backward hwalk
    rw [hwalk, Walk.arrange, hsorted, hreverse, ite_self]
    exact ite_self _
  · simp only [Bool.false_and, Bool.false_eq_true, if_false]
    rfl

/-- An update by the key is planned, and changes the rows that have it. -/
theorem update_by_key {filter : Sql.Predicate} {s : Sql.Statement} (h : table.Served store)
    (hserves : c.Serves store table rows) (hs : Sql.Statement.update? table.name row (some filter) = some s)
    (htokens : filter.tokens = keyTokens table.primaryKey) (hcolumns : filter.columns = table.primaryKey)
    (hknown : ∀ n ∈ row.names, n ∈ table.columnNames) (hv : table.Keeps values)
    (hparameters : parameters = row.names.map (table.valueAt values) ++ table.keyValues values) :
    ∃ condition, c.planOf s.text parameters =
        .ok (.change (.update table.name (table.placed (namedParameters row.names)) condition)) ∧
      updatedRows (table.holding rows) parameters.toArray (table.placed (namedParameters row.names)) condition =
        .ok (sameKey table values rows) := by
  have hsize : row.names.length = row.size := List.length_map _
  have hcount : parameters.length = row.size + table.primaryKey.length := by
    rw [hparameters, List.length_append, List.length_map, hsize, TableDefinition.keyValues, List.length_map]
  have hfilter := filterRows_key h.toKeyed hserves.rows hv hparameters
  rw [List.length_map, hsize] at hfilter
  exact ⟨_, planOf_update h hserves hs htokens hcolumns hknown hcount,
    updatedRows_of_few _ hfilter (length_sameKey hserves.rows)⟩

/-- The row of a key is updated. -/
theorem run_update_of_present {filter : Sql.Predicate} {s : Sql.Statement} (h : table.Served store)
    (hserves : c.Serves store table rows) (hs : Sql.Statement.update? table.name row (some filter) = some s)
    (htokens : filter.tokens = keyTokens table.primaryKey) (hcolumns : filter.columns = table.primaryKey)
    (hnames : ∀ n, n ∈ row.names ↔ n ∈ table.columnNames ∧ n ∉ table.primaryKey) (hv : table.Keeps values)
    (hparameters : parameters = row.names.map (table.valueAt values) ++ table.keyValues values) (hold : old ∈ rows)
    (hsame : table.keyValues old.values = table.keyValues values) :
    ∃ after rows', c.run s.text parameters = (.ok .empty, after) ∧ after.Serves store table rows' ∧
      c.changed after = 1 ∧ (rows'.map NumberedRow.values).Perm
        (values :: (rows.filter (·.number != old.number)).map NumberedRow.values) := by
  have hknown : ∀ n ∈ row.names, n ∈ table.columnNames := fun n hn => ((hnames n).1 hn).1
  obtain ⟨condition, hplan, hupdated⟩ := update_by_key h hserves hs htokens hcolumns hknown hv hparameters
  rw [sameKey_of_mem hserves.rows hold hsame] at hupdated
  -- What is not assigned belongs to the key, which the row has already.
  have hkept : ∀ n ∈ table.columnNames, n ∉ row.names → table.valueAt old.values n = table.valueAt values n := by
    intro n hn hnot
    have hkey : n ∈ table.primaryKey := by
      by_contra hnokey
      exact hnot ((hnames n).2 ⟨hn, hnokey⟩)
    exact List.map_inj_left.1 hsame n hkey
  have hassigned := TableDefinition.assigned_named rows hknown
    (hserves.rows.fits old hold).keeps.length hv.length hkept hparameters
  obtain ⟨new, rows', hreplace, hholds, hperm⟩ :=
    TableDefinition.replace_of_key h.toKeyed hserves.rows hold hv hsame
  have hrun : Progress.run parameters.toArray Progress.fire ⟨store.addTable (table.holding rows), 0, 0⟩
      (.update table.name (table.placed (namedParameters row.names)) condition) =
        .ok ⟨store.addTable (table.holding rows'), 1, 0⟩ := by
    rw [← setTable_holding h.free rows rows']
    simp only [Progress.run, tableNamed_addTable h.free, hupdated, Store.interrupted, Except.mapError, bind, Except.bind,
      List.map_cons, List.map_nil, Progress.updateRows, hserves.rows.row?_of_mem hold, hassigned, hreplace]
    rfl
  obtain ⟨after, hafter, hserves', hcount⟩ := run_serves hserves hplan hholds hrun
  exact ⟨after, rows', hafter, hserves', hcount, hperm⟩

/-- Without a row of the key nothing is updated. -/
theorem run_update_of_absent {filter : Sql.Predicate} {s : Sql.Statement} (h : table.Served store)
    (hserves : c.Serves store table rows) (hs : Sql.Statement.update? table.name row (some filter) = some s)
    (htokens : filter.tokens = keyTokens table.primaryKey) (hcolumns : filter.columns = table.primaryKey)
    (hknown : ∀ n ∈ row.names, n ∈ table.columnNames) (hv : table.Keeps values)
    (hparameters : parameters = row.names.map (table.valueAt values) ++ table.keyValues values)
    (habsent : ∀ r ∈ rows, table.keyValues r.values ≠ table.keyValues values) :
    ∃ after, c.run s.text parameters = (.ok .empty, after) ∧ after.Serves store table rows ∧ c.changed after = 0 := by
  obtain ⟨condition, hplan, hupdated⟩ := update_by_key h hserves hs htokens hcolumns hknown hv hparameters
  rw [sameKey_of_absent habsent] at hupdated
  refine run_serves hserves hplan hserves.rows ?_
  simp only [Progress.run, tableNamed_addTable h.free, hupdated, Store.interrupted, Except.mapError, bind, Except.bind,
    List.map_nil, Progress.updateRows]

/-- A deletion by the key is planned, and removes the rows that have it. -/
theorem delete_by_key {filter : Sql.Predicate} (h : table.Served store) (hserves : c.Serves store table rows)
    (htokens : filter.tokens = keyTokens table.primaryKey) (hcolumns : filter.columns = table.primaryKey)
    (hv : table.Keeps values) (hparameters : parameters = table.keyValues values) :
    ∃ condition, c.planOf (Sql.Statement.delete table.name (some filter)).text parameters =
        .ok (.change (.delete table.name condition)) ∧
      (table.holding rows).filterRows parameters.toArray condition = .ok (sameKey table values rows) := by
  have hcount : parameters.length = table.primaryKey.length := by
    rw [hparameters, TableDefinition.keyValues, List.length_map]
  exact ⟨_, planOf_delete h hserves htokens hcolumns hcount,
    filterRows_key h.toKeyed hserves.rows hv (hparameters.trans (List.nil_append _).symm)⟩

/-- The row of a key is deleted. -/
theorem run_delete_of_present {filter : Sql.Predicate} (h : table.Served store) (hserves : c.Serves store table rows)
    (htokens : filter.tokens = keyTokens table.primaryKey) (hcolumns : filter.columns = table.primaryKey)
    (hv : table.Keeps values) (hparameters : parameters = table.keyValues values) (hold : old ∈ rows)
    (hsame : table.keyValues old.values = table.keyValues values) :
    ∃ after, c.run (Sql.Statement.delete table.name (some filter)).text parameters = (.ok .empty, after) ∧
      after.Serves store table (rows.filter (·.number != old.number)) ∧ c.changed after = 1 := by
  obtain ⟨condition, hplan, hfilter⟩ := delete_by_key h hserves htokens hcolumns hv hparameters
  rw [sameKey_of_mem hserves.rows hold hsame] at hfilter
  refine run_serves hserves hplan (hserves.rows.sublist List.filter_sublist) ?_
  rw [← setTable_holding h.free rows (rows.filter (·.number != old.number))]
  simp only [Progress.run, tableNamed_addTable h.free, hfilter, Store.interrupted, Except.mapError, bind, Except.bind,
    List.map_cons, List.map_nil, Progress.deleteRows, hserves.rows.row?_of_mem hold]
  rfl

/-- Without a row of the key nothing is deleted. -/
theorem run_delete_of_absent {filter : Sql.Predicate} (h : table.Served store) (hserves : c.Serves store table rows)
    (htokens : filter.tokens = keyTokens table.primaryKey) (hcolumns : filter.columns = table.primaryKey)
    (hv : table.Keeps values) (hparameters : parameters = table.keyValues values)
    (habsent : ∀ r ∈ rows, table.keyValues r.values ≠ table.keyValues values) :
    ∃ after, c.run (Sql.Statement.delete table.name (some filter)).text parameters = (.ok .empty, after) ∧
      after.Serves store table rows ∧ c.changed after = 0 := by
  obtain ⟨condition, hplan, hfilter⟩ := delete_by_key h hserves htokens hcolumns hv hparameters
  rw [sameKey_of_absent habsent] at hfilter
  refine run_serves hserves hplan hserves.rows ?_
  simp only [Progress.run, tableNamed_addTable h.free, hfilter, Store.interrupted, Except.mapError, bind, Except.bind,
    List.map_nil, Progress.deleteRows]

/-! ## Selections -/

/-- Rows that nothing is asked of are all met, in some order. -/
theorem arrange_unfiltered (search : Walk.Search) (parameters : Array StoredValue) (scope : List StoredValue → Scope)
    (rows : List NumberedRow) :
    ∃ met, Walk.arrange scope (Walk.ofFilter search parameters none) rows = .ok met ∧ met.Perm rows := by
  have hreverse : ∀ (backward : Bool) (rows' : List NumberedRow), rows'.Perm rows →
      (if backward then rows'.reverse else rows').Perm rows := by
    intro backward rows' hperm
    cases backward with
    | false => exact hperm
    | true => exact (List.reverse_perm rows').trans hperm
  have hterms : Walk.ofFilter search parameters none = Walk.ofTerms search 1 [] := rfl
  rw [hterms, Walk.ofTerms]
  split
  · exact ⟨rows, rfl, .refl _⟩
  · split
    · split
      · exact ⟨_, rfl, hreverse _ _ (.refl _)⟩
      · exact ⟨_, rfl, hreverse _ _ (List.mergeSort_perm ..)⟩
    -- Without terms there are no branches either.
    · exact ⟨rows, rfl, .refl _⟩

/-- A row of a selection of all columns is the row itself. -/
theorem cells_range (values : List StoredValue) : PlannedSelection.cells (List.range values.length) values = values := by
  apply List.ext_getElem
  · simp [PlannedSelection.cells]
  · intro i hi hi'
    simp [PlannedSelection.cells, List.getElem?_eq_getElem hi']

/-- The selection of all columns of all rows. -/
def wholeSelection (table : TableDefinition) (rows : List NumberedRow) : PlannedSelection :=
  ⟨table.columnNames, (List.range table.columns.length).map .column, false, .table (table.holding rows), none, [],
    ⟨none, none⟩⟩

theorem planOf_select_all (h : table.Served store) (hserves : c.Serves store table rows) :
    c.planOf (Sql.Statement.select table.name .empty).text [] = .ok (.select (wholeSelection table rows)) := by
  have htext := ofText_select_all (h.unbroken _ (List.mem_cons_self ..))
  have hwidth : table.columnNames.length = table.columns.length := List.length_map _
  have hsource : c.store.planSource (.table table.name) = .ok (.table (table.holding rows), table.columnNames) := by
    rw [hserves.store, Store.planSource, tableNamed_addTable h.free]
    show Except.ok (_, (table.holding rows).columnNames) = _
    rw [table.columnNames_holding]
  have hresults : Store.resultColumns table.columnNames [.all] =
      .ok (table.columnNames.zipIdx.map fun p => (p.1, .column p.2)) := by
    show Except.ok (_ ++ []) = _
    rw [List.append_nil]
  have hselection := Store.planSelection_plain hsource hresults (by
    rw [List.length_map, List.length_zipIdx, hwidth]
    exact h.width)
  have hnames : (table.columnNames.zipIdx.map fun p => (p.1, Expr.column p.2)).map Prod.fst = table.columnNames := by
    rw [List.map_map]
    exact List.zipIdx_map_fst ..
  have hvalues : (table.columnNames.zipIdx.map fun p => (p.1, Expr.column p.2)).map Prod.snd =
      (List.range table.columns.length).map .column := by
    rw [← hwidth, List.map_map, List.range_eq_range', ← List.zipIdx_map_snd 0 table.columnNames, List.map_map]
    rfl
  have hcounts : (table.columnNames.zipIdx.map fun p => (p.1, Expr.column p.2)).any (fun r => Store.isCount r.2) =
      false := by
    simp [Store.isCount]
  simp only [planOf, htext, bind, Except.bind, Store.plan, hselection, pure, Except.pure, List.length_nil, if_true,
    hnames, hvalues, hcounts, wholeSelection]

/-- All rows are found, in some order. -/
theorem found_whole (rows : List NumberedRow) :
    ∃ met : List NumberedRow,
      (wholeSelection table rows).found #[] = .ok ((table.holding rows).affinities, met.map NumberedRow.values) ∧
        met.Perm rows := by
  have hwalk : ∃ search, (wholeSelection table rows).walk (table.holding rows) #[] = Walk.ofFilter search #[] none :=
    ⟨_, rfl⟩
  obtain ⟨search, hwalk⟩ := hwalk
  obtain ⟨met, hmet, hperm⟩ := arrange_unfiltered search #[] ((table.holding rows).scope #[]) rows
  have hall : (table.holding rows).filterRows #[] none = .ok rows := by
    have hfilter : rows.filterM (fun r => holds ((table.holding rows).scope #[] r.values) none) =
        .ok (rows.filter fun _ => true) := filterM_ok fun _ _ => rfl
    rw [List.filter_true] at hfilter
    exact hfilter
  refine ⟨met, ?_, hperm⟩
  rw [PlannedSelection.found]
  simp only [show (wholeSelection table rows).source = .table (table.holding rows) from rfl,
    show (wholeSelection table rows).filter = none from rfl, hall, bind, Except.bind, hwalk, hmet]
  rfl

/-- The selection of all rows gives them in some order. -/
theorem run_select_all (h : table.Served store) (hserves : c.Serves store table rows) :
    ∃ found, c.run (Sql.Statement.select table.name .empty).text [] = (.ok ⟨table.columnNames, found⟩, c) ∧
      found.Perm (rows.map NumberedRow.values) := by
  obtain ⟨met, hfound, hperm⟩ := @found_whole table rows
  have hrun := PlannedSelection.run_columns rfl rfl rfl rfl hfound
  have hcells : (met.map NumberedRow.values).map (PlannedSelection.cells (List.range table.columns.length)) =
      met.map NumberedRow.values := by
    conv_rhs => rw [← List.map_id (met.map NumberedRow.values)]
    apply List.map_congr_left
    intro values hvalues
    obtain ⟨r, hr, rfl⟩ := List.mem_map.1 hvalues
    rw [← (hserves.rows.fits r (hperm.mem_iff.1 hr)).keeps.length]
    exact cells_range r.values
  rw [hcells] at hrun
  refine ⟨met.map NumberedRow.values, ?_, hperm.map _⟩
  simp only [run, planOf_select_all h hserves, Store.interrupted, Except.mapError, bind, Except.bind, execute, hrun, pure,
    Except.pure]
  rfl

end Connection

end Engine

end RecordTables
