import Mathlib.Data.List.Nodup
import RecordTables.Proofs.Database.Sessions
import RecordTables.Proofs.Engine.Listed

/-!
# Definitions read back from the catalog

A definition whose table and indexes were created is found again in the catalog: its columns with their types, its key in
the declared order, and each index with its columns in their order.
-/

namespace RecordTables

open Engine (sameName Connection Store TableIndex)
open Engine.Store (Free maxColumns)
open Sql (Unbroken)

/-! ## Definitions from lists of the catalog -/

theorem ColumnType.ofDeclared_keyword (type : ColumnType) : ColumnType.ofDeclared type.keyword = type := by
  cases type <;> decide +kernel

namespace Catalog

variable (table : TableDefinition)

theorem map_column_catalogColumns : table.catalogColumns.map column = table.columns := by
  rw [TableDefinition.catalogColumns, List.map_map]
  conv_rhs => rw [← List.map_id table.columns]
  apply List.map_congr_left
  rintro ⟨name, c⟩ _
  simp only [Function.comp_apply, column, ColumnType.ofDeclared_keyword, Bool.not_not, id]

variable {table}

theorem mem_keyed {name : String} : name ∈ (table.catalogColumns.filter fun c => decide (0 < c.rank)).map
    CatalogColumn.name ↔ name ∈ table.primaryKey := by
  simp only [List.mem_map, List.mem_filter, TableDefinition.catalogColumns, decide_eq_true_eq]
  constructor
  · rintro ⟨_, ⟨⟨p, _, rfl⟩, hrank⟩, rfl⟩
    apply Decidable.byContradiction
    intro hnot
    simp only [TableDefinition.rank, if_neg hnot] at hrank
    exact absurd hrank (by decide)
  · intro hkey
    obtain ⟨p, hp, rfl⟩ := List.mem_map.1 (table.key_known name hkey)
    refine ⟨_, ⟨⟨p, hp, rfl⟩, ?_⟩, rfl⟩
    simp only [TableDefinition.rank, if_pos hkey]
    omega

/-- The columns of a key stand in the order of their ranks. -/
theorem pairwise_primaryKey (columns : List CatalogColumn) : ∃ sorted : List CatalogColumn,
    primaryKey columns = sorted.map CatalogColumn.name ∧ sorted.Perm (columns.filter fun c => decide (0 < c.rank)) ∧
      sorted.Pairwise fun a b => a.rank ≤ b.rank := by
  refine ⟨_, rfl, List.mergeSort_perm .., ?_⟩
  have hsorted := @List.pairwise_mergeSort CatalogColumn
    (fun a b => decide (a.rank < b.rank ∨ (a.rank = b.rank ∧ a.name ≤ b.name)))
    (by
      intro a b c hab hbc
      simp only [decide_eq_true_eq] at *
      rcases hab with hab | ⟨hab, hab'⟩ <;> rcases hbc with hbc | ⟨hbc, hbc'⟩
      · exact .inl (by omega)
      · exact .inl (by omega)
      · exact .inl (by omega)
      · exact .inr ⟨by omega, String.le_trans hab' hbc'⟩)
    (by
      intro a b
      simp only [Bool.or_eq_true, decide_eq_true_eq]
      by_cases heq : a.rank = b.rank
      · exact (String.le_total a.name b.name).imp (fun hle => .inr ⟨heq, hle⟩) fun hle => .inr ⟨heq.symm, hle⟩
      · exact (by omega : a.rank < b.rank ∨ b.rank < a.rank).imp .inl .inl)
    (columns.filter fun c => decide (0 < c.rank))
  refine hsorted.imp fun h => ?_
  simp only [decide_eq_true_eq] at h
  omega

theorem rank_inj {a b : String} (ha : a ∈ table.primaryKey) (hb : b ∈ table.primaryKey)
    (h : table.rank a = table.rank b) : a = b := by
  simp only [TableDefinition.rank, if_pos ha, if_pos hb, Nat.add_right_cancel_iff] at h
  exact (List.idxOf_inj ha).1 h

/-- The key comes back in its declared order. -/
theorem primaryKey_catalogColumns (hkey : table.primaryKey.Nodup) :
    primaryKey table.catalogColumns = table.primaryKey := by
  obtain ⟨sorted, heq, hperm, hsorted⟩ := pairwise_primaryKey table.catalogColumns
  have hnames : (sorted.map CatalogColumn.name).Perm
      ((table.catalogColumns.filter fun c => decide (0 < c.rank)).map CatalogColumn.name) := hperm.map _
  have hmem : ∀ {a}, a ∈ sorted.map CatalogColumn.name ↔ a ∈ table.primaryKey := hnames.mem_iff.trans mem_keyed
  have hnodup : (sorted.map CatalogColumn.name).Nodup := by
    rw [hnames.nodup_iff]
    refine List.Nodup.sublist (List.filter_sublist.map _) ?_
    rw [TableDefinition.catalogColumns, List.map_map]
    exact table.nodup_columnNames
  have hrank : ∀ c ∈ sorted, c.rank = table.rank c.name := by
    intro c hc
    obtain ⟨p, _, rfl⟩ := List.mem_map.1 (List.mem_filter.1 (hperm.mem_iff.1 hc)).1
    rfl
  have hlisted : (sorted.map CatalogColumn.name).Pairwise fun a b => table.rank a ≤ table.rank b := by
    rw [List.pairwise_map]
    refine hsorted.imp_of_mem fun {a b} ha hb hle => ?_
    have hleft := hrank a ha
    have hright := hrank b hb
    omega
  have hdeclared : table.primaryKey.Pairwise fun a b => table.rank a ≤ table.rank b := by
    rw [List.pairwise_iff_getElem]
    intro i j hi hj hij
    simp only [TableDefinition.rank, if_pos (List.getElem_mem _), hkey.idxOf_getElem]
    omega
  rw [heq]
  -- The ranks ascend in both lists, and tell the columns of the key apart.
  refine List.Perm.eq_of_pairwise ?_ hlisted hdeclared ((List.perm_ext_iff_of_nodup hnodup hkey).2 fun a => hmem)
  intro a b ha hb hle hge
  exact rank_inj (hmem.1 ha) hb (by omega)

/-- Only the indexes of the definition were created; that of the key was not. -/
theorem filter_isCreated_listed {indexes : List Index} :
    ((table.storedWith indexes).indexes.map TableIndex.listed).filter isCreated =
      indexes.map fun i => (table.storedIndex i).listed := by
  have hcreated : (indexes.map fun i => (table.storedIndex i).listed).filter isCreated =
      indexes.map fun i => (table.storedIndex i).listed := by
    apply List.filter_eq_self.2
    intro x hx
    obtain ⟨i, _, rfl⟩ := List.mem_map.1 hx
    rfl
  have hkey : (table.keyIndexes.map TableIndex.listed).filter isCreated = [] := by
    unfold TableDefinition.keyIndexes
    split <;> rfl
  show ((indexes.map table.storedIndex ++ table.keyIndexes).map TableIndex.listed).filter isCreated = _
  rw [List.map_append, List.map_map, List.filter_append, hkey, List.append_nil]
  exact hcreated

/-- An index comes back with its columns in their order. -/
theorem index_listed (i : Index) : index (table.storedIndex i).listed i.catalogParts = i := by
  have hsorted : (i.catalogParts.mergeSort fun a b => decide (a.position ≤ b.position)) = i.catalogParts := by
    apply List.mergeSort_of_pairwise
    rw [Index.catalogParts, List.pairwise_map]
    refine (List.pairwise_iff_getElem.2 ?_)
    intro a b ha hb hab
    simp only [List.getElem_zipIdx, decide_eq_true_eq]
    omega
  have hnames : i.catalogParts.filterMap CatalogPart.name = i.columns := by
    rw [Index.catalogParts, List.filterMap_map]
    have hfst : i.columns.zipIdx.filterMap (some ∘ Prod.fst) = i.columns := by
      rw [List.filterMap_eq_map, List.zipIdx_map_fst]
    exact hfst
  simp only [index, hsorted, hnames]
  rfl

/-- Indexes with distinct names are sorted in one way only. -/
theorem sortIndexes_eq {indexes : List Index} (hperm : indexes.Perm table.indexes)
    (hdistinct : (table.indexes.map Index.name).Nodup) : sortIndexes indexes = table.indexes := by
  have hsorted := (List.mergeSort_perm indexes fun a b => decide (a.name ≤ b.name)).trans hperm
  refine List.Perm.eq_of_pairwise ?_ (pairwise_sortIndexes indexes) table.indexes_ascending hsorted
  intro a b ha hb hle hge
  exact List.inj_on_of_nodup_map hdistinct (hsorted.mem_iff.1 ha) hb (String.le_antisymm hle hge)

/-- What the catalog lists of a created table is put together to its definition, whatever the order of the indexes. -/
theorem definition_listed {indexes : List Index} (hkey : table.primaryKey.Nodup) (hperm : indexes.Perm table.indexes)
    (hdistinct : (table.indexes.map Index.name).Nodup) :
    definition table.name table.catalogColumns
      (indexes.map fun i => ((table.storedIndex i).listed, i.catalogParts)) = .ok table := by
  have hcreated : ((indexes.map fun i => ((table.storedIndex i).listed, i.catalogParts)).filter
      fun p => isCreated p.1).map (fun p => index p.1 p.2) = indexes := by
    have hall : ∀ p ∈ indexes.map fun i => ((table.storedIndex i).listed, i.catalogParts), isCreated p.1 = true := by
      intro p hp
      obtain ⟨i, _, rfl⟩ := List.mem_map.1 hp
      rfl
    rw [List.filter_eq_self.2 hall, List.map_map]
    conv_rhs => rw [← List.map_id indexes]
    exact List.map_congr_left fun i _ => index_listed i
  unfold definition
  rw [map_column_catalogColumns, primaryKey_catalogColumns hkey, hcreated]
  exact TableDefinition.make_of_sorted (ascendingBy_of_pairwise table.columns_ascending) (sortIndexes_eq hperm hdistinct)

end Catalog

/-! ## Creating -/

/-- A definition with columns whose names stand apart from each other and are free, and in which neither the key nor an
index repeats a column. -/
structure Declarable (store : Store) (table : TableDefinition) : Prop where
  columns : table.columns ≠ []
  columnsApart : Apart table.columnNames
  key : table.primaryKey.Nodup
  indexesApart : Apart (table.name :: table.indexes.map Index.name)
  indexColumns : ∀ i ∈ table.indexes, i.columns ≠ [] ∧ i.columns.Nodup
  free : ∀ n ∈ table.name :: table.indexes.map Index.name, Free store n

/-- A definition that is not too wide for the engine, and of which no name breaks off. -/
structure Creatable (store : Store) (table : TableDefinition) : Prop extends Declarable store table where
  width : table.columns.length ≤ maxColumns
  unbroken : ∀ n ∈ table.names, Unbroken n

/-- Names on the two sides of a list of names apart are apart. -/
theorem apart_of_append {before after : List String} {a b : String} (h : Apart (before ++ b :: after))
    (ha : a ∈ before) : sameName a b = false := by
  rw [Apart, List.map_append, List.map_cons] at h
  apply Bool.eq_false_iff.2
  intro hsame
  exact (List.nodup_append.1 h).2.2 _ (List.mem_map_of_mem ha) _ (List.mem_cons_self ..) (Engine.sameName_iff.1 hsame)

namespace Session

variable {table : TableDefinition} {db : Database} {c : Connection} {store : Store}

/-- The texts of further indexes add them in front of those that are there. -/
theorem perform_execAll_indexes {done rest : List Index} (h : Creatable store table) (hlive : db.live = .ok c)
    (hwrites : c.readOnly = false) (hall : table.indexes = done ++ rest)
    (hstore : c.store = store.addTable (table.storedWith done.reverse)) :
    ∃ after, perform (execAll (rest.map (Index.createText table.name))) db = (.ok 0, after) ∧
      after.live = .ok { c with store := store.addTable (table.storedWith table.indexes.reverse) } := by
  induction rest generalizing db c done with
  | nil =>
      rw [List.append_nil] at hall
      refine ⟨db, rfl, ?_⟩
      rw [hall, ← hstore]
      exact hlive
  | cons index rest ih =>
      have hmem : index ∈ table.indexes := by rw [hall]; simp
      have hnames : index.name ∈ table.name :: table.indexes.map Index.name :=
        List.mem_cons_of_mem _ (List.mem_map_of_mem hmem)
      obtain ⟨hne, hnodup⟩ := h.indexColumns index hmem
      obtain ⟨hother, hapart⟩ := Apart.cons.1 h.indexesApart
      have hothers : ∀ i ∈ done.reverse, sameName i.name index.name = false := by
        intro i hi
        rw [List.mem_reverse] at hi
        rw [hall, List.map_append, List.map_cons] at hapart
        exact apart_of_append hapart (List.mem_map_of_mem hi)
      have hrun := Connection.run_createIndex hne h.unbroken hmem h.columnsApart h.width hnodup hwrites hstore
        (h.free _ (List.mem_cons_self ..)).table (h.free _ hnames) (hother _ (List.mem_map_of_mem hmem)) hothers
      have hstep := perform_exec hlive (show c.run _ (List.map Value.bound []) = _ from hrun)
      have hsplit : table.indexes = (done ++ [index]) ++ rest := by rw [hall, List.append_assoc, List.singleton_append]
      have hnext := Database.live_noted db ⟨.exec, index.createText table.name, ([] : List Value).length⟩
        { c with store := store.addTable (table.storedWith (index :: done.reverse)) }
      obtain ⟨after, hafter, hconnection⟩ := ih (c := { c with store := _ }) hnext hwrites hsplit (by simp)
      refine ⟨after, ?_, hconnection⟩
      rw [List.map_cons, execAll, perform_bind hstep, if_pos rfl, perform_bind hafter]
      rfl

/-- Creating a table with its indexes changes no row, and leaves the table of the definition. -/
theorem perform_create (h : Creatable c.store table) (hlive : db.live = .ok c) (hwrites : c.readOnly = false) :
    ∃ after, perform (create table) db = (.ok 0, after) ∧
      after.live = .ok { c with store := c.store.addTable (table.storedWith table.indexes.reverse) } := by
  have hnames : ∀ n ∈ table.name :: table.columnNames, Unbroken n :=
    fun n hn => h.unbroken n (List.cons_subset_cons _ (List.subset_append_left ..) hn)
  have hrun := Connection.run_createTable h.columns hnames h.columnsApart h.width h.key hwrites
    (h.free _ (List.mem_cons_self ..))
  have hstep := perform_exec hlive (show c.run _ (List.map Value.bound []) = _ from hrun)
  have hnext := Database.live_noted db ⟨.exec, table.createText, ([] : List Value).length⟩
    { c with store := c.store.addTable (table.storedWith []) }
  obtain ⟨after, hafter, hconnection⟩ :=
    perform_execAll_indexes (c := { c with store := _ }) h hnext hwrites (List.nil_append _).symm rfl
  refine ⟨after, ?_, hconnection⟩
  rw [create, execAll, perform_bind hstep, if_pos rfl]
  show perform (execAll (table.indexes.map (Index.createText table.name)) >>= _) _ = _
  rw [perform_bind hafter]
  rfl

/-! ## Reading back -/

open Catalog (rowOf columnsText indexesText partsText)

/-- A view of the catalog that is asked about a name answers with its rows. -/
theorem perform_rows_view {text name : String} {columns : List (String × Nat)} {rows : String → List (List StoredValue)}
    (hname : Unbroken name) (hlive : db.live = .ok c)
    (hplan : ∀ v, c.planOf text [v] = .ok (.select (Engine.viewSelection columns rows))) :
    ∃ after, perform (Session.rows text [.text name]) db =
      (.ok ((rows name).map (rowOf columns)), after) ∧ after.live = .ok c := by
  have hrun := Connection.run_view (hplan (.text name.toUTF8))
  have hrows := perform_rows hlive (show c.run _ (List.map Value.bound [.text name]) = _ from hrun)
  rw [records, Engine.viewRows, Engine.argumentName?_text hname, List.map_map] at hrows
  exact ⟨_, hrows, rfl⟩

/-- Whether a table of a name stands in front of a view of the catalog. -/
def coversView (name : String) : Bool := Store.viewColumns.any fun v => sameName name v.1

/-- The views of the catalog that a store leaves to be asked. -/
structure Uncovered (store : Store) : Prop where
  columns : store.table? "pragma_table_info" = none
  indexes : store.table? "pragma_index_list" = none
  parts : store.table? "pragma_index_info" = none

theorem uncovered_of_tables (h : ∀ t ∈ store.tables, coversView t.name = false) : Uncovered store := by
  have hview : ∀ v ∈ Store.viewColumns, store.table? v.1 = none := by
    intro v hv
    apply List.find?_eq_none.2
    intro t ht
    exact List.any_eq_false.1 (h t ht) v hv
  simp only [Store.viewColumns, List.forall_mem_cons, List.not_mem_nil, false_implies, implies_true] at hview
  exact ⟨hview.1, hview.2.1, hview.2.2.1⟩

/-- Where the catalog has no columns for a name, there is no table. -/
theorem perform_introspect_none {name : String} (hname : Unbroken name) (hlive : db.live = .ok c)
    (hview : c.store.table? "pragma_table_info" = none) (hnone : c.store.columnRows name = []) :
    ∃ after, perform (introspect name) db = (.ok none, after) ∧ after.live = .ok c := by
  obtain ⟨after, hrows, hafter⟩ := perform_rows_view hname hlive (Connection.planOf_columnsText hview)
  rw [hnone] at hrows
  refine ⟨after, ?_, hafter⟩
  unfold introspect
  rw [perform_bind hrows]
  rfl

/-- The parts of created indexes are listed index by index. -/
theorem perform_indexParts {indexes : List Index} (h : Creatable store table) (hlive : db.live = .ok c)
    (hview : indexes ≠ [] → c.store.table? "pragma_index_info" = none) (hstore : c.store = store.addTable (table.storedWith table.indexes.reverse))
    (hall : ∀ i ∈ indexes, i ∈ table.indexes) :
    ∃ after, perform (indexParts (indexes.map fun i => (table.storedIndex i).listed)) db =
      (.ok (indexes.map fun i => ((table.storedIndex i).listed, i.catalogParts)), after) ∧ after.live = .ok c := by
  induction indexes generalizing db with
  | nil => exact ⟨db, rfl, hlive⟩
  | cons i indexes ih =>
      rw [List.forall_mem_cons] at hall
      have hnamed : i.name ∈ table.name :: table.indexes.map Index.name :=
        List.mem_cons_of_mem _ (List.mem_map_of_mem hall.1)
      have hname : Unbroken i.name := h.unbroken _
        (List.mem_cons_of_mem _ (List.mem_append_right _ (List.mem_map_of_mem hall.1)))
      obtain ⟨hother, hapart⟩ := Apart.cons.1 h.indexesApart
      have hindex : c.store.index? i.name = some (table.storedWith table.indexes.reverse, table.storedIndex i) := by
        have hreverse : Apart (table.indexes.reverse.map Index.name) := by
          rw [Apart, List.map_reverse, List.map_reverse, List.nodup_reverse]
          exact hapart
        rw [hstore, Store.index?_addTable (h.free _ hnamed).index,
          Store.find?_storedIndex hreverse (List.mem_reverse.2 hall.1)]
        rfl
      have hcolumns := table.indexes_known i hall.1
      have hwidth : i.columns.length ≤ maxColumns :=
        (Store.length_le_of_known hcolumns (h.indexColumns i hall.1).2).trans h.width
      obtain ⟨asked, hasked, hkept⟩ := perform_rows_view hname hlive
        (Connection.planOf_partsText (hview (List.cons_ne_nil _ _)))
      have hparts := Catalog.partOf_partRows (table.columnNames_storedWith _) hcolumns hwidth hindex
      obtain ⟨after, hafter, hconnection⟩ := ih hkept (fun _ => hview (List.cons_ne_nil _ _)) hall.2
      refine ⟨after, ?_, hconnection⟩
      rw [List.map_cons, indexParts]
      show perform (Session.rows partsText [.text i.name] >>= _) db = _
      rw [perform_bind hasked, perform_bind (perform_mapM_liftM hparts), perform_bind hafter]
      rfl

/-- Once its columns are listed, the indexes of a created table are asked for. -/
theorem perform_introspect_columns (h : Creatable store table) (hlive : db.live = .ok c)
    (hcolumnView : c.store.table? "pragma_table_info" = none)
    (hstore : c.store = store.addTable (table.storedWith table.indexes.reverse)) :
    ∃ first, first.live = .ok c ∧ perform (introspect table.name) db = perform (do
      let listed ← (← Session.rows indexesText [.text table.name]).mapM fun row => liftM (Catalog.indexOf row)
      let indexes ← indexParts (listed.filter Catalog.isCreated)
      return some (← liftM (Catalog.definition table.name table.catalogColumns indexes))) first := by
  have hname : Unbroken table.name := h.unbroken _ (List.mem_cons_self ..)
  have htable : c.store.table? table.name = some (table.storedWith table.indexes.reverse) := by
    rw [hstore, Store.table?_addTable (h.free _ (List.mem_cons_self ..)).table]
    exact if_pos (Engine.sameName_self _)
  obtain ⟨first, hfirst, hfirstLive⟩ := perform_rows_view hname hlive (Connection.planOf_columnsText hcolumnView)
  have hcolumns := Catalog.columnOf_columnRows h.key h.width htable
  have hsome : table.catalogColumns.isEmpty = false := by
    rw [TableDefinition.catalogColumns, List.isEmpty_map]
    exact List.isEmpty_eq_false_iff.2 h.columns
  refine ⟨first, hfirstLive, ?_⟩
  unfold introspect
  rw [perform_bind hfirst, perform_bind (perform_mapM_liftM hcolumns)]
  simp only [hsome, Bool.false_eq_true, if_false]

/-- Once its indexes are listed, their parts are asked for. -/
theorem perform_introspect_indexes (h : Creatable store table) (hlive : db.live = .ok c)
    (hcolumnView : c.store.table? "pragma_table_info" = none) (hindexView : c.store.table? "pragma_index_list" = none)
    (hstore : c.store = store.addTable (table.storedWith table.indexes.reverse)) :
    ∃ second, second.live = .ok c ∧ perform (introspect table.name) db = perform (do
      let indexes ← indexParts (table.indexes.reverse.map fun i => (table.storedIndex i).listed)
      return some (← liftM (Catalog.definition table.name table.catalogColumns indexes))) second := by
  have hname : Unbroken table.name := h.unbroken _ (List.mem_cons_self ..)
  have htable : c.store.table? table.name = some (table.storedWith table.indexes.reverse) := by
    rw [hstore, Store.table?_addTable (h.free _ (List.mem_cons_self ..)).table]
    exact if_pos (Engine.sameName_self _)
  obtain ⟨first, hfirstLive, hfirst⟩ := perform_introspect_columns h hlive hcolumnView hstore
  obtain ⟨second, hsecond, hsecondLive⟩ :=
    perform_rows_view hname hfirstLive (Connection.planOf_indexesText hindexView)
  have hindexes := Catalog.indexOf_indexRows htable
  refine ⟨second, hsecondLive, ?_⟩
  rw [hfirst, perform_bind hsecond, perform_bind (perform_mapM_liftM hindexes), Catalog.filter_isCreated_listed]

/-- The table of a definition is found again in the catalog. -/
theorem perform_introspect (h : Creatable store table) (hlive : db.live = .ok c)
    (hcolumnView : c.store.table? "pragma_table_info" = none) (hindexView : c.store.table? "pragma_index_list" = none)
    (hpartView : table.indexes ≠ [] → c.store.table? "pragma_index_info" = none)
    (hstore : c.store = store.addTable (table.storedWith table.indexes.reverse)) :
    ∃ after, perform (introspect table.name) db = (.ok (some table), after) ∧ after.live = .ok c := by
  obtain ⟨second, hsecondLive, hsecond⟩ := perform_introspect_indexes h hlive hcolumnView hindexView hstore
  obtain ⟨after, hafter, hafterLive⟩ :=
    perform_indexParts h hsecondLive (fun hne => hpartView fun hnone => hne (by rw [hnone]; rfl)) hstore
      fun i hi => List.mem_reverse.1 hi
  refine ⟨after, ?_, hafterLive⟩
  have hdistinct : (table.indexes.map Index.name).Nodup :=
    (Apart.cons.1 h.indexesApart).2.of_map _
  rw [hsecond, perform_bind hafter,
    perform_liftM_bind (Catalog.definition_listed h.key (List.reverse_perm _) hdistinct)]
  rfl

/-- Introspection undoes creation: a definition that was created is found again, with its key in the declared order and
each index with its columns in their order, as long as no table stands in front of a view of the catalog. -/
theorem introspect_create (h : Creatable c.store table) (hlive : db.live = .ok c) (hwrites : c.readOnly = false)
    (hname : coversView table.name = false) (htables : ∀ t ∈ c.store.tables, coversView t.name = false) :
    ∃ created found, perform (create table) db = (.ok 0, created) ∧
      perform (introspect table.name) created = (.ok (some table), found) := by
  obtain ⟨created, hcreated, hconnection⟩ := perform_create h hlive hwrites
  have hviews : Uncovered (c.store.addTable (table.storedWith table.indexes.reverse)) := by
    apply uncovered_of_tables
    intro t ht
    rcases List.mem_append.1 ht with ht | ht
    · exact htables t ht
    · rw [List.mem_singleton.1 ht]
      exact hname
  obtain ⟨found, hfound, _⟩ := perform_introspect h hconnection hviews.columns hviews.indexes (fun _ => hviews.parts) rfl
  exact ⟨created, found, hcreated, hfound⟩

/-- A table whose key is not in the order of its columns, with an index. -/
def letters : TableDefinition where
  name := "letters \"sent\""
  columns := [("body", ⟨.blob, true⟩), ("number", ⟨.integer, false⟩), ("sender", ⟨.text, false⟩)]
  primaryKey := ["sender", "number"]
  indexes := [⟨"by body", ["number", "body"], true⟩]
  columns_ascending := by decide +kernel
  indexes_ascending := by decide +kernel
  key_known := by decide +kernel
  indexes_known := by decide +kernel

/-- In an empty store all names are free but those of the engine. -/
theorem free_empty {names : List String} (h : ∀ n ∈ names, Engine.isReserved n = false) :
    ∀ n ∈ names, Free .empty n :=
  fun n hn => ⟨rfl, rfl, h n hn⟩

theorem creatable_letters : Creatable .empty letters where
  columns := by decide
  columnsApart := by decide +kernel
  key := by decide +kernel
  indexesApart := by decide +kernel
  indexColumns := by decide +kernel
  free := free_empty (by decide +kernel)
  width := by decide
  unbroken := by decide +kernel

theorem introspect_create_letters : ∃ created found,
    perform (create letters) (.ofLocation .memory {}) = (.ok 0, created) ∧
      perform (introspect letters.name) created = (.ok (some letters), found) :=
  introspect_create (c := .ofStore .empty false true) creatable_letters rfl rfl (by decide +kernel) (by decide)

/-- A table with a single column. -/
def oneColumn (name column : String) : TableDefinition where
  name
  columns := [(column, ⟨.integer, false⟩)]
  primaryKey := []
  indexes := []
  columns_ascending := List.pairwise_singleton ..
  indexes_ascending := ascending_noIndexes
  key_known := List.forall_mem_nil _
  indexes_known := List.forall_mem_nil _

theorem declarable_oneColumn {name column : String} (h : Engine.isReserved name = false) :
    Declarable .empty (oneColumn name column) where
  columns := by simp [oneColumn]
  columnsApart := List.nodup_singleton _
  key := .nil
  indexesApart := List.nodup_singleton _
  indexColumns := by simp [oneColumn]
  free := free_empty (by simpa [oneColumn] using h)

/-- A name that breaks off is not created, and a table in front of a view of the catalog is not found again. -/
theorem not_introspect_create :
    (Declarable .empty (oneColumn "notes" "a\x00b") ∧
      (perform (create (oneColumn "notes" "a\x00b")) (.ofLocation .memory {})).1.isOk = false) ∧
    (Declarable .empty (oneColumn "pragma_table_info" "id") ∧
      (perform (create (oneColumn "pragma_table_info" "id") >>= fun _ => introspect "pragma_table_info")
        (.ofLocation .memory {})).1.isOk = false) := by
  refine ⟨⟨declarable_oneColumn (by decide +kernel), ?_⟩, declarable_oneColumn (by decide +kernel), ?_⟩
  · decide +kernel
  · decide +kernel

end Session

end RecordTables
