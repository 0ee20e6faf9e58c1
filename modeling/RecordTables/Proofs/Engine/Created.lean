import Mathlib.Data.List.Perm.Subperm
import RecordTables.Engine.Connection
import RecordTables.Proofs.Engine.Declarations
import RecordTables.Proofs.Schema.Columns

/-!
# Tables that are created

What the engine makes of the declaration of a table: its columns in their order, its key by the positions of its
columns, and its indexes, the newest first.  Names that differ in more than their case are told apart.
-/

namespace RecordTables

open Engine (sameName IndexOrigin TableColumn TableIndex Affinity Failure)

/-! ## Names apart -/

/-- Names that differ in more than the case of their letters. -/
def Apart (names : List String) : Prop := (names.map String.toLower).Nodup

instance (names : List String) : Decidable (Apart names) := inferInstanceAs (Decidable (names.map String.toLower).Nodup)

namespace Engine

theorem sameName_iff {a b : String} : sameName a b = true ↔ a.toLower = b.toLower := by
  simp only [sameName, beq_iff_eq]

theorem sameName_self (a : String) : sameName a a = true := sameName_iff.2 rfl

end Engine

open Engine (sameName_iff sameName_self)

namespace Apart

variable {names : List String}

theorem cons {name : String} : Apart (name :: names) ↔ (∀ other ∈ names, sameName name other = false) ∧ Apart names := by
  rw [Apart, List.map_cons, List.nodup_cons]
  constructor
  · rintro ⟨hnot, hrest⟩
    refine ⟨fun other hother => ?_, hrest⟩
    apply Bool.eq_false_iff.2
    intro hsame
    exact hnot (sameName_iff.1 hsame ▸ List.mem_map_of_mem hother)
  · rintro ⟨hnot, hrest⟩
    refine ⟨fun hmem => ?_, hrest⟩
    obtain ⟨other, hother, hlower⟩ := List.mem_map.1 hmem
    have hsame := hnot other hother
    rw [sameName_iff.2 hlower.symm] at hsame
    cases hsame

/-- Among names apart, a name is found at its own place. -/
theorem findIdx? {name : String} (h : Apart names) (hname : name ∈ names) :
    names.findIdx? (sameName · name) = some (names.idxOf name) := by
  induction names with
  | nil => cases hname
  | cons first rest ih =>
      obtain ⟨hfirst, hrest⟩ := Apart.cons.1 h
      by_cases heq : first = name
      · subst heq
        rw [List.findIdx?_cons, sameName_self, if_pos rfl, List.idxOf_cons_self]
      · have hmem : name ∈ rest := (List.mem_cons.1 hname).resolve_left fun e => heq e.symm
        rw [List.findIdx?_cons, hfirst name hmem, if_neg (by decide), ih hrest hmem, List.idxOf_cons_ne _ heq]
        rfl

end Apart

namespace Engine.Store

/-- No name comes twice exactly if all are apart. -/
theorem duplicateName?_eq_none {names : List String} : duplicateName? names = none ↔ Apart names := by
  have hall : duplicateName? names = none ↔
      ∀ p ∈ names.zipIdx, (names.take p.2).any (sameName p.1) = false := by
    cases names with
    | nil => simp [duplicateName?]
    | cons first rest =>
        rw [duplicateName?, Option.map_eq_none_iff, List.find?_eq_none]
        · simp
        · simp
  rw [hall, Apart, List.nodup_iff_pairwise_ne, List.pairwise_map, List.pairwise_iff_getElem]
  constructor
  · intro h i j hi hj hij hlower
    have hlast := h (names[j], j) (List.mk_mem_zipIdx_iff_getElem?.2 (List.getElem?_eq_getElem hj))
    have hmem : names[i] ∈ names.take j := List.mem_take_iff_getElem.2 ⟨i, by omega, rfl⟩
    have hsame := List.any_eq_false.1 hlast _ hmem
    exact hsame (sameName_iff.2 hlower.symm)
  · rintro h ⟨name, j⟩ hp
    rw [List.any_eq_false]
    intro other hother hsame
    obtain ⟨i, hi, rfl⟩ := List.mem_take_iff_getElem.1 hother
    have hj := List.mk_mem_zipIdx_iff_getElem?.1 hp
    obtain ⟨hlength, rfl⟩ := List.getElem?_eq_some_iff.1 hj
    exact h i j (by omega) hlength (by omega) (sameName_iff.1 hsame).symm

end Engine.Store

/-! ## The stored form of a definition -/

/-- A column as the engine keeps it. -/
def Column.stored (name : String) (column : Column) : TableColumn :=
  ⟨name, column.type.keyword, Affinity.ofDeclared column.type.keyword, !column.nullable⟩

namespace TableDefinition

variable (table : TableDefinition)

/-- The position of a column. -/
def place (column : String) : Nat := table.columnNames.idxOf column

/-- The column that numbers the rows: a key of one integer does. -/
def numberPlace? : Option Nat :=
  match table.primaryKey with
  | [column] => if (table.column? column).map Column.type = some .integer then some (table.place column) else none
  | _ => none

/-- The index that keeps a key unique, unless the key numbers the rows. -/
def keyIndexes : List TableIndex :=
  if table.primaryKey.isEmpty || table.numberPlace?.isSome then []
  else
    [{ name := "sqlite_autoindex_" ++ table.name ++ "_" ++ toString 1
       parts := table.primaryKey.map fun c => some (table.place c)
       unique := true
       origin := .primaryKey }]

/-- An index of a definition as the engine keeps it. -/
def storedIndex (index : Index) : TableIndex :=
  ⟨index.name, index.columns.map fun c => some (table.place c), index.unique, .created⟩

/-- The table of a definition with its columns alone. -/
def unkeyed : Engine.Table where
  name := table.name
  columns := table.columns.map fun p => p.2.stored p.1
  primaryKey := []
  numberColumn := none
  indexes := []
  triggers := []
  rows := []

/-- The table of a definition with some of its indexes, without rows. -/
def storedWith (indexes : List Index) : Engine.Table where
  name := table.name
  columns := table.columns.map fun p => p.2.stored p.1
  primaryKey := table.primaryKey.map table.place
  numberColumn := table.numberPlace?
  indexes := indexes.map table.storedIndex ++ table.keyIndexes
  triggers := []
  rows := []

theorem columnNames_storedWith (indexes : List Index) : (table.storedWith indexes).columnNames = table.columnNames := by
  simp only [Engine.Table.columnNames, storedWith, List.map_map, columnNames]
  rfl

end TableDefinition

namespace Engine.Store

variable {table : TableDefinition}

/-- A column is found at its place in every table that has the columns of a definition. -/
theorem position?_of_columns {t : Engine.Table} {column : String} (hcolumns : t.columnNames = table.columnNames)
    (hapart : Apart table.columnNames) (hcolumn : column ∈ table.columnNames) :
    t.position? column = some (table.place column) := by
  have hfound : t.columnNames.findIdx? (sameName · column) = some (table.place column) := by
    rw [hcolumns]
    exact hapart.findIdx? hcolumn
  rwa [Engine.Table.columnNames, List.findIdx?_map] at hfound

/-- Columns of a created table are found at their places. -/
theorem map_position? {indexes : List Index} {columns : List String} (hapart : Apart table.columnNames)
    (hknown : ∀ c ∈ columns, c ∈ table.columnNames) :
    columns.map (table.storedWith indexes).position? = columns.map fun c => some (table.place c) :=
  List.map_congr_left fun c hc => position?_of_columns (table.columnNames_storedWith indexes) hapart (hknown c hc)

theorem positionsOf_of_columns {t : Engine.Table} {called : String} {columns : List String}
    (hcolumns : t.columnNames = table.columnNames) (hapart : Apart table.columnNames)
    (hknown : ∀ c ∈ columns, c ∈ table.columnNames) :
    positionsOf t called columns = .ok (columns.map table.place) := by
  induction columns with
  | nil => rfl
  | cons c rest ih =>
      rw [List.forall_mem_cons] at hknown
      rw [positionsOf, position?_of_columns hcolumns hapart hknown.1, ih hknown.2]
      rfl

/-- Distinct names among the columns are no more than the columns. -/
theorem length_le_of_known {columns : List String} (hknown : ∀ c ∈ columns, c ∈ table.columnNames)
    (hnodup : columns.Nodup) : columns.length ≤ table.columns.length := by
  have hle := (hnodup.subperm hknown).length_le
  rwa [TableDefinition.columnNames, List.length_map] at hle

/-- A single key column numbers the rows exactly if it is declared as an integer. -/
theorem keyword_eq_integer (type : ColumnType) : (type.keyword.toUpper == "INTEGER") = decide (type = .integer) := by
  cases type <;> decide +kernel

theorem column_at_place {column : String} (hcolumn : column ∈ table.columnNames) :
    ∃ c, table.column? column = some c ∧ table.columns[table.place column]? = some (column, c) := by
  obtain ⟨⟨n, c⟩, hmem, rfl⟩ := List.mem_map.1 hcolumn
  refine ⟨c, table.column?_eq_some.2 hmem, ?_⟩
  have hname : table.columnNames[table.place n]? = some n := List.getElem?_idxOf hcolumn
  rw [TableDefinition.columnNames, List.getElem?_map, Option.map_eq_some_iff] at hname
  obtain ⟨⟨m, c'⟩, hat, rfl⟩ := hname
  -- Both are the column of the name.
  have hlookup := table.column?_eq_some.2 (List.mem_of_getElem? hat)
  rw [table.column?_eq_some.2 hmem] at hlookup
  cases hlookup
  exact hat

/-- The key of a definition makes the keyed table out of the bare one. -/
theorem addKey_unkeyed (hapart : Apart table.columnNames) (hwidth : table.columns.length ≤ maxColumns)
    (hkey : table.primaryKey.Nodup) (hne : table.primaryKey ≠ []) :
    addKey table.unkeyed ⟨true, table.primaryKey⟩ = .ok (table.storedWith []) := by
  have hlength : ¬ maxColumns < table.primaryKey.length := by
    have hle := length_le_of_known table.key_known hkey
    omega
  have hpositions : positionsOf table.unkeyed table.unkeyed.name table.primaryKey =
      .ok (table.primaryKey.map table.place) :=
    positionsOf_of_columns (table.columnNames_storedWith []) hapart table.key_known
  unfold addKey
  simp only [hlength, if_false, hpositions, bind, Except.bind]
  -- Only a key of one column can number the rows.
  rcases hkeys : table.primaryKey with _ | ⟨column, _ | ⟨second, rest⟩⟩
  · exact absurd hkeys hne
  · obtain ⟨c, hc, hat⟩ := column_at_place (table.key_known column (by simp [hkeys]))
    have hstored : table.unkeyed.columns[table.place column]? = some (c.stored column) := by
      rw [TableDefinition.unkeyed, List.getElem?_map, hat]
      rfl
    have hinteger : ((((table.unkeyed.columns[table.place column]?).map TableColumn.type).getD "").toUpper ==
        "INTEGER") = decide (c.type = .integer) := by
      rw [hstored]
      exact keyword_eq_integer c.type
    have hplace : table.numberPlace? = if c.type = .integer then some (table.place column) else none := by
      simp only [TableDefinition.numberPlace?, hkeys, hc, Option.map_some, Option.some.injEq]
    show (if (((table.unkeyed.columns[table.place column]?).map TableColumn.type).getD "").toUpper == "INTEGER" then
      Except.ok _ else Except.ok _) = _
    rw [hinteger]
    by_cases htype : c.type = .integer
    · simp only [TableDefinition.storedWith, TableDefinition.keyIndexes, hplace, hkeys, htype]
      rfl
    · simp only [TableDefinition.storedWith, TableDefinition.keyIndexes, hplace, hkeys, htype]
      rfl
  · have hplace : table.numberPlace? = none := by
      simp only [TableDefinition.numberPlace?, hkeys]
    simp only [TableDefinition.storedWith, TableDefinition.keyIndexes, hplace, hkeys, List.map_map]
    rfl

/-- The declaration of a table makes the table of its definition. -/
theorem declaredTable_bodyOf (hapart : Apart table.columnNames) (hwidth : table.columns.length ≤ maxColumns)
    (hkey : table.primaryKey.Nodup) :
    declaredTable table.name (bodyOf table.columns table.primaryKey) = .ok (table.storedWith []) := by
  have hnames : (bodyOf table.columns table.primaryKey).columns.map ColumnDeclaration.name = table.columnNames := by
    simp only [bodyOf, List.map_map]
    rfl
  have htake : table.columnNames.take maxColumns = table.columnNames := by
    apply List.take_of_length_le
    rwa [TableDefinition.columnNames, List.length_map]
  have hcount : ¬ maxColumns < (bodyOf table.columns table.primaryKey).columns.length := by
    simp only [bodyOf, List.length_map]
    omega
  have hcolumns : (bodyOf table.columns table.primaryKey).columns.map
      (fun c => (⟨c.name, c.type, Affinity.ofDeclared c.type, c.notNull⟩ : TableColumn)) = table.unkeyed.columns := by
    simp only [bodyOf, List.map_map]
    rfl
  rw [declaredTable, hnames, htake, duplicateName?_eq_none.2 hapart]
  simp only [hcount, if_false, hcolumns]
  show (keyDeclarations table.primaryKey).foldlM addKey table.unkeyed = _
  unfold keyDeclarations
  split
  · rename_i hempty
    rw [List.isEmpty_iff] at hempty
    simp only [TableDefinition.storedWith, TableDefinition.keyIndexes, TableDefinition.numberPlace?, hempty]
    rfl
  · rename_i hempty
    rw [List.isEmpty_iff] at hempty
    rw [List.foldlM_cons, addKey_unkeyed hapart hwidth hkey hempty]
    rfl

/-! ## Stores with a new table -/

variable {store : Store} {t : Engine.Table}

/-- A name that nothing in a store has, and that is not kept for the engine. -/
structure Free (store : Store) (name : String) : Prop where
  table : store.table? name = none
  index : store.index? name = none
  unreserved : isReserved name = false

theorem table?_addTable {name : String} (h : store.table? name = none) :
    (store.addTable t).table? name = if sameName t.name name then some t else none := by
  unfold table? at h ⊢
  rw [addTable, List.find?_append, h, Option.none_or, List.find?_singleton]

theorem index?_addTable {name : String} (h : store.index? name = none) :
    (store.addTable t).index? name = (t.indexes.find? fun i => sameName i.name name).map fun i => (t, i) := by
  unfold index? at h ⊢
  rw [addTable, List.findSome?_append, h, Option.none_or]
  simp only [List.findSome?_cons, List.findSome?_nil]
  split
  · rename_i found hfound
    exact hfound.symm
  · rename_i hnone
    exact hnone.symm

/-- A name that is free of a table is free without the newest one. -/
theorem table?_addTable_eq_none {name : String} :
    (store.addTable t).table? name = none ↔ store.table? name = none ∧ sameName t.name name = false := by
  unfold table?
  rw [addTable, List.find?_append, Option.or_eq_none_iff, List.find?_singleton]
  simp

theorem index?_addTable_eq_none {name : String} : (store.addTable t).index? name = none ↔
    store.index? name = none ∧ ∀ i ∈ t.indexes, sameName i.name name = false := by
  unfold index?
  rw [addTable, List.findSome?_append, Option.or_eq_none_iff]
  simp only [List.findSome?_cons, List.findSome?_nil]
  refine and_congr_right fun _ => ?_
  cases hfound : (t.indexes.find? fun i => sameName i.name name).map fun i => (t, i) with
  | none => simpa using hfound
  | some found =>
      rw [Option.map_eq_some_iff] at hfound
      obtain ⟨i, hi, -⟩ := hfound
      refine iff_of_false (by simp) fun hall => ?_
      have hsame := List.find?_some hi
      rw [hall i (List.mem_of_find?_eq_some hi)] at hsame
      cases hsame

/-- The new table is the only one of its name, so it is the one that changes. -/
theorem setTable_addTable {t' : Engine.Table} (h : store.table? t.name = none) (hname : t'.name = t.name) :
    (store.addTable t).setTable t' = store.addTable t' := by
  have hkeep : (store.tables.map fun u => if sameName u.name t.name then t' else u) = store.tables := by
    conv_rhs => rw [← List.map_id store.tables]
    apply List.map_congr_left
    intro u hu
    have hnot := List.find?_eq_none.1 h u hu
    rw [if_neg hnot]
    rfl
  simp only [setTable, addTable, List.map_append, List.map_cons, List.map_nil, hname, sameName_self, if_true, hkeep]

/-- The index of a key has a name of the engine. -/
theorem isReserved_keyIndex (name : String) :
    isReserved ("sqlite_autoindex_" ++ name ++ "_" ++ toString 1) = true := by
  have hprefix : "sqlite_autoindex_".toList.map Char.toLower = "sqlite_".toList ++ "autoindex_".toList := by decide
  have hlower : ∀ s : String, s.toLower.toList = s.toList.map Char.toLower := fun _ => String.toList_map
  rw [isReserved, hlower, String.toList_append, String.toList_append, String.toList_append, List.map_append,
    List.map_append, List.map_append, hprefix, List.append_assoc, List.append_assoc, List.append_assoc]
  exact List.isPrefixOf_iff_prefix.2 (List.prefix_append ..)

theorem isReserved_of_sameName {a b : String} (h : sameName a b = true) : isReserved a = isReserved b := by
  rw [isReserved, isReserved, sameName_iff.1 h]

/-- A table has no index under a name that is apart from those of its indexes. -/
theorem find?_indexes {indexes : List Index} {name : String} (hreserved : isReserved name = false)
    (hapart : ∀ i ∈ indexes, sameName i.name name = false) :
    (table.storedWith indexes).indexes.find? (fun i => sameName i.name name) = none := by
  rw [List.find?_eq_none]
  intro x hx
  rcases List.mem_append.1 hx with hx | hx
  · obtain ⟨i, hi, rfl⟩ := List.mem_map.1 hx
    have hname : sameName (table.storedIndex i).name name = false := hapart i hi
    rw [hname]
    decide
  · unfold TableDefinition.keyIndexes at hx
    split at hx
    · cases hx
    · rw [List.mem_singleton.1 hx]
      intro hsame
      have hkey := isReserved_of_sameName hsame
      rw [isReserved_keyIndex, hreserved] at hkey
      cases hkey

/-- Among indexes with names apart, each is found by its name. -/
theorem find?_storedIndex {indexes : List Index} {index : Index} (hapart : Apart (indexes.map Index.name))
    (hindex : index ∈ indexes) :
    (table.storedWith indexes).indexes.find? (fun i => sameName i.name index.name) = some (table.storedIndex index) := by
  have hcreated : (indexes.map table.storedIndex).find? (fun i => sameName i.name index.name) =
      some (table.storedIndex index) := by
    induction indexes with
    | nil => cases hindex
    | cons first rest ih =>
        obtain ⟨hfirst, hrest⟩ := Apart.cons.1 hapart
        rw [List.map_cons, List.find?_cons]
        rcases List.mem_cons.1 hindex with rfl | hmem
        · rw [show sameName (table.storedIndex index).name index.name = true from sameName_self _]
        · rw [show sameName (table.storedIndex first).name index.name = false from
            hfirst _ (List.mem_map_of_mem hmem)]
          exact ih hrest hmem
  show (indexes.map table.storedIndex ++ table.keyIndexes).find? _ = _
  rw [List.find?_append, hcreated, Option.some_or]

end Engine.Store

/-! ## Running declarations -/

namespace Engine.Connection

open Store (maxColumns Free declaredTable_bodyOf)

variable {table : TableDefinition} {c : Connection} {store : Store}

theorem run_createTable (hne : table.columns ≠ []) (hnames : ∀ s ∈ table.name :: table.columnNames, Sql.Unbroken s)
    (hapart : Apart table.columnNames) (hwidth : table.columns.length ≤ maxColumns) (hkey : table.primaryKey.Nodup)
    (hwrites : c.readOnly = false) (hfree : Free c.store table.name) :
    c.run table.createText [] = (.ok .empty, { c with store := c.store.addTable (table.storedWith []) }) := by
  obtain ⟨raw, offset, htext⟩ := ofText_createTable table hne hnames
  have hcheck : c.store.checkTableName table.name raw offset = .ok () := by
    simp only [Store.checkTableName, hfree.unreserved, hfree.table, hfree.index, Option.isSome_none,
      Bool.false_eq_true, if_false]
  have hplan : c.planOf table.createText [] = .ok (.createTable (table.storedWith [])) := by
    simp only [planOf, htext, bind, Except.bind, Store.plan, hcheck, declaredTable_bodyOf hapart hwidth hkey, pure,
      Except.pure, List.length_nil, if_true]
  simp only [run, hplan, Store.interrupted, Except.mapError, bind, Except.bind, execute, writing, hwrites,
    Bool.false_eq_true, if_false, pure, Except.pure]

theorem run_createIndex {indexes : List Index} {index : Index} (hne : index.columns ≠ [])
    (hnames : ∀ s ∈ table.names, Sql.Unbroken s) (hindex : index ∈ table.indexes) (hapart : Apart table.columnNames)
    (hwidth : table.columns.length ≤ maxColumns) (hnodup : index.columns.Nodup) (hwrites : c.readOnly = false)
    (hstore : c.store = store.addTable (table.storedWith indexes)) (htable : store.table? table.name = none)
    (hfree : Free store index.name) (hother : sameName table.name index.name = false)
    (hothers : ∀ i ∈ indexes, sameName i.name index.name = false) :
    c.run (index.createText table.name) [] =
      (.ok .empty, { c with store := store.addTable (table.storedWith (index :: indexes)) }) := by
  have hcolumns := table.indexes_known index hindex
  simp only [TableDefinition.names, List.forall_mem_cons, List.forall_mem_append] at hnames
  have htext := ofText_createIndex hne hnames.1 (hnames.2.2 _ (List.mem_map_of_mem hindex))
    fun column hcolumn => hnames.2.1 column (hcolumns column hcolumn)
  have hfound : c.store.table? table.name = some (table.storedWith indexes) := by
    rw [hstore, Store.table?_addTable htable]
    exact if_pos (sameName_self _)
  have hfresh : c.store.table? index.name = none := by
    rw [hstore, Store.table?_addTable hfree.table]
    exact if_neg (by rw [show (table.storedWith indexes).name = table.name from rfl, hother]; decide)
  have hnew : c.store.index? index.name = none := by
    rw [hstore, Store.index?_addTable hfree.index, Store.find?_indexes hfree.unreserved hothers]
    rfl
  have hcount : ¬ maxColumns < (index.columns.map IndexTerm.column).length := by
    have hle := Store.length_le_of_known hcolumns hnodup
    rw [List.length_map]
    omega
  have hplan : c.planOf (index.createText table.name) [] =
      .ok (.createIndex (table.storedWith indexes) (table.storedIndex index)) := by
    simp only [planOf, htext, bind, Except.bind, Store.plan, Store.declaredIndex, hfound, hfree.unreserved, hfresh, hnew,
      hcount, Option.isSome_none, Bool.false_eq_true, if_false, pure, Except.pure, List.length_nil, if_true]
    refine congrArg (fun parts => Except.ok (Plan.createIndex _ ⟨index.name, parts, index.unique, .created⟩)) ?_
    rw [List.map_map]
    exact Store.map_position? hapart hcolumns
  have hcollides : (table.storedIndex index).collides (table.storedWith indexes).rows = false := rfl
  have hset : c.store.setTable (table.storedWith (index :: indexes)) =
      store.addTable (table.storedWith (index :: indexes)) := by
    rw [hstore]
    exact Store.setTable_addTable htable rfl
  simp only [run, hplan, Store.interrupted, Except.mapError, bind, Except.bind, execute, writing, hwrites,
    Bool.false_eq_true, if_false, hcollides, pure, Except.pure]
  rw [← hset]
  rfl

end Engine.Connection

end RecordTables
