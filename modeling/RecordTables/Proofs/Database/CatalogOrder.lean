import RecordTables.Proofs.Database.Introspection
import RecordTables.Proofs.Schema.Agreeing

/-!
# Introspection in any order of rows

The engine may list the rows of its catalog in any order, and in another one each time it is asked.  Introspection sorts
what it is told by ranks, names and positions, so all ways to ask a catalog lead to one definition.
-/

namespace RecordTables

open Engine (Connection Store)
open Session (perform perform_bind perform_mapM_liftM perform_liftM_bind perform_rows_view Uncovered)
open Sql (Unbroken)

/-! ## Reading rows in any order -/

/-- What is read from rows in another order is what was read, in another order. -/
theorem mapM_of_perm {α β : Type} {f : α → Outcome β} {xs xs' : List α} (h : xs'.Perm xs) {ys : List β}
    (hread : xs.mapM f = .ok ys) : ∃ ys', xs'.mapM f = .ok ys' ∧ ys.Perm ys' := by
  obtain ⟨ys', hread', hperm⟩ := List.perm_comp_forall₂ h (Engine.mapM_eq_ok_iff.1 hread)
  exact ⟨ys', Engine.mapM_eq_ok_iff.2 hread', hperm.symm⟩

/-! ## What a catalog lists -/

/-- What a catalog lists about a table: its columns, its indexes, and by the name of an index its parts. -/
structure Listing where
  columns : List CatalogColumn
  indexes : List CatalogIndex
  parts : String → List CatalogPart

namespace Listing

variable (listing : Listing)

/-- The indexes that statements of their own created. -/
def created : List CatalogIndex := listing.indexes.filter Catalog.isCreated

/-- The columns of the key. -/
def keyed : List CatalogColumn := listing.columns.filter fun c => decide (0 < c.rank)

/-- A listing in which columns and indexes are told apart by their names, the columns of the key by their ranks, and the
parts of an index by their positions, and in which a part is a listed column unless it is an expression. -/
structure Proper : Prop where
  columns : (listing.columns.map CatalogColumn.name).Nodup
  ranks : (listing.keyed.map CatalogColumn.rank).Nodup
  indexes : (listing.indexes.map CatalogIndex.name).Nodup
  positions : ∀ i ∈ listing.created, ((listing.parts i.name).map CatalogPart.position).Nodup
  known : ∀ i ∈ listing.created, ∀ p ∈ listing.parts i.name, ∀ n, p.name = some n →
    n ∈ listing.columns.map CatalogColumn.name

/-- An index of the definition: its parts in the order of their positions, without those that have no name. -/
def IndexFor (i : CatalogIndex) (index : Index) : Prop :=
  index.name = i.name ∧ index.unique = i.unique ∧
    ∃ parts : List CatalogPart, parts.Perm (listing.parts i.name) ∧
      (parts.Pairwise fun a b => a.position < b.position) ∧ index.columns = parts.filterMap CatalogPart.name

/-- The definition that a listing describes: its columns, the key in the order of the ranks, and in the order of their
names the indexes that statements of their own created. -/
structure Describes (name : String) (table : TableDefinition) : Prop where
  name : table.name = name
  columns : ∀ n column, table.column? n = some column ↔
    ∃ c ∈ listing.columns, c.name = n ∧ column = ⟨.ofDeclared c.declared, !c.notNull⟩
  primaryKey : ∃ keyed : List CatalogColumn, keyed.Perm listing.keyed ∧
    (keyed.Pairwise fun a b => a.rank < b.rank) ∧ table.primaryKey = keyed.map CatalogColumn.name
  indexes : ∃ created : List CatalogIndex, created.Perm listing.created ∧
    (created.Pairwise fun a b => BytesBefore a.name b.name) ∧ List.Forall₂ listing.IndexFor created table.indexes

/-- The index of the definition, by way of the order in which its parts are listed. -/
def index (i : CatalogIndex) : Index := Catalog.index i (listing.parts i.name)

/-- The definition, by way of the order in which all is listed. -/
def definition (name : String) : Outcome TableDefinition :=
  TableDefinition.make name (listing.columns.map Catalog.column) (Catalog.primaryKey listing.columns)
    (listing.created.map listing.index)

end Listing

/-! ## Sorting what is listed -/

namespace Catalog

/-- The order of the columns does not matter to the key. -/
theorem primaryKey_eq_of_perm {columns columns' : List CatalogColumn}
    (hranks : ((columns.filter fun c => decide (0 < c.rank)).map CatalogColumn.rank).Nodup)
    (h : columns.Perm columns') : primaryKey columns = primaryKey columns' := by
  obtain ⟨sorted, heq, hperm, hsorted⟩ := pairwise_primaryKey columns
  obtain ⟨sorted', heq', hperm', hsorted'⟩ := pairwise_primaryKey columns'
  have hsame : sorted.Perm sorted' := (hperm.trans (h.filter _)).trans hperm'.symm
  have hnodup : (sorted.map CatalogColumn.rank).Nodup := (hperm.map _).nodup_iff.2 hranks
  have hlists : sorted = sorted' := by
    refine hsame.eq_of_pairwise (fun a b ha hb hle hge => ?_) hsorted hsorted'
    exact key_inj hnodup a ha b (hsame.mem_iff.2 hb) (Int.le_antisymm hle hge)
  rw [heq, heq', hlists]

/-- The order of the parts does not matter to an index. -/
theorem index_eq_of_perm {parts parts' : List CatalogPart} (i : CatalogIndex)
    (hpositions : (parts.map CatalogPart.position).Nodup) (h : parts.Perm parts') : index i parts = index i parts' := by
  have hsorted : sortBy CatalogPart.position parts = sortBy CatalogPart.position parts' :=
    sortBy_eq_of_perm (key_inj hpositions) h
  unfold sortBy at hsorted
  rw [index, index, hsorted]

theorem mem_primaryKey {columns : List CatalogColumn} {n : String} (h : n ∈ primaryKey columns) :
    n ∈ columns.map CatalogColumn.name := by
  obtain ⟨sorted, heq, hperm, -⟩ := pairwise_primaryKey columns
  obtain ⟨c, hc, rfl⟩ := List.mem_map.1 (heq ▸ h)
  exact List.mem_map_of_mem (List.mem_filter.1 (hperm.mem_iff.1 hc)).1

theorem map_fst_column (columns : List CatalogColumn) :
    (columns.map column).map Prod.fst = columns.map CatalogColumn.name := by
  rw [List.map_map]
  rfl

end Catalog

/-- The order of columns and indexes with distinct names does not matter to a definition. -/
theorem TableDefinition.make_of_perm {name : String} {columns columns' : List (String × Column)}
    {primaryKey : List String} {indexes indexes' : List Index} {table : TableDefinition}
    (hcolumns : columns.Perm columns') (hnames : (columns.map Prod.fst).Nodup) (hindexes : indexes.Perm indexes')
    (hdistinct : (indexes.map Index.name).Nodup) (h : make name columns primaryKey indexes = .ok table) :
    make name columns' primaryKey indexes' = .ok table := by
  obtain ⟨table', h'⟩ : ∃ table', make name columns' primaryKey indexes' = .ok table' := by
    refine make_isOk.2 fun c hc => (hcolumns.map _).mem_iff.1 (make_isOk.1 ⟨table, h⟩ c ?_)
    exact ((hindexes.flatMap_right _).append_left _).mem_iff.2 hc
  obtain ⟨hname, hcols, hkey, hidx⟩ := of_make h
  obtain ⟨hname', hcols', hkey', hidx'⟩ := of_make h'
  rw [h']
  refine congrArg _ (eq_of_fields (hname'.trans hname.symm) ?_ (hkey'.trans hkey.symm) ?_)
  · rw [hcols, hcols', ascendingBy_eq_of_perm hnames hcolumns]
  · rw [hidx, hidx', (sortIndexes_eq_iff_perm hdistinct).2 hindexes]

namespace Listing

variable {listing : Listing}

theorem map_name_index (created : List CatalogIndex) :
    (created.map listing.index).map Index.name = created.map CatalogIndex.name := by
  rw [List.map_map]
  rfl

theorem Proper.created (h : listing.Proper) : (listing.created.map CatalogIndex.name).Nodup :=
  h.indexes.sublist (List.filter_sublist.map _)

/-- Nothing that a proper listing names is unknown. -/
theorem Proper.definition_isOk (h : listing.Proper) (name : String) : ∃ table, listing.definition name = .ok table := by
  refine TableDefinition.make_isOk.2 fun c hc => ?_
  rw [Catalog.map_fst_column]
  rcases List.mem_append.1 hc with hc | hc
  · exact Catalog.mem_primaryKey hc
  · obtain ⟨index, hindex, hc⟩ := List.mem_flatMap.1 hc
    obtain ⟨i, hi, rfl⟩ := List.mem_map.1 hindex
    obtain ⟨p, hp, hname⟩ := List.mem_filterMap.1 hc
    exact h.known i hi p ((List.mergeSort_perm ..).mem_iff.1 hp) c hname

theorem Proper.indexFor (h : listing.Proper) {i : CatalogIndex} (hi : i ∈ listing.created) :
    listing.IndexFor i (listing.index i) := by
  have hperm := sortBy_perm CatalogPart.position (listing.parts i.name)
  refine ⟨rfl, rfl, sortBy CatalogPart.position (listing.parts i.name), hperm, ?_, rfl⟩
  exact pairwise_lt_of_nodup ((hperm.map _).nodup_iff.2 (h.positions i hi)) (pairwise_sortBy _)

/-- The definition that is put together is the one that the listing describes. -/
theorem Proper.describes (h : listing.Proper) {name : String} {table : TableDefinition}
    (htable : listing.definition name = .ok table) : listing.Describes name table := by
  obtain ⟨hname, hcolumns, hkey, hindexes⟩ := TableDefinition.of_make htable
  refine ⟨hname, fun n column => ?_, ?_, ?_⟩
  · have hnodup : ((listing.columns.map Catalog.column).map Prod.fst).Nodup := by
      rw [Catalog.map_fst_column]
      exact h.columns
    rw [table.column?_eq_some, hcolumns, mem_ascendingBy hnodup, List.mem_map]
    refine exists_congr fun c => and_congr_right fun _ => ?_
    rw [Catalog.column, Prod.mk.injEq, @eq_comm _ column]
  · obtain ⟨keyed, hkeyed, hperm, hsorted⟩ := Catalog.pairwise_primaryKey listing.columns
    exact ⟨keyed, hperm, pairwise_lt_of_nodup ((hperm.map _).nodup_iff.2 h.ranks) hsorted, hkey.trans hkeyed⟩
  · have hperm := sortBy_perm CatalogIndex.name listing.created
    refine ⟨sortBy CatalogIndex.name listing.created, hperm, ?_, ?_⟩
    · have hnodup : ((sortBy CatalogIndex.name listing.created).map CatalogIndex.name).Nodup :=
        (hperm.map _).nodup_iff.2 h.created
      exact (pairwise_lt_of_nodup hnodup (pairwise_sortBy _)).imp bytesBefore_of_lt
    · have hmap : sortIndexes (listing.created.map listing.index) =
          (sortBy CatalogIndex.name listing.created).map listing.index :=
        (List.map_mergeSort (f := listing.index) fun _ _ _ _ => rfl).symm
      rw [hindexes, hmap, List.forall₂_map_right_iff, List.forall₂_same]
      exact fun i hi => h.indexFor (hperm.mem_iff.1 hi)

/-- The definition of a proper listing is found in any order of what is listed. -/
theorem Proper.definition_of_perm (h : listing.Proper) {name : String} {columns : List CatalogColumn}
    {indexes : List (CatalogIndex × List CatalogPart)} (hcolumns : listing.columns.Perm columns)
    (hindexes : listing.created.Perm (indexes.map Prod.fst))
    (hparts : ∀ p ∈ indexes, (listing.parts p.1.name).Perm p.2) :
    Catalog.definition name columns indexes = listing.definition name := by
  have hcreated : ∀ p ∈ indexes, p.1 ∈ listing.created := fun p hp => hindexes.mem_iff.2 (List.mem_map_of_mem hp)
  have hlisted : ((indexes.filter fun p => Catalog.isCreated p.1).map fun p => Catalog.index p.1 p.2) =
      (indexes.map Prod.fst).map listing.index := by
    rw [List.filter_eq_self.2 fun p hp => (List.mem_filter.1 (hcreated p hp)).2, List.map_map]
    exact List.map_congr_left fun p hp =>
      (Catalog.index_eq_of_perm p.1 (h.positions p.1 (hcreated p hp)) (hparts p hp)).symm
  obtain ⟨table, htable⟩ := h.definition_isOk name
  unfold Catalog.definition
  rw [hlisted, ← Catalog.primaryKey_eq_of_perm h.ranks hcolumns, htable]
  refine TableDefinition.make_of_perm (hcolumns.map _) ?_ (hindexes.map _) ?_ htable
  · rw [Catalog.map_fst_column]
    exact h.columns
  · rw [map_name_index]
    exact h.created

end Listing

/-! ## Asking -/

/-- The rows that a catalog has about a table, in no order that matters. -/
structure CatalogRows where
  columns : List Row
  indexes : List Row
  parts : String → List Row

/-- Rows that read as a listing; of an index that no statement of its own created, the parts are left alone. -/
structure CatalogRows.Reads (catalog : CatalogRows) (listing : Listing) : Prop where
  columns : catalog.columns.mapM Catalog.columnOf = .ok listing.columns
  indexes : catalog.indexes.mapM Catalog.indexOf = .ok listing.indexes
  parts : ∀ i ∈ listing.created, (catalog.parts i.name).mapM Catalog.partOf = .ok (listing.parts i.name)

namespace Session

open Catalog (columnsText indexesText partsText)

/-- The parts of each index, as a way to ask tells them. -/
def indexPartsWith (ask : String → List Value → Session (List Row)) :
    List CatalogIndex → Session (List (CatalogIndex × List CatalogPart))
  | [] => return []
  | i :: rest => do
      let listed ← ask partsText [.text i.name]
      let parts ← listed.mapM fun row => liftM (Catalog.partOf row)
      return (i, parts) :: (← indexPartsWith ask rest)

/-- Introspection by any way to ask. -/
def introspectWith (ask : String → List Value → Session (List Row)) (name : String) :
    Session (Option TableDefinition) := do
  let columns ← (← ask columnsText [.text name]).mapM fun row => liftM (Catalog.columnOf row)
  if columns.isEmpty then return none
  else
    let listed ← (← ask indexesText [.text name]).mapM fun row => liftM (Catalog.indexOf row)
    let indexes ← indexPartsWith ask (listed.filter Catalog.isCreated)
    return some (← liftM (Catalog.definition name columns indexes))

theorem indexParts_eq_indexPartsWith : indexParts = indexPartsWith rows := by
  funext indexes
  induction indexes with
  | nil => rfl
  | cons i rest ih => rw [indexParts, indexPartsWith, ih]

/-- A session asks the engine. -/
theorem introspect_eq_introspectWith : introspect = introspectWith rows := by
  funext name
  rw [introspect, introspectWith, indexParts_eq_indexPartsWith]

/-- As long as a database stays in a state, a question is answered with certain rows, each time in any order. -/
def Answered (question : Session (List Row)) (stays : Database → Prop) (rows : List Row) : Prop :=
  ∀ db, stays db → ∃ answer after, perform question db = (.ok answer, after) ∧ stays after ∧ answer.Perm rows

/-- A way to ask that answers the questions about a table with the rows of a catalog. -/
structure Answers (ask : String → List Value → Session (List Row)) (stays : Database → Prop) (name : String)
    (catalog : CatalogRows) (listing : Listing) : Prop where
  columns : Answered (ask columnsText [.text name]) stays catalog.columns
  indexes : Answered (ask indexesText [.text name]) stays catalog.indexes
  parts : ∀ i ∈ listing.created, Answered (ask partsText [.text i.name]) stays (catalog.parts i.name)

variable {ask : String → List Value → Session (List Row)} {stays : Database → Prop} {name : String}
  {catalog : CatalogRows} {listing : Listing} {db : Database}

/-- What is read from the rows of an answer is what the catalog lists, in any order. -/
theorem Answered.read {α : Type} {question : Session (List Row)} {asked : List Row} (h : Answered question stays asked)
    {f : Row → Outcome α} {xs : List α} (hread : asked.mapM f = .ok xs) (hdb : stays db) :
    ∃ xs' after, perform (do let rows ← question; rows.mapM fun row => liftM (f row)) db = (.ok xs', after) ∧
      stays after ∧ xs.Perm xs' := by
  obtain ⟨answer, after, hanswer, hstays, hperm⟩ := h db hdb
  obtain ⟨xs', hxs', hsame⟩ := mapM_of_perm hperm hread
  exact ⟨xs', after, (perform_bind hanswer).trans (perform_mapM_liftM hxs'), hstays, hsame⟩

/-- The parts of created indexes are told index by index. -/
theorem perform_indexPartsWith (h : Answers ask stays name catalog listing) (hreads : catalog.Reads listing)
    {indexes : List CatalogIndex} (hcreated : ∀ i ∈ indexes, i ∈ listing.created) (hdb : stays db) :
    ∃ told after, perform (indexPartsWith ask indexes) db = (.ok told, after) ∧ told.map Prod.fst = indexes ∧
      ∀ p ∈ told, (listing.parts p.1.name).Perm p.2 := by
  induction indexes generalizing db with
  | nil => exact ⟨[], db, rfl, rfl, List.forall_mem_nil _⟩
  | cons i rest ih =>
      rw [List.forall_mem_cons] at hcreated
      obtain ⟨parts, between, hparts, hstays, hperm⟩ :=
        (h.parts i hcreated.1).read (hreads.parts i hcreated.1) hdb
      obtain ⟨told, after, hrest, hfst, hall⟩ := ih hcreated.2 hstays
      refine ⟨(i, parts) :: told, after, ?_, by rw [List.map_cons, hfst], List.forall_mem_cons.2 ⟨hperm, hall⟩⟩
      rw [indexPartsWith, ← bind_assoc, perform_bind hparts, perform_bind hrest]
      rfl

/-- What introspection tells of a catalog follows from what is listed. -/
theorem perform_introspectWith (h : Answers ask stays name catalog listing) (hreads : catalog.Reads listing)
    (hproper : listing.Proper) (hdb : stays db) :
    (perform (introspectWith ask name) db).1 =
      if listing.columns = [] then .ok none else (listing.definition name).map some := by
  obtain ⟨columns, first, hcolumns, hfirst, hcolumnsPerm⟩ := h.columns.read hreads.columns hdb
  rw [introspectWith, ← bind_assoc, perform_bind hcolumns]
  by_cases hempty : listing.columns = []
  · have hnone : columns = [] := (hempty ▸ hcolumnsPerm).nil_eq.symm
    rw [if_pos hempty, hnone]
    rfl
  · have hsome : columns.isEmpty = false :=
      List.isEmpty_eq_false_iff.2 fun hnone => hempty (hnone ▸ hcolumnsPerm).eq_nil
    obtain ⟨indexes, second, hindexes, hsecond, hindexesPerm⟩ := h.indexes.read hreads.indexes hfirst
    have hcreated := hindexesPerm.filter Catalog.isCreated
    obtain ⟨told, third, htold, hfst, hparts⟩ := perform_indexPartsWith h hreads
      (fun i (hi : i ∈ indexes.filter Catalog.isCreated) => hcreated.mem_iff.2 hi) hsecond
    have hdefinition : Catalog.definition name columns told = listing.definition name :=
      hproper.definition_of_perm hcolumnsPerm (hfst ▸ hcreated) hparts
    obtain ⟨table, htable⟩ := hproper.definition_isOk name
    simp only [hsome, Bool.false_eq_true, if_false, if_neg hempty]
    rw [← bind_assoc, perform_bind hindexes, perform_bind htold, perform_liftM_bind (hdefinition.trans htable), htable]
    rfl

/-! ## The engine -/

/-- The rows that a store has about a table. -/
def catalogOf (store : Store) (name : String) : CatalogRows where
  columns := (store.columnRows name).map (Catalog.rowOf [("name", 1), ("type", 2), ("notnull", 3), ("pk", 5)])
  indexes := (store.indexRows name).map (Catalog.rowOf [("name", 1), ("unique", 2), ("origin", 3)])
  parts index := (store.partRows index).map (Catalog.rowOf [("seqno", 0), ("name", 2)])

/-- The engine answers with the rows that its store has. -/
theorem answers_rows {c : Connection} (hviews : Uncovered c.store) (hname : Unbroken name)
    (hindexes : ∀ i ∈ listing.created, Unbroken i.name) :
    Answers rows (fun db => db.live = .ok c) name (catalogOf c.store name) listing where
  columns _ hdb := by
    obtain ⟨after, hrows, hafter⟩ := perform_rows_view hname hdb (Connection.planOf_columnsText hviews.columns)
    exact ⟨_, after, hrows, hafter, .refl _⟩
  indexes _ hdb := by
    obtain ⟨after, hrows, hafter⟩ := perform_rows_view hname hdb (Connection.planOf_indexesText hviews.indexes)
    exact ⟨_, after, hrows, hafter, .refl _⟩
  parts i hi _ hdb := by
    obtain ⟨after, hrows, hafter⟩ := perform_rows_view (hindexes i hi) hdb (Connection.planOf_partsText hviews.parts)
    exact ⟨_, after, hrows, hafter, .refl _⟩

/-- A way to ask that turns the rows of each answer around. -/
def reversed (ask : String → List Value → Session (List Row)) (text : String) (params : List Value) :
    Session (List Row) := do
  return (← ask text params).reverse

theorem Answered.reversed {text : String} {params : List Value} {asked : List Row}
    (h : Answered (ask text params) stays asked) : Answered (reversed ask text params) stays asked := by
  intro db hdb
  obtain ⟨answer, after, hanswer, hstays, hperm⟩ := h db hdb
  refine ⟨answer.reverse, after, ?_, hstays, (List.reverse_perm answer).trans hperm⟩
  rw [Session.reversed, perform_bind hanswer]
  rfl

theorem Answers.reversed (h : Answers ask stays name catalog listing) :
    Answers (reversed ask) stays name catalog listing :=
  ⟨h.columns.reversed, h.indexes.reversed, fun i hi => (h.parts i hi).reversed⟩

/-! ## The result -/

/-- Introspection does not depend on the order in which the catalog lists its rows: two ways to ask that answer with the
same rows lead to one definition, the one that the rows describe, and to none exactly if there are no columns. -/
theorem introspect_orderless {ask' : String → List Value → Session (List Row)} {stays' : Database → Prop}
    {db' : Database} (hreads : catalog.Reads listing) (hproper : listing.Proper)
    (h : Answers ask stays name catalog listing) (hdb : stays db) (h' : Answers ask' stays' name catalog listing)
    (hdb' : stays' db') :
    introspect = introspectWith rows ∧ ∃ found : Option TableDefinition,
      (perform (introspectWith ask name) db).1 = .ok found ∧ (perform (introspectWith ask' name) db').1 = .ok found ∧
      (found = none ↔ listing.columns = []) ∧ ∀ table, found = some table → listing.Describes name table := by
  refine ⟨introspect_eq_introspectWith, ?_⟩
  rw [perform_introspectWith h hreads hproper hdb, perform_introspectWith h' hreads hproper hdb']
  by_cases hempty : listing.columns = []
  · refine ⟨none, if_pos hempty, if_pos hempty, iff_of_true rfl hempty, fun table hsome => ?_⟩
    cases hsome
  · obtain ⟨table, htable⟩ := hproper.definition_isOk name
    rw [if_neg hempty, htable]
    refine ⟨some table, rfl, rfl, iff_of_false (Option.some_ne_none table) hempty, fun table' hsome => ?_⟩
    cases hsome
    exact hproper.describes htable

/-- A connection to a store with the table of letters and its index. -/
def lettersConnection : Connection :=
  .ofStore (Store.empty.addTable (letters.storedWith letters.indexes.reverse)) false true

def lettersDatabase : Database := (Database.ofLocation .memory {}).keep lettersConnection

/-- What the catalog lists there: the engine made the second index for the key. -/
def lettersListing : Listing where
  columns := [⟨"body", "BLOB", false, 0⟩, ⟨"number", "INTEGER", true, 2⟩, ⟨"sender", "TEXT", true, 1⟩]
  indexes := (letters.storedWith letters.indexes.reverse).indexes.map Engine.TableIndex.listed
  parts _ := [⟨0, some "number"⟩, ⟨1, some "body"⟩]

theorem reads_letters : (catalogOf lettersConnection.store letters.name).Reads lettersListing where
  columns := by decide +kernel
  indexes := by decide +kernel
  parts := by decide +kernel

theorem proper_letters : lettersListing.Proper where
  columns := by decide +kernel
  ranks := by decide +kernel
  indexes := by decide +kernel
  positions := by decide +kernel
  known := by decide +kernel

theorem uncovered_letters : Uncovered lettersConnection.store := uncovered_of_tables (by decide +kernel)

theorem answers_letters :
    Answers rows (fun db => db.live = .ok lettersConnection) letters.name
      (catalogOf lettersConnection.store letters.name) lettersListing :=
  answers_rows uncovered_letters (by decide +kernel) (by decide +kernel)

/-- The table of letters is found, also where the engine turns all of its answers around. -/
theorem introspect_orderless_letters :
    (perform (introspect letters.name) lettersDatabase).1 = .ok (some letters) ∧
      (perform (introspectWith (reversed rows) letters.name) lettersDatabase).1 = .ok (some letters) := by
  have hlive : lettersDatabase.live = .ok lettersConnection := rfl
  obtain ⟨after, hfound, -⟩ := perform_introspect creatable_letters hlive uncovered_letters.columns
    uncovered_letters.indexes (fun _ => uncovered_letters.parts) rfl
  obtain ⟨hengine, found, hrows, hreversed, -, -⟩ :=
    introspect_orderless reads_letters proper_letters answers_letters hlive answers_letters.reversed hlive
  rw [← hengine, hfound] at hrows
  cases hrows
  exact ⟨congrArg Prod.fst hfound, hreversed⟩

end Session

end RecordTables
