import RecordTables.Proofs.Database.Scripts
import RecordTables.Proofs.Engine.Accepted
import RecordTables.Proofs.Engine.Selected

/-!
# Tables that were ensured

Looking for a table changes nothing, and what was created has left the table of its definition.  So on a database with
nothing in it, ensuring a table creates it: what succeeds leaves the table of the definition, without rows, and the
definition is one that the engine takes.
-/

namespace RecordTables

open Engine (sameName Connection Store)
open Engine.Store (maxColumns Free)
open Session (IsCatalogQuery Scripted)
open Sql (Unbroken)

/-! ## Asking the catalog -/

namespace Database

variable {db after : Database} {c : Connection}

/-- A database on which nothing was done, but that it may have been opened and asked. -/
def Untouched (db after : Database) : Prop :=
  after = db ∨ ∃ c issued, db.live = .ok c ∧ after = { db.keep c with issued }

theorem Untouched.live (h : Untouched db after) : after.live = db.live := by
  obtain rfl | ⟨c, issued, hlive, rfl⟩ := h
  · rfl
  · exact hlive.symm

/-- A query of the catalog leaves the connection as it was. -/
theorem run_catalogQuery {i : Issued} (h : IsCatalogQuery i) (c : Connection) (parameters : List StoredValue) :
    (c.run i.text parameters).2 = c := by
  have htexts := h.2
  simp only [List.mem_cons, List.not_mem_nil, or_false] at htexts
  rcases htexts with htext | htext | htext <;> rw [htext]
  · exact Connection.run_selection_snd Connection.ofText_columnsText parameters
  · exact Connection.run_selection_snd Connection.ofText_indexesText parameters
  · exact Connection.run_selection_snd Connection.ofText_partsText parameters

/-- Asking the catalog leaves a database untouched. -/
theorem Reaches.untouched (h : Reaches IsCatalogQuery db after) : Untouched db after := by
  induction h with
  | refl db => exact .inl rfl
  | @step db after c purpose text params hlive hkind _ ih =>
      rw [run_catalogQuery hkind] at ih
      obtain rfl | ⟨c', issued, hlive', rfl⟩ := ih
      · exact .inr ⟨c, _, hlive, rfl⟩
      · rw [live_noted] at hlive'
        cases hlive'
        refine .inr ⟨c, issued, hlive, ?_⟩
        have hkeep := db.keep_keep c c
        unfold keep noted at *
        simp only [keep, Database.mk.injEq] at hkeep ⊢
        exact ⟨trivial, trivial, hkeep.2.2.1, trivial, trivial⟩

end Database

namespace Session

variable {table : TableDefinition} {db db' : Database} {c : Connection} {store : Store}

/-- Introspection leaves a database untouched, whatever it finds. -/
theorem untouched_of_introspect {name : String} {answer : Outcome (Option TableDefinition)}
    (h : perform (introspect name) db = (answer, db')) : db.Untouched db' := by
  have hreaches := (Scripted.introspect name).reaches db
  rw [h] at hreaches
  exact hreaches.untouched

/-! ## What was created -/

/-- Indexes that a store can take beside a table and other indexes of it: each has columns and a free name that does not
break off, and the names are told apart. -/
structure Placeable (store : Store) (table : TableDefinition) (done rest : List Index) : Prop where
  columns : ∀ i ∈ rest, i.columns ≠ []
  unbroken : ∀ i ∈ rest, Unbroken i.name
  free : ∀ i ∈ rest, Free store i.name
  beside : ∀ i ∈ rest, sameName table.name i.name = false ∧ ∀ d ∈ done, sameName d.name i.name = false
  apart : Apart (rest.map Index.name)

/-- One more index that was created can be placed in front of others. -/
theorem Placeable.cons {index : Index} {done rest : List Index} (hne : index.columns ≠ [])
    (hname : Unbroken index.name) (hfree : Free (store.addTable (table.storedWith done)) index.name)
    (h : Placeable store table (index :: done) rest) :
    Placeable store table done (index :: rest) := by
  obtain ⟨htable, hother⟩ := Store.table?_addTable_eq_none.1 hfree.table
  obtain ⟨hindex, hothers⟩ := Store.index?_addTable_eq_none.1 hfree.index
  refine
    { columns := List.forall_mem_cons.2 ⟨hne, h.columns⟩
      unbroken := List.forall_mem_cons.2 ⟨hname, h.unbroken⟩
      free := List.forall_mem_cons.2 ⟨⟨htable, hindex, hfree.unreserved⟩, h.free⟩
      beside := List.forall_mem_cons.2 ⟨⟨hother, fun d hd => ?_⟩, fun i hi => ⟨(h.beside i hi).1, fun d hd => ?_⟩⟩
      apart := Apart.cons.2 ⟨?_, h.apart⟩ }
  · exact hothers (table.storedIndex d) (List.mem_append_left _ (List.mem_map_of_mem hd))
  · exact (h.beside i hi).2 d (List.mem_cons_of_mem _ hd)
  · intro other hmem
    obtain ⟨i, hi, rfl⟩ := List.mem_map.1 hmem
    exact (h.beside i hi).2 index (List.mem_cons_self ..)

/-- Indexes that were created are in front of those that were there. -/
theorem of_perform_execAll_indexes {rest : List Index} {done : List Index} {count : Nat}
    (hnames : ∀ n ∈ table.name :: table.columnNames, Unbroken n) (hapart : Apart table.columnNames)
    (hknown : ∀ i ∈ rest, i ∈ table.indexes) (htable : store.table? table.name = none) (hwrites : c.readOnly = false)
    (hlive : db.live = .ok c) (hstore : c.store = store.addTable (table.storedWith done))
    (h : perform (execAll (rest.map (Index.createText table.name))) db = (.ok count, db')) :
    Placeable store table done rest ∧
      db'.live = .ok { c with store := store.addTable (table.storedWith (rest.reverse ++ done)) } := by
  induction rest generalizing db c done count with
  | nil =>
      cases h
      refine ⟨⟨List.forall_mem_nil _, List.forall_mem_nil _, List.forall_mem_nil _, List.forall_mem_nil _, .nil⟩, ?_⟩
      rw [hlive, List.reverse_nil, List.nil_append, ← hstore]
  | cons index rest ih =>
      rw [List.forall_mem_cons] at hknown
      obtain ⟨first, between, hfirst, hrest⟩ := of_perform_bind h
      obtain ⟨more, last, hmore, hlast⟩ := of_perform_bind hrest
      cases hlast
      obtain ⟨result, after, hrun, hbetween⟩ := of_perform_exec hlive hfirst
      obtain ⟨hname, hne, hfree, rfl⟩ := Connection.of_run_createIndex hnames hapart hknown.1 hwrites hstore htable hrun
      obtain ⟨hplaceable, hlast⟩ := ih (c := { c with store := store.addTable (table.storedWith (index :: done)) })
        hknown.2 hwrites hbetween rfl hmore
      rw [hstore] at hfree
      refine ⟨.cons hne hname hfree hplaceable, ?_⟩
      rw [hlast, List.reverse_cons, List.append_assoc, List.singleton_append]

/-- Creating a table leaves the table of its definition. -/
theorem of_perform_create {count : Nat} (hne : table.columns ≠ []) (hkey : table.primaryKey.Nodup)
    (hlive : db.live = .ok c) (h : perform (create table) db = (.ok count, db')) :
    c.readOnly = false ∧ Free c.store table.name ∧ (∀ n ∈ table.name :: table.columnNames, Unbroken n) ∧
      Apart table.columnNames ∧ table.columns.length ≤ maxColumns ∧ Placeable c.store table [] table.indexes ∧
      db'.live = .ok { c with store := c.store.addTable (table.storedWith table.indexes.reverse) } := by
  obtain ⟨first, between, hfirst, hrest⟩ := of_perform_bind h
  obtain ⟨more, last, hmore, hlast⟩ := of_perform_bind hrest
  cases hlast
  obtain ⟨result, after, hrun, hbetween⟩ := of_perform_exec hlive hfirst
  obtain ⟨hwrites, hfree, hnames, hapart, hwidth, rfl⟩ := Connection.of_run_createTable hne hkey hrun
  obtain ⟨hplaceable, hindexes⟩ := of_perform_execAll_indexes
    (c := { c with store := c.store.addTable (table.storedWith []) }) hnames hapart (fun _ hi => hi) hfree.table hwrites
    hbetween rfl hmore
  refine ⟨hwrites, hfree, hnames, hapart, hwidth, hplaceable, ?_⟩
  rwa [List.append_nil] at hindexes

theorem store_of_live_ofLocation {location : Location} {options : OpenOptions}
    (h : (Database.ofLocation location options).live = .ok c) : c.store = .empty := by
  cases location with
  | memory => cases h; rfl
  | unreachable path => cases h
  | file path =>
      change (if options.createIfMissing && !options.readOnly then _ else _) = _ at h
      split at h
      · cases h; rfl
      · cases h

variable {registry : Registry} {type : RecordType}

/-- A table that was ensured on a database with nothing in it was created there. -/
theorem of_perform_ensure {location : Location} {options : OpenOptions}
    (hdefinition : type.definition registry = .ok table) (hne : table.columns ≠ []) (hkey : table.primaryKey.Nodup)
    (h : perform (ensure registry type) (.ofLocation location options) = (.ok true, db)) :
    Free .empty table.name ∧ (∀ n ∈ table.name :: table.columnNames, Unbroken n) ∧ Apart table.columnNames ∧
      table.columns.length ≤ maxColumns ∧ ∃ c, db.live = .ok c ∧ c.readOnly = false ∧
        c.store = Store.empty.addTable (table.storedWith table.indexes.reverse) := by
  rw [ensure, definition, perform_liftM_bind hdefinition] at h
  obtain ⟨found, asked, hasked, hrest⟩ := of_perform_bind h
  cases hopened : (Database.ofLocation location options).live with
  | error f =>
      rw [(Asking.introspect table.name).unopened hopened] at hasked
      cases hasked
  | ok c =>
      have hempty := store_of_live_ofLocation hopened
      cases found with
      | some live =>
          dsimp only at hrest
          split at hrest <;> cases hrest
      | none =>
          have hlive := (untouched_of_introspect hasked).live.trans hopened
          obtain ⟨count, created, hcreate, hlast⟩ := of_perform_bind hrest
          cases hlast
          obtain ⟨hwrites, hfree, hnames, hapart, hwidth, -, hafter⟩ := of_perform_create hne hkey hlive hcreate
          rw [hempty] at hfree
          exact ⟨hfree, hnames, hapart, hwidth, _, hafter, hwrites, by rw [hempty]⟩

end Session

end RecordTables
