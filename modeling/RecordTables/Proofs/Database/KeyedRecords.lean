import Mathlib.Data.Finmap
import RecordTables.Proofs.Database.Ensured
import RecordTables.Proofs.Database.Introspection
import RecordTables.Proofs.Database.RecordKeys
import RecordTables.Proofs.Engine.KeyedStatements

/-!
# A keyed table as a map

A table with a key holds the records of a map, each under its key.  Inserting, updating, deleting and selecting records
answers as the map does.
-/

namespace RecordTables

open Engine (Connection NumberedRow Store)
open Session (perform perform_bind perform_bind_error perform_liftM_bind perform_exec perform_exec_error perform_rows)

/-! ## A map of records -/

/-- Records under their keys. -/
abbrev Records := Finmap fun _ : List Value => Datum

/-- What a step on a map of records answers, and the map after it. -/
inductive Answered (key : Datum → List Value) (m : Records) : RecordStep → Outcome Answer → Records → Prop where
  | inserted {r : Datum} (h : key r ∉ m) : Answered key m (.insert r) (.ok (.count 1)) (m.insert (key r) r)
  | occupied {r : Datum} {code : Int} {text : String} (h : key r ∈ m) :
      Answered key m (.insert r) (.error (.engine code text)) m
  | updated {r : Datum} (h : key r ∈ m) : Answered key m (.update r) (.ok (.count 1)) (m.insert (key r) r)
  | unmatched {r : Datum} (h : key r ∉ m) : Answered key m (.update r) (.ok (.count 0)) m
  | deleted {r : Datum} (h : key r ∈ m) : Answered key m (.delete r) (.ok (.count 1)) (m.erase (key r))
  | missed {r : Datum} (h : key r ∉ m) : Answered key m (.delete r) (.ok (.count 0)) m
  | selected {found : List Datum} (h : (found : Multiset Datum) = m.entries.map Sigma.snd) :
      Answered key m (.select .empty) (.ok (.records found)) m

/-- What is put under a key does not depend on what was there. -/
theorem Records.insert_erase (m : Records) (key : List Value) (r : Datum) :
    (m.erase key).insert key r = m.insert key r := by
  apply Finmap.ext_lookup
  intro k
  by_cases hk : k = key
  · rw [hk, Finmap.lookup_insert, Finmap.lookup_insert]
  · rw [Finmap.lookup_insert_of_ne _ hk, Finmap.lookup_insert_of_ne _ hk, Finmap.lookup_erase_ne hk]

theorem Records.insert_of_lookup {m : Records} {key : List Value} {r : Datum} (h : m.lookup key = some r) :
    m.insert key r = m := by
  apply Finmap.ext_lookup
  intro k
  by_cases hk : k = key
  · rw [hk, Finmap.lookup_insert, h]
  · rw [Finmap.lookup_insert_of_ne _ hk]

variable {registry : Registry} {type : RecordType} {table : TableDefinition} {r : Datum} {m : Records}
  {rows : List NumberedRow}

namespace RecordType.Storable

/-- The table keeps the row of a record. -/
theorem kept (hkey : type.HasKey registry table) (h : type.Storable table r) : ∃ row, r.encodeWith table = .ok row ∧
    table.storedCells row = table.cellsOf r ∧ Kept table type r row := by
  obtain ⟨name, strict, fields, hshape, hsuits⟩ := hkey.fields
  obtain ⟨row, hrow, hsteady⟩ := h.written
  refine ⟨row, hrow, ?_, kept_of_encode hshape hkey.plain hkey.definition hsuits h.value h.whole hrow hsteady⟩
  rw [TableDefinition.cellsOf, hrow]

theorem keyValues_cellsOf_inj {r' : Datum} (h : type.Storable table r) (h' : type.Storable table r') :
    table.keyValues (table.cellsOf r) = table.keyValues (table.cellsOf r') ↔ table.keyOf r = table.keyOf r' := by
  obtain ⟨row, hrow, hsteady⟩ := h.written
  obtain ⟨row', hrow', hsteady'⟩ := h'.written
  simp only [TableDefinition.cellsOf, TableDefinition.keyOf, hrow, hrow']
  exact TableDefinition.keyValues_storedCells_inj hsteady hsteady'

theorem decode_cellsOf (hkey : type.HasKey registry table) (h : type.Storable table r) :
    type.decode (table.rowOfCells (table.cellsOf r)) = .ok r := by
  obtain ⟨row, -, hcells, hkept⟩ := h.kept hkey
  rw [← hcells]
  exact hkept.decodes

end RecordType.Storable

/-- The rows of a table are the records of a map, each under its own key. -/
structure RecordType.Stores (type : RecordType) (table : TableDefinition) (rows : List NumberedRow) (m : Records) :
    Prop where
  cells : ((rows.map NumberedRow.values : List (List StoredValue)) : Multiset (List StoredValue)) =
    m.entries.map fun e => table.cellsOf e.2
  own : ∀ e ∈ m.entries, table.keyOf e.2 = e.1 ∧ type.Storable table e.2

namespace RecordType.Stores

theorem empty : type.Stores table [] ∅ := ⟨rfl, fun e he => absurd he (Multiset.notMem_zero e)⟩

theorem length_rows (h : type.Stores table rows m) : rows.length = m.entries.card := by
  have hcard := congrArg Multiset.card h.cells
  rwa [Multiset.coe_card, List.length_map, Multiset.card_map] at hcard

/-- A key is in the map exactly if some row has it. -/
theorem mem_iff (h : type.Stores table rows m) (hr : type.Storable table r) :
    table.keyOf r ∈ m ↔ ∃ row ∈ rows, table.keyValues row.values = table.keyValues (table.cellsOf r) := by
  constructor
  · intro hmem
    obtain ⟨r', hr'⟩ := Finmap.mem_iff.1 hmem
    have hentry := Finmap.lookup_eq_some_iff.1 hr'
    obtain ⟨hown, hstorable⟩ := h.own _ hentry
    have hcells : table.cellsOf r' ∈ rows.map NumberedRow.values := by
      rw [← Multiset.mem_coe, h.cells]
      exact Multiset.mem_map_of_mem (fun e => table.cellsOf e.2) hentry
    obtain ⟨row, hrow, hvalues⟩ := List.mem_map.1 hcells
    exact ⟨row, hrow, by rw [hvalues]; exact (hstorable.keyValues_cellsOf_inj hr).2 hown⟩
  · rintro ⟨row, hrow, hsame⟩
    have hcells : row.values ∈ m.entries.map fun e => table.cellsOf e.2 := by
      rw [← h.cells, Multiset.mem_coe]
      exact List.mem_map_of_mem hrow
    obtain ⟨⟨k, r'⟩, hentry, hvalues⟩ := Multiset.mem_map.1 hcells
    obtain ⟨hown, hstorable⟩ := h.own _ hentry
    rw [← hvalues] at hsame
    have hkeys : k = table.keyOf r := hown.symm.trans ((hstorable.keyValues_cellsOf_inj hr).1 hsame)
    exact Finmap.mem_of_lookup_eq_some (Finmap.lookup_eq_some_iff.2 (hkeys ▸ hentry))

/-- No row has a key that is not in the map. -/
theorem absent (h : type.Stores table rows m) (hr : type.Storable table r) (hnew : table.keyOf r ∉ m) :
    ∀ row ∈ rows, table.keyValues row.values ≠ table.keyValues (table.cellsOf r) :=
  fun row hrow hsame => hnew ((h.mem_iff hr).2 ⟨row, hrow, hsame⟩)

/-- A record with a new key is added. -/
theorem insert (h : type.Stores table rows m) (hr : type.Storable table r) (hnew : table.keyOf r ∉ m)
    {rows' : List NumberedRow} (hperm : (rows'.map NumberedRow.values).Perm
      (table.cellsOf r :: rows.map NumberedRow.values)) :
    type.Stores table rows' (m.insert (table.keyOf r) r) where
  cells := by
    rw [Finmap.entries_insert_of_notMem hnew, Multiset.map_cons, ← h.cells, Multiset.cons_coe]
    exact Multiset.coe_eq_coe.2 hperm
  own := fun e he => by
    rw [Finmap.entries_insert_of_notMem hnew, Multiset.mem_cons] at he
    rcases he with rfl | he
    · exact ⟨rfl, hr⟩
    · exact h.own e he

/-- Without the row of a key, what is left of the map is stored. -/
theorem erase (h : type.Stores table rows m) (hrows : table.Holds rows) (hr : type.Storable table r) {old : NumberedRow}
    (hold : old ∈ rows) (hsame : table.keyValues old.values = table.keyValues (table.cellsOf r)) :
    type.Stores table (rows.filter (·.number != old.number)) (m.erase (table.keyOf r)) := by
  obtain ⟨r', hr'⟩ := Finmap.mem_iff.1 ((h.mem_iff hr).2 ⟨old, hold, hsame⟩)
  have hentry := Finmap.lookup_eq_some_iff.1 hr'
  obtain ⟨hown, hstorable⟩ := h.own _ hentry
  have hentries : m.entries = ⟨table.keyOf r, r'⟩ ::ₘ (m.erase (table.keyOf r)).entries := by
    rw [← Finmap.entries_insert_of_notMem Finmap.notMem_erase_self, m.insert_erase, Records.insert_of_lookup hr']
  -- The row of the key is that of the record under it, as both have the same key.
  have hvalues : old.values = table.cellsOf r' := by
    have hcells : table.cellsOf r' ∈ rows.map NumberedRow.values := by
      rw [← Multiset.mem_coe, h.cells]
      exact Multiset.mem_map_of_mem (fun e => table.cellsOf e.2) hentry
    obtain ⟨row, hrow, hvalues⟩ := List.mem_map.1 hcells
    rw [← hvalues, hrows.eq_of_key hold hrow]
    rw [hsame, hvalues]
    exact (hr.keyValues_cellsOf_inj hstorable).2 hown.symm
  refine ⟨?_, fun e he => h.own e (by rw [hentries]; exact Multiset.mem_cons_of_mem he)⟩
  have hperm := Multiset.coe_eq_coe.2 ((hrows.perm_cons_filter hold).map NumberedRow.values)
  rw [h.cells, hentries, Multiset.map_cons, List.map_cons, ← Multiset.cons_coe, hvalues] at hperm
  exact (Multiset.cons_inj_right _).1 hperm.symm

end RecordType.Stores

/-! ## Steps -/

/-- A database in which the table of a type stores the records of a map. -/
def RecordType.Represents (type : RecordType) (store : Store) (table : TableDefinition) (db : Database) (m : Records) :
    Prop :=
  ∃ c rows, db.live = .ok c ∧ c.Serves store table rows ∧ type.Stores table rows m

namespace RecordStep

variable {db : Database} {store : Store} {c after : Connection} {row : Row}

/-- The steps of a map: on records that can be stored, and the selection of all of them. -/
def OnMap (type : RecordType) (table : TableDefinition) : RecordStep → Prop
  | .insert r => type.Storable table r
  | .update r => type.Storable table r
  | .delete r => type.Storable table r
  | .select q => q = .empty
  | _ => False

/-- A change that is asked for is answered with the count of its rows. -/
theorem perform_ask_change {command : Sql.Command} {s : Sql.Statement} {result : Engine.Result} {count : Nat}
    (hs : command.statement? = some s) (hchange : ∀ t q, command ≠ .select t q) (hlive : db.live = .ok c)
    (hrun : c.run s.text (s.params.map Value.bound) = (.ok result, after)) (hcount : c.changed after = count) :
    perform (ask type (some command)) db =
      (.ok (.count count), db.noted ⟨.exec, s.text, s.params.length⟩ after) := by
  have hexec : perform (Session.execute s) db = _ := perform_exec hlive hrun
  subst hcount
  cases command with
  | select t q => exact absurd rfl (hchange t q)
  | insert | update | delete =>
      simp only [ask, hs]
      rw [perform_bind hexec]
      rfl

theorem perform_ask_refused {command : Sql.Command} {s : Sql.Statement} {f : Engine.Failure}
    (hs : command.statement? = some s) (hchange : ∀ t q, command ≠ .select t q) (hlive : db.live = .ok c)
    (hrun : c.run s.text (s.params.map Value.bound) = (.error f, after)) :
    perform (ask type (some command)) db =
      (.error (Session.engineError s.text f), db.noted ⟨.exec, s.text, s.params.length⟩ after) := by
  have hexec : perform (Session.execute s) db = _ := perform_exec_error hlive hrun
  cases command with
  | select t q => exact absurd rfl (hchange t q)
  | insert | update | delete =>
      simp only [ask, hs]
      exact perform_bind_error hexec

theorem answered_insert (hkey : type.HasKey registry table) (hserved : table.Served store)
    (hdb : type.Represents store table db m) (hroom : m.entries.card < 2 ^ 64) (hr : type.Storable table r) :
    ∃ answer after m', perform ((RecordStep.insert r).run registry type) db = (answer, after) ∧
      Answered table.keyOf m (.insert r) answer m' ∧ type.Represents store table after m' := by
  obtain ⟨c, rows, hlive, hserves, hstores⟩ := hdb
  obtain ⟨row, hrow, hcells, hkept⟩ := hr.kept hkey
  have hparameters : (Sql.Statement.insert table.name row).params.map Value.bound =
      row.names.map (table.valueAt (table.storedCells row)) :=
    TableDefinition.map_bound_entries (fun _ he => he) fun n hn => (hkept.names n).1 hn
  rw [run_eq, perform_liftM_bind (plan_insert hkey.definition hrow)]
  by_cases hmem : table.keyOf r ∈ m
  · have hpresent := (hstores.mem_iff hr).1 hmem
    rw [← hcells] at hpresent
    obtain ⟨f, hrun⟩ := Connection.run_insert_of_present hserved hserves hkept.names hkept.keeps hparameters hpresent
    exact ⟨_, _, m, perform_ask_refused rfl (fun _ _ h => by cases h) hlive hrun, .occupied hmem, c, rows, rfl, hserves,
      hstores⟩
  · have habsent := hstores.absent hr hmem
    rw [← hcells] at habsent
    obtain ⟨after, rows', hrun, hserves', hcount, hperm⟩ := Connection.run_insert_of_absent hserved hserves hkept.names
      hkept.keeps hparameters (hstores.length_rows ▸ hroom) habsent
    rw [hcells] at hperm
    have hanswer := @perform_ask_change type db c after (.insert table.name row) _ _ _ rfl (fun _ _ h => by cases h) hlive
      hrun hcount
    exact ⟨_, _, _, hanswer, .inserted hmem, after, rows', rfl, hserves', hstores.insert hr hmem hperm⟩

/-- The condition on the key of a record that is kept. -/
theorem keyPredicate_of_kept (hkeyed : table.Keyed) (hkept : RecordType.Kept table type r row) :
    ∃ p, Session.keyPredicate table (table.primaryKey.map fun n => Session.keyTerm n (row.get? n)) = .ok p ∧
      p.tokens = Engine.keyTokens table.primaryKey ∧ p.columns = table.primaryKey ∧ p.params = table.keyOfRow row := by
  refine Session.keyPredicate_row hkeyed.keyed fun n hn => ?_
  obtain ⟨v, hv, hexact⟩ := hkeyed.isExact hkept.keeps hn
  have hbound := @TableDefinition.valueAt_storedCells table row n (table.key_known n hn)
  rw [TableDefinition.valueAt, hv, Option.getD_some] at hbound
  cases hvalue : (row.get? n).getD .null with
  | null =>
      rw [hvalue] at hbound
      rw [hbound] at hexact
      cases hexact
  | _ => rfl

theorem mem_names_takeKey {key : List String} {n : String} :
    n ∈ (Session.takeKey key row).2.names ↔ n ∈ row.names ∧ n ∉ key := by
  rw [Row.names, Session.entries_takeKey, Row.names, List.mem_map, List.mem_map]
  constructor
  · rintro ⟨e, he, rfl⟩
    obtain ⟨he, hnot⟩ := List.mem_filter.1 he
    exact ⟨⟨e, he, rfl⟩, of_decide_eq_true hnot⟩
  · rintro ⟨⟨e, he, rfl⟩, hnot⟩
    exact ⟨e, List.mem_filter.2 ⟨he, decide_eq_true hnot⟩, rfl⟩

theorem answered_update (hkey : type.HasKey registry table) (hserved : table.Served store)
    (hdb : type.Represents store table db m) (hr : type.Storable table r) :
    ∃ answer after m', perform ((RecordStep.update r).run registry type) db = (answer, after) ∧
      Answered table.keyOf m (.update r) answer m' ∧ type.Represents store table after m' := by
  obtain ⟨c, rows, hlive, hserves, hstores⟩ := hdb
  obtain ⟨row, hrow, hcells, hkept⟩ := hr.kept hkey
  obtain ⟨p, hpredicate, htokens, hcolumns, hparams⟩ := keyPredicate_of_kept hserved.toKeyed hkept
  have hknown : ∀ n ∈ row.names, n ∈ table.columnNames := fun n hn => (hkept.names n).1 hn
  have hassigned : ∀ n, n ∈ (Session.takeKey table.primaryKey row).2.names ↔
      n ∈ table.columnNames ∧ n ∉ table.primaryKey := fun n => by rw [mem_names_takeKey, hkept.names]
  have hbeside : (Session.takeKey table.primaryKey row).2.isEmpty = false := by
    obtain ⟨n, hn, hnot⟩ := hkey.beside
    obtain ⟨e, he, -⟩ := List.mem_map.1 ((hassigned n).2 ⟨hn, hnot⟩)
    exact List.isEmpty_eq_false_iff.2 (List.ne_nil_of_mem he)
  obtain ⟨s, hs⟩ : ∃ s, Sql.Statement.update? table.name (Session.takeKey table.primaryKey row).2 (some p) = some s := by
    rw [Sql.Statement.update?, hbeside]
    exact ⟨_, rfl⟩
  have hparameters : s.params.map Value.bound = (Session.takeKey table.primaryKey row).2.names.map
      (table.valueAt (table.storedCells row)) ++ table.keyValues (table.storedCells row) := by
    have hvalues : s.params = (Session.takeKey table.primaryKey row).2.values ++ p.params := by
      rw [Sql.Statement.update?, hbeside] at hs
      cases hs
      rfl
    have hentries : ∀ e ∈ (Session.takeKey table.primaryKey row).2.entries, e ∈ row.entries := fun e he => by
      rw [Session.entries_takeKey] at he
      exact List.mem_of_mem_filter he
    rw [hvalues, hparams, List.map_append, TableDefinition.keyValues_storedCells]
    exact congrArg (· ++ _) (TableDefinition.map_bound_entries hentries hknown)
  rw [run_eq, perform_liftM_bind (plan_update hkey.definition hrow hkey.distinct hpredicate hcolumns hknown hbeside)]
  by_cases hmem : table.keyOf r ∈ m
  · obtain ⟨old, hold, hsame⟩ := (hstores.mem_iff hr).1 hmem
    obtain ⟨after, rows', hrun, hserves', hcount, hperm⟩ := Connection.run_update_of_present hserved hserves hs htokens
      hcolumns hassigned hkept.keeps hparameters hold (hcells ▸ hsame)
    rw [hcells] at hperm
    have hanswer := @perform_ask_change type db c after (.update table.name _ (some p)) _ _ _ hs
      (fun _ _ h => by cases h) hlive hrun hcount
    -- The record comes in the place of the one that is taken out.
    have hstores' := (hstores.erase hserves.rows hr hold hsame).insert hr Finmap.notMem_erase_self hperm
    rw [m.insert_erase] at hstores'
    exact ⟨_, _, _, hanswer, .updated hmem, after, rows', rfl, hserves', hstores'⟩
  · have habsent := hstores.absent hr hmem
    rw [← hcells] at habsent
    obtain ⟨after, hrun, hserves', hcount⟩ := Connection.run_update_of_absent hserved hserves hs htokens hcolumns
      (fun n hn => ((hassigned n).1 hn).1) hkept.keeps hparameters habsent
    have hanswer := @perform_ask_change type db c after (.update table.name _ (some p)) _ _ _ hs
      (fun _ _ h => by cases h) hlive hrun hcount
    exact ⟨_, _, m, hanswer, .unmatched hmem, after, rows, rfl, hserves', hstores⟩

theorem answered_delete (hkey : type.HasKey registry table) (hserved : table.Served store)
    (hdb : type.Represents store table db m) (hr : type.Storable table r) :
    ∃ answer after m', perform ((RecordStep.delete r).run registry type) db = (answer, after) ∧
      Answered table.keyOf m (.delete r) answer m' ∧ type.Represents store table after m' := by
  obtain ⟨c, rows, hlive, hserves, hstores⟩ := hdb
  obtain ⟨row, hrow, hcells, hkept⟩ := hr.kept hkey
  obtain ⟨p, hpredicate, htokens, hcolumns, hparams⟩ := keyPredicate_of_kept hserved.toKeyed hkept
  have hparameters : (Sql.Statement.delete table.name (some p)).params.map Value.bound =
      table.keyValues (table.storedCells row) := by
    rw [TableDefinition.keyValues_storedCells, ← hparams]
    rfl
  rw [run_eq, perform_liftM_bind (plan_delete hkey.definition hrow hpredicate hcolumns)]
  by_cases hmem : table.keyOf r ∈ m
  · obtain ⟨old, hold, hsame⟩ := (hstores.mem_iff hr).1 hmem
    obtain ⟨after, hrun, hserves', hcount⟩ := Connection.run_delete_of_present hserved hserves htokens hcolumns
      hkept.keeps hparameters hold (hcells ▸ hsame)
    have hanswer := @perform_ask_change type db c after (.delete table.name (some p)) _ _ _ rfl
      (fun _ _ h => by cases h) hlive hrun hcount
    exact ⟨_, _, _, hanswer, .deleted hmem, after, _, rfl, hserves', hstores.erase hserves.rows hr hold hsame⟩
  · have habsent := hstores.absent hr hmem
    rw [← hcells] at habsent
    obtain ⟨after, hrun, hserves', hcount⟩ := Connection.run_delete_of_absent hserved hserves htokens hcolumns
      hkept.keeps hparameters habsent
    have hanswer := @perform_ask_change type db c after (.delete table.name (some p)) _ _ _ rfl
      (fun _ _ h => by cases h) hlive hrun hcount
    exact ⟨_, _, m, hanswer, .missed hmem, after, rows, rfl, hserves', hstores⟩

theorem answered_select (hkey : type.HasKey registry table) (hserved : table.Served store)
    (hdb : type.Represents store table db m) :
    ∃ answer after m', perform ((RecordStep.select .empty).run registry type) db = (answer, after) ∧
      Answered table.keyOf m (.select .empty) answer m' ∧ type.Represents store table after m' := by
  obtain ⟨c, rows, hlive, hserves, hstores⟩ := hdb
  obtain ⟨found, hrun, hperm⟩ := Connection.run_select_all hserved hserves
  have hrows := perform_rows hlive
    (show c.run _ ((Sql.Statement.select table.name .empty).params.map Value.bound) = _ from hrun)
  have hfound : (found : Multiset (List StoredValue)) = m.entries.map fun e => table.cellsOf e.2 :=
    (Multiset.coe_eq_coe.2 hperm).trans hstores.cells
  -- What is read from the cells of a record is the record.
  let read (cells : List StoredValue) : Datum := (type.decode (table.rowOfCells cells)).toOption.getD .unit
  have hread : ∀ e ∈ m.entries, read (table.cellsOf e.2) = e.2 := by
    intro e he
    have hdecoded := (hstores.own e he).2.decode_cellsOf hkey
    simp only [read, hdecoded]
    rfl
  have hdecode : (Session.records ⟨table.columnNames, found⟩).mapM type.decode = .ok (found.map read) := by
    show (found.map table.rowOfCells).mapM type.decode = _
    rw [List.mapM_map]
    refine Engine.mapM_ok fun cells hcells => ?_
    rw [← Multiset.mem_coe, hfound] at hcells
    obtain ⟨e, he, rfl⟩ := Multiset.mem_map.1 hcells
    rw [hread e he]
    exact (hstores.own e he).2.decode_cellsOf hkey
  have hquery : perform (Session.query type (Sql.Statement.select table.name .empty).text
      (Sql.Statement.select table.name .empty).params) db = (.ok (found.map read), _) :=
    (perform_bind hrows).trans (Session.perform_mapM_liftM hdecode)
  rw [run_eq, perform_liftM_bind (plan_select_all hkey.definition)]
  refine ⟨_, _, m, perform_bind hquery, .selected ?_, c, rows, rfl, hserves, hstores⟩
  rw [← Multiset.map_coe, hfound, Multiset.map_map]
  exact Multiset.map_congr rfl hread

/-- A step on a map is answered as the map answers it. -/
theorem answered {step : RecordStep} (hkey : type.HasKey registry table) (hserved : table.Served store)
    (hdb : type.Represents store table db m) (hroom : m.entries.card < 2 ^ 64) (hstep : step.OnMap type table) :
    ∃ answer after m', perform (step.run registry type) db = (answer, after) ∧
      Answered table.keyOf m step answer m' ∧ type.Represents store table after m' := by
  cases step with
  | insert r => exact answered_insert hkey hserved hdb hroom hstep
  | update r => exact answered_update hkey hserved hdb hstep
  | delete r => exact answered_delete hkey hserved hdb hstep
  | select q =>
      obtain rfl : q = .empty := hstep
      exact answered_select hkey hserved hdb
  | updateWhere | deleteWhere => exact hstep.elim

end RecordStep

/-- A step adds one record at most. -/
theorem Answered.card_le {key : Datum → List Value} {step : RecordStep} {answer : Outcome Answer} {m' : Records}
    (h : Answered key m step answer m') : m'.entries.card ≤ m.entries.card + 1 := by
  have hkeys : ∀ n : Records, n.entries.card = n.keys.card := fun n => (Multiset.card_map Sigma.fst n.entries).symm
  have herase : ∀ k, (m.erase k).entries.card ≤ m.entries.card := by
    intro k
    rw [hkeys, hkeys, Finmap.keys_erase]
    exact Finset.card_erase_le
  cases h with
  | inserted h => rw [Finmap.entries_insert_of_notMem h, Multiset.card_cons]
  | @updated r h =>
      rw [← m.insert_erase, Finmap.entries_insert_of_notMem Finmap.notMem_erase_self, Multiset.card_cons]
      exact Nat.succ_le_succ (herase (key r))
  | deleted h => exact (herase _).trans (Nat.le_succ _)
  | occupied h | unmatched h | missed h | selected h => exact Nat.le_succ _

/-! ## Runs -/

/-- What several steps on a map of records answer one after the other. -/
inductive AllAnswered (key : Datum → List Value) : Records → List RecordStep → List (Outcome Answer) → Prop where
  | nil {m : Records} : AllAnswered key m [] []
  | cons {m m' : Records} {step : RecordStep} {steps : List RecordStep} {answer : Outcome Answer}
      {answers : List (Outcome Answer)} (h : Answered key m step answer m') (hrest : AllAnswered key m' steps answers) :
      AllAnswered key m (step :: steps) (answer :: answers)

/-- The answers of steps that are carried out one after the other, whether they succeed or not. -/
def RecordStep.answers (registry : Registry) (type : RecordType) : List RecordStep → Database → List (Outcome Answer)
  | [], _ => []
  | step :: rest, db =>
      let (answer, after) := perform (step.run registry type) db
      answer :: answers registry type rest after

/-- Steps on a map are answered as the map answers them, one after the other. -/
theorem RecordStep.allAnswered {store : Store} {steps : List RecordStep} {db : Database}
    (hkey : type.HasKey registry table) (hserved : table.Served store) (hdb : type.Represents store table db m)
    (hroom : m.entries.card + steps.length ≤ 2 ^ 64) (hsteps : ∀ step ∈ steps, step.OnMap type table) :
    AllAnswered table.keyOf m steps (answers registry type steps db) := by
  induction steps generalizing db m with
  | nil => exact .nil
  | cons step steps ih =>
      rw [List.forall_mem_cons] at hsteps
      rw [List.length_cons] at hroom
      obtain ⟨answer, after, m', hperform, hanswered, hafter⟩ := answered hkey hserved hdb (by omega) hsteps.1
      have hcard := hanswered.card_le
      rw [answers, hperform]
      exact .cons hanswered (ih hafter (by omega) hsteps.2)

/-- A table that was ensured on a database with nothing in it stands for the empty map. -/
theorem RecordType.represents_of_ensure {location : Location} {options : OpenOptions} {db : Database}
    (hkey : type.HasKey registry table) (hlow : table.primaryKey.length < Engine.Reading.maxHeight)
    (hensure : perform (Session.ensure registry type) (.ofLocation location options) = (.ok true, db)) :
    table.Served .empty ∧ type.Represents .empty table db ∅ := by
  have hne : table.columns ≠ [] := by
    obtain ⟨c, hc, -⟩ := hkey.beside
    rintro hnone
    rw [TableDefinition.columnNames, hnone] at hc
    cases hc
  obtain ⟨hfree, hnames, hapart, hwidth, c, hlive, hwrites, hstore⟩ :=
    Session.of_perform_ensure hkey.definition hne hkey.distinct hensure
  have hkeyed : table.Keyed := ⟨hapart, hwidth, hkey.keyed, hkey.distinct, hkey.exact, hkey.ordinary⟩
  exact ⟨⟨hkeyed, hfree.table, hnames, hlow⟩, c, [], hlive, ⟨hwrites, hstore, TableDefinition.holds_nil⟩, .empty⟩

/-- On a table that was ensured on a database with nothing in it, steps are answered as a map answers them that was empty
at first.  The engine takes a condition on a key up to a height, and has a number for each of 2 ^ 64 rows. -/
theorem RecordStep.answers_of_ensure {location : Location} {options : OpenOptions} {db : Database}
    {steps : List RecordStep} (hkey : type.HasKey registry table)
    (hlow : table.primaryKey.length < Engine.Reading.maxHeight)
    (hensure : perform (Session.ensure registry type) (.ofLocation location options) = (.ok true, db))
    (hroom : steps.length ≤ 2 ^ 64) (hsteps : ∀ step ∈ steps, step.OnMap type table) :
    AllAnswered table.keyOf ∅ steps (answers registry type steps db) := by
  obtain ⟨hserved, hdb⟩ := RecordType.represents_of_ensure hkey hlow hensure
  refine allAnswered hkey hserved hdb ?_ hsteps
  show 0 + steps.length ≤ _
  rwa [Nat.zero_add]

/-- The table of tasks. -/
def taskTable : TableDefinition where
  name := "Task"
  columns := [("done", ⟨.integer, false⟩), ("id", ⟨.integer, false⟩), ("note", ⟨.text, true⟩), ("title", ⟨.text, false⟩)]
  primaryKey := ["id"]
  indexes := [⟨"task_title", ["title", "done"], false⟩]
  columns_ascending := by decide +kernel
  indexes_ascending := List.pairwise_singleton ..
  key_known := by decide
  indexes_known := by decide

theorem hasKey_task : (Gallery.task "gallery").HasKey .empty taskTable where
  fields := ⟨_, _, _, rfl, fun p _ => Registry.suits_empty p.2⟩
  plain := by decide
  definition := Outcome.bind_eq_ok.2 ⟨_, RecordType.probeRecord_task,
    @TableDefinition.make_of_sorted taskTable _ _ (by decide +kernel) (List.mergeSort_singleton _)⟩
  keyed := by decide
  distinct := by decide
  exact := by decide +kernel
  beside := ⟨"note", by decide, by decide⟩
  ordinary := by decide

theorem storable_notedTask : (Gallery.task "gallery").Storable taskTable RecordType.notedTask where
  value := RecordType.isValue_notedTask
  whole := by decide
  written := by
    refine ⟨_, rfl, fun c v hv => ?_⟩
    obtain ⟨before, after, hentries, -⟩ := List.lookup_eq_some_iff.1 hv
    have hsteady : ∀ e ∈ before ++ (c, v) :: after, e.2.isSteady = true := by
      rw [← hentries]
      decide +kernel
    exact hsteady (c, v) (by simp)

theorem creatable_task : Creatable .empty taskTable where
  columns := by decide
  columnsApart := by decide +kernel
  key := by decide
  indexesApart := by decide +kernel
  indexColumns := by decide
  free := Session.free_empty (by decide +kernel)
  width := by decide
  unbroken := by decide +kernel

theorem ensure_task : ∃ db, perform (Session.ensure .empty (Gallery.task "gallery")) (.ofLocation .memory {}) =
    (.ok true, db) := by
  have hopens : (Database.ofLocation .memory {}).live = .ok (.ofStore .empty false true) := rfl
  obtain ⟨asked, hasked, hlive⟩ := Session.perform_introspect_none
    (creatable_task.unbroken _ (List.mem_cons_self ..)) hopens rfl (by decide +kernel)
  obtain ⟨db, hcreate, -⟩ := Session.perform_create creatable_task hlive rfl
  refine ⟨db, ?_⟩
  rw [Session.ensure, Session.definition, perform_liftM_bind hasKey_task.definition, perform_bind hasked]
  exact perform_bind hcreate

/-- A task is inserted twice, updated, looked for and deleted twice. -/
def taskSteps : List RecordStep :=
  let task := RecordType.notedTask
  [.insert task, .insert task, .update task, .select .empty, .delete task, .delete task]

/-- A task comes once, is found, and is gone once it was deleted. -/
theorem RecordStep.answers_of_ensure_task :
    ∃ db, perform (Session.ensure .empty (Gallery.task "gallery")) (.ofLocation .memory {}) = (.ok true, db) ∧
      AllAnswered taskTable.keyOf ∅ taskSteps (answers .empty (Gallery.task "gallery") taskSteps db) := by
  obtain ⟨db, hensure⟩ := ensure_task
  refine ⟨db, hensure, answers_of_ensure hasKey_task (by decide) hensure (by decide) ?_⟩
  simp only [taskSteps, List.forall_mem_cons, OnMap]
  exact ⟨storable_notedTask, storable_notedTask, storable_notedTask, trivial, storable_notedTask, storable_notedTask,
    List.forall_mem_nil _⟩

end RecordTables
