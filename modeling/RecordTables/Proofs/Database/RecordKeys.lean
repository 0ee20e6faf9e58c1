import RecordTables.Proofs.Database.Issuing
import RecordTables.Proofs.Engine.KeyConditions
import RecordTables.Proofs.Engine.NamedParameters
import RecordTables.Proofs.Record.Dictionary
import RecordTables.Proofs.Record.Kept

/-!
# Keys of records

The key of a record is what its row holds under the columns of the key.  A step by the key asks for the row with these
values, and an update assigns everything beside them.
-/

namespace RecordTables

open Sql (Predicate Query)

/-! ## Rows and their keys -/

namespace Row

variable {row : Row}

/-- The values of some entries are found under their names. -/
theorem map_snd_entries {entries : List (String × Value)} (h : ∀ e ∈ entries, e ∈ row.entries) :
    entries.map Prod.snd = (entries.map Prod.fst).map fun n => (row.get? n).getD .null := by
  rw [List.map_map]
  apply List.map_congr_left
  intro e he
  have hfound : row.get? e.1 = some e.2 := lookup_of_mem row.distinct (h e he)
  simp [hfound]

end Row

namespace Session

theorem fst_takeKey {key : List String} (hnodup : key.Nodup) (row : Row) :
    (takeKey key row).1 = key.map fun c => keyTerm c (row.get? c) := by
  induction key generalizing row with
  | nil => rfl
  | cons c rest ih =>
      obtain ⟨hnot, hrest⟩ := List.nodup_cons.1 hnodup
      rw [takeKey, List.map_cons]
      show _ :: (takeKey rest (row.erase c)).1 = _
      rw [ih hrest]
      refine congrArg _ (List.map_congr_left fun d hd => ?_)
      rw [Row.get?_erase_of_ne fun h : d = c => hnot (h ▸ hd)]

theorem entries_takeKey (key : List String) (row : Row) :
    (takeKey key row).2.entries = row.entries.filter fun e => decide (e.1 ∉ key) := by
  induction key generalizing row with
  | nil => simp [takeKey]
  | cons c rest ih =>
      rw [takeKey]
      show (takeKey rest (row.erase c)).2.entries = _
      rw [ih, Row.erase, List.filter_filter]
      apply List.filter_congr
      intro e _
      by_cases hc : e.1 = c
      · simp [hc]
      · simp [hc]

end Session

namespace TableDefinition

variable {table : TableDefinition} {row : Row}

theorem valueAt_storedCells {c : String} (hc : c ∈ table.columnNames) :
    table.valueAt (table.storedCells row) c = ((row.get? c).getD .null).bound := by
  obtain ⟨column, -, hat⟩ := Engine.Store.column_at_place hc
  rw [valueAt, storedCells, List.getElem?_map, hat]
  rfl

/-- What is bound for some entries of a row are the cells of their columns. -/
theorem map_bound_entries {entries : List (String × Value)} (h : ∀ e ∈ entries, e ∈ row.entries)
    (hknown : ∀ n ∈ row.names, n ∈ table.columnNames) :
    (entries.map Prod.snd).map Value.bound = (entries.map Prod.fst).map (table.valueAt (table.storedCells row)) := by
  rw [Row.map_snd_entries h, List.map_map, List.map_map, List.map_map]
  apply List.map_congr_left
  intro e he
  exact (valueAt_storedCells (hknown _ (List.mem_map_of_mem (h e he)))).symm

/-- The values of the key in the row of a record. -/
def keyOfRow (table : TableDefinition) (row : Row) : List Value := table.primaryKey.map fun c => (row.get? c).getD .null

theorem keyValues_storedCells : table.keyValues (table.storedCells row) = (table.keyOfRow row).map Value.bound := by
  rw [keyOfRow, List.map_map]
  exact List.map_congr_left fun c hc => valueAt_storedCells (table.key_known c hc)

/-- Rows of steady values have the same key exactly if their cells have. -/
theorem keyValues_storedCells_inj {row' : Row} (h : ∀ c v, row.get? c = some v → v.isSteady = true)
    (h' : ∀ c v, row'.get? c = some v → v.isSteady = true) :
    table.keyValues (table.storedCells row) = table.keyValues (table.storedCells row') ↔
      table.keyOfRow row = table.keyOfRow row' := by
  have hback : ∀ r : Row, (∀ c v, r.get? c = some v → v.isSteady = true) →
      ((table.keyOfRow r).map Value.bound).map Value.ofStored = table.keyOfRow r := by
    intro r hr
    conv_rhs => rw [← List.map_id (table.keyOfRow r)]
    rw [List.map_map]
    apply List.map_congr_left
    intro v hv
    obtain ⟨c, -, rfl⟩ := List.mem_map.1 hv
    apply Value.ofStored_bound
    cases hget : r.get? c with
    | none => rfl
    | some v => exact hr c v hget
  rw [keyValues_storedCells, keyValues_storedCells]
  constructor
  · intro hsame
    rw [← hback row h, ← hback row' h', hsame]
  · exact congrArg _

end TableDefinition

/-! ## The condition on the key of a record -/

namespace Session

variable {table : TableDefinition} {row : Row}

/-- A condition on the key of a record asks for the values of its key. -/
theorem keyPredicate_row (hkey : table.primaryKey ≠ [])
    (hvalues : ∀ c ∈ table.primaryKey, ((row.get? c).getD .null).isNull = false) :
    ∃ p, keyPredicate table (table.primaryKey.map fun c => keyTerm c (row.get? c)) = .ok p ∧
      p.tokens = Engine.keyTokens table.primaryKey ∧ p.columns = table.primaryKey ∧ p.params = table.keyOfRow row := by
  have hterms : (table.primaryKey.map fun c => keyTerm c (row.get? c)) =
      (table.primaryKey.map fun c => (c, (row.get? c).getD .null)).map fun e => .eq e.1 e.2 := by
    rw [List.map_map]
    apply List.map_congr_left
    intro c hc
    have hvalue := hvalues c hc
    cases hget : row.get? c with
    | none => rw [hget] at hvalue; cases hvalue
    | some v =>
        rw [hget, Option.getD_some] at hvalue
        simp [keyTerm, hvalue, hget]
  have hfst : ((table.primaryKey.map fun c => (c, (row.get? c).getD .null)).map Prod.fst) = table.primaryKey := by
    rw [List.map_map]
    exact List.map_id _
  have hsnd : ((table.primaryKey.map fun c => (c, (row.get? c).getD .null)).map Prod.snd) = table.keyOfRow row := by
    rw [List.map_map]
    rfl
  unfold keyPredicate
  rw [hterms]
  cases hall : Predicate.all? ((table.primaryKey.map fun c => (c, (row.get? c).getD .null)).map fun e => .eq e.1 e.2) with
  | none =>
      cases hcs : table.primaryKey with
      | nil => exact absurd hcs hkey
      | cons c rest => rw [hcs] at hall; cases hall
  | some p =>
      refine ⟨p, rfl, ?_, ?_, ?_⟩
      · rw [Engine.tokens_all? hall, hfst]
      · rw [Engine.columns_all? hall, hfst]
      · rw [Engine.params_all? hall, hsnd]

end Session

/-! ## Types with a key -/

/-- A type of records that a key tells apart: its columns take no NULL and hold no real numbers, there is something beside
it, and no index of the table is unique. -/
structure RecordType.HasKey (registry : Registry) (type : RecordType) (table : TableDefinition) : Prop where
  fields : ∃ name strict fields, type.shape.rowShape = .record name strict fields ∧ ∀ p ∈ fields, registry.Suits p.2
  plain : type.shape.plain = true
  definition : type.definition registry = .ok table
  keyed : table.primaryKey ≠ []
  distinct : table.primaryKey.Nodup
  exact : ∀ c ∈ table.primaryKey, ∃ column, table.column? c = some column ∧ column.nullable = false ∧ column.type ≠ .real
  beside : ∃ c ∈ table.columnNames, c ∉ table.primaryKey
  ordinary : ∀ i ∈ table.indexes, i.unique = false

/-- A record that can be written, with numbers that are read back as they are. -/
structure RecordType.Storable (type : RecordType) (table : TableDefinition) (r : Datum) : Prop where
  value : Shape.IsValue type.shape.rowShape type.shape r
  whole : r.columnsWhole = true
  written : ∃ row, r.encodeWith table = .ok row ∧ ∀ c v, row.get? c = some v → v.isSteady = true

namespace TableDefinition

variable (table : TableDefinition)

/-- The key of a record: the values in its row under the columns of the key. -/
def keyOf (r : Datum) : List Value :=
  match r.encodeWith table with
  | .ok row => table.keyOfRow row
  | .error _ => []

/-- The cells that a record is stored in. -/
def cellsOf (r : Datum) : List StoredValue :=
  match r.encodeWith table with
  | .ok row => table.storedCells row
  | .error _ => []

end TableDefinition

/-! ## What steps ask for -/

namespace RecordStep

section

variable {registry : Registry} {type : RecordType} {table : TableDefinition} {r : Datum} {row : Row}

theorem plan_insert (hdefinition : type.definition registry = .ok table) (hrow : r.encodeWith table = .ok row) :
    (RecordStep.insert r).plan registry type = .ok (some (.insert table.name row)) :=
  (decides_insert hdefinition hrow).plan_some rfl fun n hn => by cases hn

theorem plan_delete {p : Predicate} (hdefinition : type.definition registry = .ok table)
    (hrow : r.encodeWith table = .ok row)
    (hkey : Session.keyPredicate table (table.primaryKey.map fun c => Session.keyTerm c (row.get? c)) = .ok p)
    (hcolumns : p.columns = table.primaryKey) :
    (RecordStep.delete r).plan registry type = .ok (some (.delete table.name (some p))) := by
  rw [plan_delete_eq hdefinition hrow hkey]
  refine (decides_deleteWhere hdefinition _).plan_some rfl fun n hn => table.key_known n ?_
  rw [← hcolumns]
  exact hn

theorem plan_update {p : Predicate} (hdefinition : type.definition registry = .ok table)
    (hrow : r.encodeWith table = .ok row) (hkeys : table.primaryKey.Nodup)
    (hkey : Session.keyPredicate table (table.primaryKey.map fun c => Session.keyTerm c (row.get? c)) = .ok p)
    (hcolumns : p.columns = table.primaryKey) (hknown : ∀ n ∈ row.names, n ∈ table.columnNames)
    (hbeside : (Session.takeKey table.primaryKey row).2.isEmpty = false) :
    (RecordStep.update r).plan registry type =
      .ok (some (.update table.name (Session.takeKey table.primaryKey row).2 (some p))) := by
  rw [← Session.fst_takeKey hkeys] at hkey
  rw [plan_update_eq hdefinition hrow hkey]
  refine (decides_updateWhere hdefinition _ _).plan_some hbeside fun n hn => ?_
  rcases List.mem_append.1 hn with hassigned | hfiltered
  · have hmem : n ∈ (Session.takeKey table.primaryKey row).2.names := hassigned
    rw [Row.names, Session.entries_takeKey] at hmem
    exact hknown n ((List.filter_sublist.map _).subset hmem)
  · refine table.key_known n ?_
    rw [← hcolumns]
    exact hfiltered

theorem plan_select_all (hdefinition : type.definition registry = .ok table) :
    (RecordStep.select .empty).plan registry type = .ok (some (.select table.name .empty)) := by
  refine (decides_select hdefinition _).plan_some rfl fun n hn => ?_
  cases hn

end

end RecordStep

end RecordTables
