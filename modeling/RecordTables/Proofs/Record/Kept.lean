import RecordTables.Database.Session
import RecordTables.Proofs.Engine.Keyed
import RecordTables.Proofs.Number.Integral
import RecordTables.Proofs.Record.Agreement
import RecordTables.Proofs.Record.DeclaredColumns
import RecordTables.Proofs.Record.RoundTrip

/-!
# Records that a table keeps

A record of a plain type fills the columns of its table, each with a value that the column keeps as it is.  Read back from
the columns in their order, the values are those of the row that was written, so the record comes back.
-/

namespace RecordTables

/-! ## Values -/

/-- Whether a value is stored and read back as it is: a number has to be one, and a zero without a sign. -/
def Value.isSteady : Value → Bool
  | .real x => !x.isNaN && decide (x ≠ Double.negativeZero)
  | _ => true

theorem Value.bound_eq_toStored {v : Value} (h : v.isSteady = true) : v.bound = v.toStored := by
  cases v with
  | real x =>
      rw [isSteady, Bool.and_eq_true, Bool.not_eq_true'] at h
      show (if x.isNaN then StoredValue.null else .real x) = _
      rw [h.1]
      rfl
  | _ => rfl

theorem Value.ofStored_bound {v : Value} (h : v.isSteady = true) : Value.ofStored v.bound = v := by
  rw [bound_eq_toStored h, ofStored_toStored]

/-- A column keeps the steady values of its storage class, and NULL if it takes it. -/
theorem Column.keeps_bound {column : Column} {v : Value} (h : v.isSteady = true)
    (hclass : v.columnType? = some column.type ∨ v = .null ∧ column.nullable = true) : column.Keeps v.bound := by
  rw [Value.bound_eq_toStored h]
  rcases hclass with hclass | ⟨rfl, hnullable⟩
  · cases v with
    | null => cases hclass
    | real x =>
        rw [Value.isSteady, Bool.and_eq_true, decide_eq_true_eq] at h
        exact ⟨(Option.some.inj hclass).symm, Engine.asReal_real h.2⟩
    | _ => exact (Option.some.inj hclass).symm
  · exact hnullable

/-! ## Samples -/

/-- Whether the samples of a registry stand for all values of a type: a sample has the storage class of the type, and a
type that takes NULL has one under its name only if it is called an option. -/
def Registry.Suits (registry : Registry) (s : Shape) : Prop :=
  ∀ sample, registry.lookup s.key.1 = some sample →
    s.core.coreType? = some sample.type ∧ (s.takesNull = true → s.key.2 = true)

theorem Registry.suits_empty (s : Shape) : Registry.empty.Suits s := fun _ h => by cases h

namespace Shape

variable {registry : Registry} {around : Shape}

/-- What a field writes has the storage class of its column, or is NULL where the column takes it. -/
theorem columnType_of_settled {s : Shape} {d e : Datum} {v : Value} {column : Column} (hsuits : registry.Suits s)
    (hsettle : settleShape registry around s (probe registry around s) = .ok (e, column)) (h : IsValue around s d)
    (hv : d.encodeField = .ok v) : v.columnType? = some column.type ∨ v = .null ∧ column.nullable = true := by
  cases hkey : registry.lookup s.key.1 with
  | none =>
      obtain ⟨p, hp, -, htype, hnullable⟩ := settle_unregistered hkey hsettle
      rw [← hnullable]
      exact columnType_encodeField h hp htype hv
  | some sample =>
      simp only [settleShape, settle, hkey] at hsettle
      obtain ⟨_, -, hcolumn⟩ := Outcome.bind_eq_ok.1 hsettle
      cases hcolumn
      obtain ⟨hclass, hnull⟩ := hsuits sample hkey
      exact (columnType_of_isValue h hclass hv).imp_right fun hnone => ⟨hnone.1, hnull hnone.2⟩

end Shape

namespace Row

/-- Entries under distinct names are found under their names. -/
theorem get?_ofList {entries : List (String × Value)} (hnodup : (entries.map Prod.fst).Nodup) (name : String) :
    (ofList entries).get? name = entries.lookup name := by
  suffices hextend : ∀ row : Row, (row.extend entries).get? name = (entries.lookup name).or (row.get? name) by
    rw [ofList, hextend]
    exact Option.or_none
  induction entries with
  | nil => exact fun row => rfl
  | cons e rest ih =>
      obtain ⟨n, v⟩ := e
      rw [List.map_cons, List.nodup_cons] at hnodup
      intro row
      have hstep : row.extend ((n, v) :: rest) = (row.set n v).extend rest := rfl
      rw [hstep, ih hnodup.2, get?_set]
      by_cases hname : name = n
      · subst hname
        rw [if_pos rfl, lookup_eq_none_of_not_mem hnodup.1, List.lookup_cons, beq_self_eq_true]
        rfl
      · rw [if_neg hname, List.lookup_cons, beq_false_of_ne hname]

end Row

/-! ## Rows of a table -/

namespace TableDefinition

variable (table : TableDefinition)

/-- The values of a row in the order of the columns, as they are bound. -/
def storedCells (row : Row) : List StoredValue := table.columns.map fun p => ((row.get? p.1).getD .null).bound

/-- The row that stored values are read as. -/
def rowOfCells (cells : List StoredValue) : Row := Row.ofList (table.columnNames.zip (cells.map Value.ofStored))

variable {table} {row : Row}

/-- A row that fills the columns with steady values is read back cell by cell. -/
theorem get?_rowOfCells (hnames : ∀ c, c ∈ row.names ↔ c ∈ table.columnNames)
    (hsteady : ∀ c v, row.get? c = some v → v.isSteady = true) (name : String) :
    (table.rowOfCells (table.storedCells row)).get? name = row.get? name := by
  have hentries : table.columnNames.zip ((table.storedCells row).map Value.ofStored) =
      table.columnNames.map fun c => (c, Value.ofStored ((row.get? c).getD .null).bound) := by
    rw [storedCells, columnNames, List.map_map, List.zip_map', List.map_map]
    rfl
  have hfst : (table.columnNames.map fun c => (c, Value.ofStored ((row.get? c).getD .null).bound)).map Prod.fst =
      table.columnNames := by
    rw [List.map_map]
    exact List.map_id _
  rw [rowOfCells, hentries, Row.get?_ofList (by rw [hfst]; exact table.nodup_columnNames)]
  by_cases hmem : name ∈ table.columnNames
  · obtain ⟨v, hv⟩ : ∃ v, row.get? name = some v := by
      rw [← Option.ne_none_iff_exists', ne_eq, Row.get?_eq_none, not_not]
      exact (hnames name).2 hmem
    have hcell : (name, Value.ofStored ((row.get? name).getD .null).bound) ∈
        table.columnNames.map fun c => (c, Value.ofStored ((row.get? c).getD .null).bound) :=
      List.mem_map.2 ⟨name, hmem, rfl⟩
    rw [lookup_of_mem (by rw [hfst]; exact table.nodup_columnNames) hcell, hv]
    exact congrArg some (Value.ofStored_bound (hsteady name v hv))
  · rw [lookup_eq_none_of_not_mem (by rwa [hfst]), Row.get?_eq_none.2 fun h => hmem ((hnames name).1 h)]

end TableDefinition

namespace RecordType

open Shape

variable {registry : Registry} {type : RecordType} {table : TableDefinition} {name : TypeName} {strict : Bool}
  {fields : List (Field × Shape)} {r : Datum} {row : Row}

/-- Each field of a type has a column, which takes what the field writes. -/
theorem column_of_field (hshape : type.shape.rowShape = .record name strict fields)
    (hplain : type.shape.plain = true) (hdefinition : type.definition registry = .ok table) {p : Field × Shape}
    (hp : p ∈ fields) (hsuits : registry.Suits p.2) :
    ∃ column, table.column? p.1.name = some column ∧ ∀ d v, IsValue (.record name strict fields) p.2 d →
      d.encodeField = .ok v → v.columnType? = some column.type ∨ v = .null ∧ column.nullable = true := by
  have hrecord := (plain_rowShape type.shape).trans hplain
  rw [hshape] at hrecord
  obtain ⟨hdistinct, hfields⟩ := plain_record.1 hrecord
  have hread := Field.constant_of_plain (plain_of_mem_fields hfields p hp).1
  obtain ⟨probed, hprobed⟩ := probeFields_of_definition hshape hdefinition
  obtain ⟨-, e, column, hsettle⟩ := settled_of_probeFields hprobed p hp hread
  exact ⟨column, (column?_of_definition hshape hdistinct hdefinition).2 ⟨p, hp, hread, rfl, e, hsettle⟩,
    fun d v hd hv => columnType_of_settled hsuits hsettle hd hv⟩

/-- What a table keeps of the row of a record. -/
structure Kept (table : TableDefinition) (type : RecordType) (r : Datum) (row : Row) : Prop where
  /-- The row fills the columns, each of them once. -/
  names : ∀ c, c ∈ row.names ↔ c ∈ table.columnNames
  /-- Each column keeps its value. -/
  keeps : table.Keeps (table.storedCells row)
  /-- Read back, the values are the record. -/
  decodes : type.decode (table.rowOfCells (table.storedCells row)) = .ok r

section

variable {values : List (Field × Datum)} (hshape : type.shape.rowShape = .record name strict fields)
  (hplain : type.shape.plain = true) (hdefinition : type.definition registry = .ok table)
  (hsuits : ∀ p ∈ fields, registry.Suits p.2) (hfields : values.map Prod.fst = fields.map Prod.fst)
  (hvalues : ∀ p ∈ fields.zip values, IsValue (.record name strict fields) p.1.2 p.2.2)

include hshape hplain hdefinition hsuits hfields hvalues

/-- A field that is left out is an absence, which is written as NULL, so its column takes NULL. -/
theorem nullable_of_left_out {p : Field × Shape} (hp : p ∈ fields) :
    p.1.name ∈ (presentedFields values).map Prod.fst ∨ p.1.name ∈ table.nullableColumns := by
  have hrecord := (plain_rowShape type.shape).trans hplain
  rw [hshape] at hrecord
  obtain ⟨hdistinct, hplainFields⟩ := plain_record.1 hrecord
  obtain ⟨v, hv, hsame⟩ : ∃ v ∈ values, v.1 = p.1 := by
    have hfield : p.1 ∈ values.map Prod.fst := hfields ▸ List.mem_map_of_mem hp
    exact List.mem_map.1 hfield
  obtain ⟨s, hs⟩ := exists_mem_zip hfields hv
  obtain rfl : (v.1, s) = p := eq_of_name_eq hdistinct (of_mem_zip hfields hs).1 hp (congrArg Field.name hsame)
  by_cases hpresents : v.1.presents v.2 = true
  · exact .inl (List.mem_map.2 ⟨(v.1.name, v.2), mem_presentedFields.2 ⟨v.1, hv, hpresents, rfl⟩, rfl⟩)
  · obtain ⟨habsent, -⟩ := Field.absent_of_not_presents (plain_of_mem_fields hplainFields _ hp).1
      (by simpa using hpresents)
    obtain ⟨column, hc, htakes⟩ := column_of_field hshape hplain hdefinition hp (hsuits _ hp)
    have hnull := htakes v.2 .null (hvalues _ hs) (by rw [habsent]; rfl)
    have htyped : Value.null.columnType? ≠ some column.type := fun h => by cases h
    exact .inr (table.mem_nullableColumns.2 ⟨column, hc, (hnull.resolve_left htyped).2⟩)

/-- The row of a record fills the columns, each of them once. -/
theorem mem_names_of_encode (hencode : Datum.encodeFields table.nullRow (presentedFields values) = .ok row) (c : String) :
    c ∈ row.names ↔ c ∈ table.columnNames := by
  have hrecord := (plain_rowShape type.shape).trans hplain
  rw [hshape] at hrecord
  have hdistinct := (plain_record.1 hrecord).1
  rw [Datum.mem_names_encodeFields hencode]
  constructor
  · rintro (hfield | hnullable)
    · obtain ⟨p, hp, rfl⟩ := field_of_presented hfields hfield
      obtain ⟨column, hc, -⟩ := column_of_field hshape hplain hdefinition hp (hsuits p hp)
      exact List.mem_map_of_mem (table.column?_eq_some.1 hc)
    · obtain ⟨column, hc, -⟩ := table.mem_nullableColumns.1 hnullable
      exact List.mem_map_of_mem (table.column?_eq_some.1 hc)
  · intro hc
    obtain ⟨⟨_, column⟩, hmem, rfl⟩ := List.mem_map.1 hc
    obtain ⟨p, hp, -, hname, -⟩ :=
      (column?_of_definition hshape hdistinct hdefinition).1 (table.column?_eq_some.2 hmem)
    rw [← hname]
    exact nullable_of_left_out hshape hplain hdefinition hsuits hfields hvalues hp

/-- Each column keeps its value: its field wrote it, or it is the NULL of a field that was left out. -/
theorem keeps_of_encode (hencode : Datum.encodeFields table.nullRow (presentedFields values) = .ok row)
    (hsteady : ∀ c v, row.get? c = some v → v.isSteady = true) : table.Keeps (table.storedCells row) := by
  have hrecord := (plain_rowShape type.shape).trans hplain
  rw [hshape] at hrecord
  have hdistinct := (plain_record.1 hrecord).1
  rw [TableDefinition.Keeps, TableDefinition.storedCells, List.forall₂_map_right_iff, List.forall₂_same]
  rintro ⟨c, column⟩ hmem
  have hc := table.column?_eq_some.2 hmem
  obtain ⟨v, hget⟩ : ∃ v, row.get? c = some v := by
    rw [← Option.ne_none_iff_exists', ne_eq, Row.get?_eq_none, not_not,
      mem_names_of_encode hshape hplain hdefinition hsuits hfields hvalues hencode]
    exact List.mem_map_of_mem hmem
  obtain ⟨p, hp, -, rfl, -⟩ := (column?_of_definition hshape hdistinct hdefinition).1 hc
  obtain ⟨column', hc', htakes⟩ := column_of_field hshape hplain hdefinition hp (hsuits p hp)
  obtain rfl : column = column' := Option.some.inj (hc.symm.trans hc')
  rw [hget]
  refine Column.keeps_bound (hsteady _ v hget) ?_
  rcases cell_of_written hfields hvalues hdistinct hencode hp hget with ⟨d, hd, hv⟩ | ⟨hnull, hnullable⟩
  · exact htakes d v hd hv
  · obtain ⟨column', hc', hnullable⟩ := table.mem_nullableColumns.1 hnullable
    obtain rfl : column = column' := Option.some.inj (hc.symm.trans hc')
    exact .inr ⟨hnull, hnullable⟩

end

/-- A table keeps the records of a plain type, if the samples suit the types of its fields. -/
theorem kept_of_encode (hshape : type.shape.rowShape = .record name strict fields) (hplain : type.shape.plain = true)
    (hdefinition : type.definition registry = .ok table) (hsuits : ∀ p ∈ fields, registry.Suits p.2)
    (hvalue : IsValue type.shape.rowShape type.shape r) (hwhole : r.columnsWhole = true)
    (hrow : r.encodeWith table = .ok row) (hsteady : ∀ c v, row.get? c = some v → v.isSteady = true) :
    Kept table type r row := by
  have hrecord := (plain_rowShape type.shape).trans hplain
  rw [hshape] at hrecord
  obtain ⟨values, hfields, hvalues, rfl⟩ := isValue_record hshape hvalue
  have hencode : Datum.encodeFields table.nullRow (presentedFields values) = .ok row := hrow
  have hnames := mem_names_of_encode hshape hplain hdefinition hsuits hfields hvalues hencode
  refine ⟨hnames, keeps_of_encode hshape hplain hdefinition hsuits hfields hvalues hencode hsteady, ?_⟩
  have hsame := table.get?_rowOfCells hnames hsteady
  show decodeRow _ type.shape = _
  rw [decodeRow_congr _ fun name _ => hsame name, decodeRow_iff_rowShape hvalue, hshape]
  exact (decodeRow_record hrecord hfields hvalues (List.all_eq_true.1 hwhole) hencode).2 fun p hp =>
    nullable_of_left_out hshape hplain hdefinition hsuits hfields hvalues hp

end RecordType

end RecordTables
