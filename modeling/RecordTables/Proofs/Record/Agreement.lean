import RecordTables.Gallery.Records
import RecordTables.Record.RecordType
import RecordTables.Proofs.Record.Probed
import RecordTables.Proofs.Record.Rows
import RecordTables.Proofs.Schema.Columns

/-!
# Definitions and rows agree

The definition of a table, the writing of its records and the reading of its rows go by one list of fields.  What the
definition says about a column holds of every row that is written, and of what every row may hold.
-/

namespace RecordTables

namespace Shape

variable {registry : Registry} {around : Shape}

/-! ## Made-up fields -/

/-- A field is made up if it is read, and then it is read under its own name only. -/
theorem probeFields_cons {f : Field} {s : Shape} {rest : List (Field × Shape)} {probed : List ProbedField}
    (h : probeFields registry around ((f, s) :: rest) = .ok probed) :
    ∃ others, probeFields registry around rest = .ok others ∧
      ((∃ d, f.constant = some d ∧ probed = (f, d, none) :: others) ∨
        f.constant = none ∧ f.names = [f.name] ∧ ∃ d column,
          settleShape registry around s (probe registry around s) = .ok (d, column) ∧
            probed = (f, d, some column) :: others) := by
  rw [probeFields] at h
  cases hconstant : f.constant with
  | some d =>
      rw [hconstant] at h
      obtain ⟨⟨e, column⟩, hfirst, h⟩ := Outcome.bind_eq_ok.1 h
      obtain ⟨others, hothers, h⟩ := Outcome.bind_eq_ok.1 h
      cases hfirst
      cases h
      exact ⟨others, hothers, .inl ⟨d, rfl, rfl⟩⟩
  | none =>
      rw [hconstant] at h
      obtain ⟨⟨d, column⟩, hsettle, h⟩ := Outcome.bind_eq_ok.1 h
      -- A field with further names is asked for under each of them, which no single value answers.
      change (if f.names.length = 1 then _ else _) = _ at h
      split at h
      · rename_i hone
        obtain ⟨_, hfirst, h⟩ := Outcome.bind_eq_ok.1 h
        obtain ⟨others, hothers, h⟩ := Outcome.bind_eq_ok.1 h
        cases hfirst
        cases h
        refine ⟨others, hothers, .inr ⟨rfl, ?_, d, column, hsettle, rfl⟩⟩
        apply Field.names_of_unaliased hconstant
        have hlength : f.names.length = f.aliases.length + 1 := by
          simp [Field.names, hconstant]
        rw [hlength] at hone
        exact List.eq_nil_of_length_eq_zero (by omega)
      · cases h

/-- The columns of a record are those of the fields that are read. -/
theorem mem_probedColumns {fields : List (Field × Shape)} {probed : List ProbedField}
    (h : probeFields registry around fields = .ok probed) {name : String} {column : Column} :
    (name, column) ∈ probedColumns probed ↔
      ∃ p ∈ fields, p.1.constant = none ∧ p.1.name = name ∧
        ∃ d, settleShape registry around p.2 (probe registry around p.2) = .ok (d, column) := by
  induction fields generalizing probed with
  | nil =>
      rw [probeFields] at h
      cases h
      simp [probedColumns]
  | cons p fields ih =>
      obtain ⟨f, s⟩ := p
      obtain ⟨others, hothers, ⟨d, hconstant, rfl⟩ | ⟨hconstant, _, d, c, hsettle, rfl⟩⟩ := probeFields_cons h
      · have hskip : probedColumns ((f, d, none) :: others) = probedColumns others := rfl
        rw [hskip, ih hothers]
        simp [hconstant]
      · have hkeep : probedColumns ((f, d, some c) :: others) = (f.name, c) :: probedColumns others := rfl
        rw [hkeep, List.mem_cons, ih hothers, Prod.mk.injEq]
        simp only [List.mem_cons, exists_eq_or_imp]
        constructor
        · rintro (⟨rfl, rfl⟩ | hrest)
          · exact .inl ⟨hconstant, rfl, d, hsettle⟩
          · exact .inr hrest
        · rintro (⟨_, rfl, e, he⟩ | hrest)
          · rw [hsettle] at he
            cases he
            exact .inl ⟨rfl, rfl⟩
          · exact .inr hrest

/-- Every field that is read has one name and a column. -/
theorem settled_of_probeFields {fields : List (Field × Shape)} {probed : List ProbedField}
    (h : probeFields registry around fields = .ok probed) :
    ∀ p ∈ fields, p.1.constant = none → p.1.names = [p.1.name] ∧
      ∃ d column, settleShape registry around p.2 (probe registry around p.2) = .ok (d, column) := by
  induction fields generalizing probed with
  | nil => simp
  | cons p fields ih =>
      obtain ⟨f, s⟩ := p
      obtain ⟨others, hothers, hfirst⟩ := probeFields_cons h
      intro q hq hnone
      rcases List.mem_cons.1 hq with rfl | hq
      · rcases hfirst with ⟨d, hconstant, _⟩ | ⟨_, hnames, d, column, hsettle, _⟩
        · rw [hconstant] at hnone
          cases hnone
        · exact ⟨hnames, d, column, hsettle⟩
      · exact ih hothers q hq hnone

/-- The columns of a record have the names of its fields, in order, with some left out. -/
theorem map_fst_probedColumns {fields : List (Field × Shape)} {probed : List ProbedField}
    (h : probeFields registry around fields = .ok probed) :
    ((probedColumns probed).map Prod.fst).Sublist (fields.map fun p => p.1.name) := by
  induction fields generalizing probed with
  | nil =>
      rw [probeFields] at h
      cases h
      exact List.Sublist.refl _
  | cons p fields ih =>
      obtain ⟨f, s⟩ := p
      obtain ⟨others, hothers, ⟨d, _, rfl⟩ | ⟨_, _, d, c, _, rfl⟩⟩ := probeFields_cons h
      · exact (ih hothers).cons _
      · exact (ih hothers).cons_cons _

/-- The columns of a type are those of the record that its rows hold. -/
theorem probeRecord_record {s : Shape} {d : Datum} {columns : List (String × Column)} {name : TypeName} {strict : Bool}
    {fields : List (Field × Shape)} (hshape : s.rowShape = .record name strict fields)
    (h : probeRecord registry s = .ok (d, columns)) :
    ∃ probed, probeFields registry (.record name strict fields) fields = .ok probed ∧
      columns = probedColumns probed := by
  induction s using rowShape.induct generalizing d with
  | case1 s ih =>
      rw [probeRecord] at h
      exact ih hshape h
  | case2 other s ih =>
      rw [probeRecord] at h
      exact ih hshape h
  | case3 other s refusal ih =>
      rw [probeRecord] at h
      obtain ⟨⟨e, found⟩, hfound, h⟩ := Outcome.bind_eq_ok.1 h
      obtain ⟨_, _, h⟩ := Outcome.bind_eq_ok.1 h
      cases h
      exact ih hshape hfound
  | case4 s hbox htransparent hchecked =>
      rw [rowShape_eq_self hbox htransparent hchecked] at hshape
      subst hshape
      rw [probeRecord] at h
      obtain ⟨probed, hprobed, h⟩ := Outcome.bind_eq_ok.1 h
      cases h
      exact ⟨probed, hprobed, rfl⟩

/-! ## Written cells -/

variable {name : TypeName} {strict : Bool} {fields : List (Field × Shape)} {values : List (Field × Datum)}

theorem field_of_presented (hfields : values.map Prod.fst = fields.map Prod.fst) {column : String}
    (h : column ∈ (presentedFields values).map Prod.fst) : ∃ p ∈ fields, p.1.name = column := by
  obtain ⟨⟨n, d⟩, hd, rfl⟩ := List.mem_map.1 h
  obtain ⟨f, hf, _, rfl⟩ := mem_presentedFields.1 hd
  obtain ⟨s, hs⟩ := exists_mem_zip hfields hf
  exact ⟨(f, s), (of_mem_zip hfields hs).1, rfl⟩

/-- The cell of a field holds its value, or NULL if the record leaves the field out. -/
theorem cell_of_written (hfields : values.map Prod.fst = fields.map Prod.fst)
    (hvalues : ∀ p ∈ fields.zip values, IsValue around p.1.2 p.2.2) (hdistinct : (fields.map fun p => p.1.name).Nodup)
    {table : TableDefinition} {row : Row}
    (hencode : Datum.encodeFields table.nullRow (presentedFields values) = .ok row) {p : Field × Shape}
    (hp : p ∈ fields) {v : Value} (hget : row.get? p.1.name = some v) :
    (∃ d, IsValue around p.2 d ∧ d.encodeField = .ok v) ∨ v = .null ∧ p.1.name ∈ table.nullableColumns := by
  have hpresented := nodup_presentedFields hfields hdistinct
  by_cases hfield : p.1.name ∈ (presentedFields values).map Prod.fst
  · obtain ⟨⟨n, d⟩, hmem, hname⟩ := List.mem_map.1 hfield
    obtain ⟨w, hw, hstored⟩ := Datum.get?_encodeFields_of_mem hencode hpresented hmem
    obtain ⟨f, hf, _, rfl⟩ := mem_presentedFields.1 hmem
    obtain ⟨s, hs⟩ := exists_mem_zip hfields hf
    have hsame : (f, s) = p := eq_of_name_eq hdistinct (of_mem_zip hfields hs).1 hp hname
    subst hsame
    rw [hget] at hstored
    cases hstored
    exact .inl ⟨d, hvalues _ hs, hw⟩
  · rw [Datum.get?_encodeFields_of_not_mem hencode hfield, TableDefinition.get?_nullRow] at hget
    split at hget
    · rename_i hmem
      cases hget
      exact .inr ⟨rfl, hmem⟩
    · cases hget

end Shape

/-! ## Definitions and rows -/

/-- What the definition of a table says about the rows of records with the given fields. -/
structure TableDefinition.Describes (table : TableDefinition) (name : TypeName) (strict : Bool)
    (fields : List (Field × Shape)) (row : Row) : Prop where
  /-- The row has no columns but those of the table, fields that are never read apart. -/
  known : ∀ column ∈ row.names, (∀ p ∈ fields, p.1.name = column → p.1.constant = none) → column ∈ table.columnNames
  /-- The row has every column that takes NULL. -/
  complete : ∀ column ∈ table.nullableColumns, column ∈ row.names
  /-- Every value has the storage class of its column, or is NULL where the column takes it. -/
  classes : ∀ column v c, row.get? column = some v → table.column? column = some c →
    v.columnType? = some c.type ∨ v = .null ∧ c.nullable = true
  /-- In any row whose other fields are read, NULL is read exactly where the column takes it and no check refuses. -/
  nulls : ∀ p ∈ fields, p.1.constant = none → ∃ c, table.column? p.1.name = some c ∧
    ∀ other : Row, (∀ q ∈ fields, q.1.constant = none → q.1.name ≠ p.1.name → ∃ v d,
      other.get? q.1.name = some v ∧ Shape.decodeField (.record name strict fields) ⟨q.1.name, v⟩ q.2 = .ok d) →
    ((∃ d, Shape.decodeRow (other.set p.1.name .null) (.record name strict fields) = .ok d) ↔
      c.nullable = true ∧ p.2.refusesNull = false)

namespace RecordType

open Shape

variable {registry : Registry} {type : RecordType} {table : TableDefinition} {name : TypeName} {strict : Bool}
  {fields : List (Field × Shape)}

/-- A definition has a column for each field that is read, and no other. -/
theorem column?_of_definition (hshape : type.shape.rowShape = .record name strict fields)
    (hdistinct : (fields.map fun p => p.1.name).Nodup) (h : type.definition registry = .ok table) {column : String}
    {c : Column} :
    table.column? column = some c ↔ ∃ p ∈ fields, p.1.constant = none ∧ p.1.name = column ∧
      ∃ d, settleShape registry (.record name strict fields) p.2 (probe registry (.record name strict fields) p.2) =
        .ok (d, c) := by
  obtain ⟨⟨d, columns⟩, hprobe, hmake⟩ := Outcome.bind_eq_ok.1 h
  obtain ⟨probed, hprobed, rfl⟩ := probeRecord_record hshape hprobe
  have hnodup : ((probedColumns probed).map Prod.fst).Nodup := hdistinct.sublist (map_fst_probedColumns hprobed)
  rw [TableDefinition.column?_eq_some, TableDefinition.columns_of_make hmake, mem_ascendingBy hnodup,
    mem_probedColumns hprobed]

theorem probeFields_of_definition (hshape : type.shape.rowShape = .record name strict fields)
    (h : type.definition registry = .ok table) :
    ∃ probed, probeFields registry (.record name strict fields) fields = .ok probed := by
  obtain ⟨⟨d, columns⟩, hprobe, _⟩ := Outcome.bind_eq_ok.1 h
  obtain ⟨probed, hprobed, _⟩ := probeRecord_record hshape hprobe
  exact ⟨probed, hprobed⟩

/-- The other cells of a row stay what they are when one is set. -/
theorem decodeRow_set_null (hshape : type.shape.rowShape = .record name strict fields)
    (hdistinct : (fields.map fun p => p.1.name).Nodup) (h : type.definition registry = .ok table)
    {p : Field × Shape} (hp : p ∈ fields) (hread : p.1.constant = none) {other : Row}
    (hothers : ∀ q ∈ fields, q.1.constant = none → q.1.name ≠ p.1.name → ∃ v d,
      other.get? q.1.name = some v ∧ decodeField (.record name strict fields) ⟨q.1.name, v⟩ q.2 = .ok d) :
    (∃ d, decodeRow (other.set p.1.name .null) (.record name strict fields) = .ok d) ↔
      ∃ d, decodeField (.record name strict fields) ⟨p.1.name, .null⟩ p.2 = .ok d := by
  obtain ⟨probed, hprobed⟩ := probeFields_of_definition hshape h
  rw [decodeRow_isOk, decodeFields_isOk fun q hq hqread => (settled_of_probeFields hprobed q hq hqread).1]
  constructor
  · intro hall
    obtain ⟨v, d, hget, hvalue⟩ := hall p hp hread
    rw [Row.get?_set, if_pos rfl] at hget
    cases hget
    exact ⟨d, hvalue⟩
  · rintro ⟨d, hvalue⟩ q hq hqread
    by_cases hname : q.1.name = p.1.name
    · have hsame : q = p := eq_of_name_eq hdistinct hq hp hname
      subst hsame
      exact ⟨.null, d, by rw [Row.get?_set, if_pos rfl], hvalue⟩
    · obtain ⟨v, e, hget, he⟩ := hothers q hq hqread hname
      exact ⟨v, e, by rw [Row.get?_set, if_neg hname, hget], he⟩

/-- The definition of a table describes every row that is written, and every row that is read. -/
theorem describes_of_encode {around : Shape} {r : Datum} {row : Row}
    (hshape : type.shape.rowShape = .record name strict fields) (hdistinct : (fields.map fun p => p.1.name).Nodup)
    (hdefinition : type.definition .empty = .ok table) (hr : IsValue around type.shape r)
    (hrow : type.encode .empty r = .ok row) : table.Describes name strict fields row := by
  obtain ⟨values, hfields, hvalues, rfl⟩ := isValue_record hshape hr
  obtain ⟨_, hsame, hencode⟩ := Outcome.bind_eq_ok.1 hrow
  rw [hdefinition] at hsame
  cases hsame
  change Datum.encodeFields table.nullRow (presentedFields values) = .ok row at hencode
  have hcolumn := @column?_of_definition .empty type table name strict fields hshape hdistinct hdefinition
  obtain ⟨probed, hprobed⟩ := probeFields_of_definition hshape hdefinition
  have hpresented := nodup_presentedFields hfields hdistinct
  constructor
  -- A column of the row was either presented by a field or takes NULL; both are columns of the table.
  case known =>
    intro column hmem hread
    have hc : ∃ c, table.column? column = some c := by
      rcases (Datum.mem_names_encodeFields hencode).1 hmem with hfield | hnullable
      · obtain ⟨p, hp, rfl⟩ := field_of_presented hfields hfield
        obtain ⟨_, d, c, hsettle⟩ := settled_of_probeFields hprobed p hp (hread p hp rfl)
        exact ⟨c, hcolumn.2 ⟨p, hp, hread p hp rfl, rfl, d, hsettle⟩⟩
      · obtain ⟨c, hc, _⟩ := table.mem_nullableColumns.1 hnullable
        exact ⟨c, hc⟩
    obtain ⟨c, hc⟩ := hc
    exact List.mem_map_of_mem (table.column?_eq_some.1 hc)
  case complete =>
    intro column hmem
    exact (Datum.mem_names_encodeFields hencode).2 (.inr hmem)
  case classes =>
    intro column v c hget hc
    obtain ⟨p, hp, _, rfl, _, hsettle⟩ := hcolumn.1 hc
    obtain ⟨q, hq, _, htype, hnullable⟩ := settle_unregistered rfl hsettle
    -- The cell was written by the field that the column was made for, or left as NULL.
    rcases cell_of_written hfields hvalues hdistinct hencode hp hget with ⟨d, hd, hv⟩ | ⟨hnull, hmem⟩
    · rw [← hnullable]
      exact columnType_encodeField hd hq htype hv
    · obtain ⟨c', hc', hnullable'⟩ := table.mem_nullableColumns.1 hmem
      rw [hc] at hc'
      cases hc'
      exact .inr ⟨hnull, hnullable'⟩
  case nulls =>
    intro p hp hread
    obtain ⟨_, d, c, hsettle⟩ := settled_of_probeFields hprobed p hp hread
    obtain ⟨q, hq, _, htype, hnullable⟩ := settle_unregistered rfl hsettle
    refine ⟨c, hcolumn.2 ⟨p, hp, hread, rfl, d, hsettle⟩, fun other hothers => ?_⟩
    rw [decodeRow_set_null hshape hdistinct hdefinition hp hread hothers, ← hnullable]
    constructor
    · rintro ⟨e, he⟩
      exact ((decodeField_null hq htype).1 he).1
    · intro htakes
      exact ⟨_, (decodeField_null hq htype).2 ⟨htakes, rfl⟩⟩

/-! ## Tasks -/

/-- A task with a note. -/
def notedTask : Datum :=
  .record [("id", .int .i64 7), ("title", .text "write"), ("done", .bool false), ("note", .present (.text "soon"))]

theorem isValue_notedTask {around : Shape} : IsValue around (Gallery.task "gallery").shape notedTask := by
  refine @IsValue.record around _ _ _ [({ name := "id" }, .int .i64 7), ({ name := "title" }, .text "write"),
    ({ name := "done" }, .bool false), ({ name := "note" }, .present (.text "soon"))] rfl ?_
  intro p hp
  simp only [Gallery.fields, List.map_cons, List.map_nil, List.zip_cons_cons, List.zip_nil_right, List.mem_cons,
    List.not_mem_nil, or_false] at hp
  rcases hp with rfl | rfl | rfl | rfl
  · exact .int rfl
  · exact .text "write"
  · exact .bool false
  · exact .present (.text "soon")

/-- What is made up for a task, and the columns that are read off it. -/
theorem probeRecord_task : probeRecord .empty (Gallery.task "gallery").shape =
    .ok (.record [("id", .int .i64 1), ("title", .text "probe"), ("done", .bool true), ("note", .present (.text "probe"))],
      [("id", ⟨.integer, false⟩), ("title", ⟨.text, false⟩), ("done", ⟨.integer, false⟩), ("note", ⟨.text, true⟩)]) := by
  have hnames : ∀ name, Field.names { name } = [name] := fun _ => Field.names_of_unaliased rfl rfl
  show probeRecord .empty (.record _ _ (Gallery.fields _)) = _
  simp only [Gallery.fields, List.map, probeRecord, probeFields, settleShape, settle, hnames]
  -- `probe` recurses on the size of a shape, so it is opened by its equations.
  simp only [probe]
  rfl

theorem definition_task : ∃ table, (Gallery.task "gallery").definition .empty = .ok table :=
  ⟨_, Outcome.bind_eq_ok.2 ⟨_, probeRecord_task, rfl⟩⟩

theorem describes_notedTask : ∃ table row, (Gallery.task "gallery").definition .empty = .ok table ∧
    (Gallery.task "gallery").encode .empty notedTask = .ok row ∧
      table.Describes (Gallery.typeName "gallery" "Task") false
        (Gallery.fields [("id", .int .i64), ("title", .text), ("done", .bool), ("note", .option .text)]) row := by
  obtain ⟨table, htable⟩ := definition_task
  have hrow : (Gallery.task "gallery").encode .empty notedTask = .ok _ :=
    Outcome.bind_eq_ok.2 ⟨table, htable, rfl⟩
  exact ⟨table, _, htable, hrow, describes_of_encode rfl (by decide) htable (@isValue_notedTask .bool) hrow⟩

/-! ## Where they part -/

/-- A check that wants a number, of a value that may be missing. -/
def missingRefusal : Datum → Option String
  | .absent => some "missing"
  | _ => none

def certain : Shape := .checked (.simple "Certain") (.option (.int .i64)) missingRefusal

/-- Not every definition describes the rows of its type.  A field that is written and never read has no column.  A
variant with a tag beside its content reads NULL from a column that does not take it, since only the first variant
was made up.  And a check may refuse NULL where the column takes it. -/
theorem not_describes :
    (∃ table row, (Gallery.readGap "gallery").definition .empty = .ok table ∧
      (Gallery.readGap "gallery").encode .empty (.record [("id", .int .i64 1), ("extra", .int Gallery.i32 0)]) =
        .ok row ∧ "extra" ∈ row.names ∧ "extra" ∉ table.columnNames) ∧
    (∃ table, (Gallery.bare "gallery" (Gallery.adjacent "gallery")).definition .empty = .ok table ∧
      table.column? "c" = some ⟨.integer, false⟩ ∧
        (Gallery.bare "gallery" (Gallery.adjacent "gallery")).decode (.ofList [("t", .text "Unit"), ("c", .null)]) =
          .ok (.record [("t", .unitVariant "Unit")])) ∧
    ∃ table, (Gallery.one "gallery" certain).definition .empty = .ok table ∧
      table.column? "v" = some ⟨.integer, true⟩ ∧
        (Gallery.one "gallery" certain).decode (.ofList [("v", .null)]) =
          .error (.serialization (.refused "missing")) := by
  have hnames : ∀ name, Field.names { name } = [name] := fun _ => Field.names_of_unaliased rfl rfl
  refine ⟨?_, ?_, ?_⟩
  · have hprobe : probeRecord .empty (Gallery.readGap "gallery").shape =
        .ok (.record [("id", .int .i64 1), ("extra", .int Gallery.i32 0)], [("id", ⟨.integer, false⟩)]) := by
      show probeRecord .empty (.record _ _ [({ name := "id" }, .int .i64), _, _]) = _
      simp only [probeRecord, probeFields, settleShape, settle, hnames]
      simp only [probe]
      rfl
    have htable : (Gallery.readGap "gallery").definition .empty = .ok _ := Outcome.bind_eq_ok.2 ⟨_, hprobe, rfl⟩
    exact ⟨_, _, htable, Outcome.bind_eq_ok.2 ⟨_, htable, rfl⟩, by decide, by decide⟩
  · have hprobe : probeRecord .empty (Gallery.bare "gallery" (Gallery.adjacent "gallery")).shape =
        .ok (.record [("t", .unitVariant "Num"), ("c", .int .i64 1)],
          [("t", ⟨.text, false⟩), ("c", ⟨.integer, false⟩)]) := by
      show probeRecord .empty (.transparent _ (.adjacent _ _ _ (("Num", .newtype (.int .i64)) :: _))) = _
      simp only [probeRecord, probeContent, settleContent, settle]
      simp only [probe]
      rfl
    exact ⟨_, Outcome.bind_eq_ok.2 ⟨_, hprobe, rfl⟩, rfl, rfl⟩
  · have hprobe : probeRecord .empty (Gallery.one "gallery" certain).shape =
        .ok (.record [("v", .present (.int .i64 1))], [("v", ⟨.integer, true⟩)]) := by
      show probeRecord .empty (.record _ _ [({ name := "v" }, certain)]) = _
      simp only [probeRecord, probeFields, settleShape, settle, hnames, certain]
      simp only [probe]
      rfl
    refine ⟨_, Outcome.bind_eq_ok.2 ⟨_, hprobe, rfl⟩, rfl, ?_⟩
    show (decodeFields _ _ [({ name := "v" }, certain)] >>= _) = _
    rw [decodeFields_cons rfl (hnames "v")]
    rfl

end RecordType

end RecordTables
