import RecordTables.Gallery.Records
import RecordTables.Proofs.Record.Dictionary
import RecordTables.Proofs.Record.Rows
import RecordTables.Proofs.Schema.Parts

/-!
# Rows seeded by a table

A record is written over the columns of a table that take NULL.  Those stand first, whatever the record is, and hold NULL
as far as the record presents no field under their name; every other field stands behind them, in the order in which the
fields are declared.  The first field that cannot be written decides the error.
-/

namespace RecordTables

/-! ## Names that are set one after the other -/

theorem eraseDups_of_nodup {names : List String} (h : names.Nodup) : names.eraseDups = names := by
  induction names with
  | nil => rfl
  | cons n rest ih =>
      rw [List.nodup_cons] at h
      have hother : ∀ m ∈ rest, (!m == n) = true := by
        intro m hm
        have hne : m ≠ n := by
          rintro rfl
          exact h.1 hm
        simpa using hne
      rw [List.eraseDups_cons, List.filter_eq_self.2 hother, ih h.2]

namespace Row

/-- Setting names that are new and distinct appends them. -/
theorem names_extend_of_disjoint {row : Row} {names : List String} (hnodup : names.Nodup)
    (hnew : ∀ n ∈ names, n ∉ row.names) (value : Value) :
    (row.extend (names.map fun n => (n, value))).names = row.names ++ names := by
  have hnames : (names.map fun n => (n, value)).map Prod.fst = names := by
    rw [List.map_map]
    exact List.map_id names
  have hentries : (row.extend (names.map fun n => (n, value))).entries = row.entries ++ names.map fun n => (n, value) :=
    entries_extend (by rwa [hnames]) (List.forall_mem_map.2 hnew)
  rw [Row.names, hentries, List.map_append, hnames]
  rfl

end Row

/-- The columns that take NULL are listed once each, in the order of their bytes. -/
theorem TableDefinition.lists_nullableColumns (table : TableDefinition) :
    Lists table.nullableColumns fun n => ∃ column, table.column? n = some column ∧ column.nullable = true where
  ascending := List.pairwise_map.2 ((table.columns_ascending.filter _).imp bytesBefore_of_lt)
  mem_iff _ := table.mem_nullableColumns

theorem TableDefinition.nodup_nullableColumns (table : TableDefinition) : table.nullableColumns.Nodup :=
  table.nodup_columnNames.sublist (List.filter_sublist.map Prod.fst)

theorem TableDefinition.names_nullRow (table : TableDefinition) : table.nullRow.names = table.nullableColumns :=
  Row.names_extend_of_disjoint table.nodup_nullableColumns (fun _ _ => List.not_mem_nil) .null

/-! ## Fields that are written one after the other -/

theorem presentedFields_append (before after : List (Field × Datum)) :
    presentedFields (before ++ after) = presentedFields before ++ presentedFields after := by
  induction before with
  | nil => rfl
  | cons v rest ih =>
      obtain ⟨f, d⟩ := v
      rw [List.cons_append, presentedFields_cons, presentedFields_cons, ih]
      split <;> rfl

/-- The names under which a record presents fields, in the order in which they are declared. -/
def presentedNames (values : List (Field × Datum)) : List String := (presentedFields values).map Prod.fst

namespace Datum

variable {fields : List (String × Datum)} {row row' : Row}

/-- New names are appended in the order of the fields, each where it comes first. -/
theorem names_encodeFields (h : encodeFields row fields = .ok row') :
    row'.names = row.names ++ ((fields.map Prod.fst).filter (· ∉ row.names)).eraseDups := by
  induction fields generalizing row with
  | nil =>
      cases h
      exact (List.append_nil _).symm
  | cons p rest ih =>
      obtain ⟨n, d⟩ := p
      obtain ⟨v, -, hrest⟩ := encodeFields_cons h
      rw [ih hrest, Row.names_set]
      by_cases hmem : n ∈ row.names
      · rw [if_pos hmem, List.map_cons, List.filter_cons_of_neg (by simpa using hmem)]
      · rw [if_neg hmem, List.map_cons, List.filter_cons_of_pos (by simpa using hmem), List.eraseDups_cons,
          List.filter_filter, List.append_assoc]
        have hfilter : (rest.map Prod.fst).filter (· ∉ row.names ++ [n]) =
            (rest.map Prod.fst).filter fun m => !m == n && decide (m ∉ row.names) := by
          refine List.filter_congr fun m _ => ?_
          by_cases hsame : m = n <;> simp [hsame]
        rw [hfilter]
        rfl

/-- Of several fields of one name the last one is kept. -/
theorem get?_encodeFields_of_last {before after : List (String × Datum)} {name : String} {d : Datum}
    (h : encodeFields row (before ++ (name, d) :: after) = .ok row') (hlast : name ∉ after.map Prod.fst) :
    ∃ v, d.encodeField = .ok v ∧ row'.get? name = some v := by
  induction before generalizing row with
  | nil =>
      obtain ⟨v, hv, hrest⟩ := encodeFields_cons h
      exact ⟨v, hv, by rw [get?_encodeFields_of_not_mem hrest hlast, Row.get?_set, if_pos rfl]⟩
  | cons p rest ih =>
      obtain ⟨v, -, hrest⟩ := encodeFields_cons h
      exact ih hrest

/-- Whether a field with this value has a stored form. -/
def Storable (d : Datum) : Prop := ∃ v, d.encodeField = .ok v

theorem encodeFields_isOk : (∃ row', encodeFields row fields = .ok row') ↔ ∀ p ∈ fields, p.2.Storable := by
  induction fields generalizing row with
  | nil => exact iff_of_true ⟨row, rfl⟩ (by simp)
  | cons p rest ih =>
      obtain ⟨n, d⟩ := p
      rw [List.forall_mem_cons]
      constructor
      · rintro ⟨row', h⟩
        obtain ⟨v, hv, hrest⟩ := encodeFields_cons h
        exact ⟨⟨v, hv⟩, ih.1 ⟨row', hrest⟩⟩
      · rintro ⟨⟨v, hv⟩, hrest⟩
        obtain ⟨row', hrow'⟩ := (@ih (row.set n v)).2 hrest
        exact ⟨row', Outcome.bind_eq_ok.2 ⟨v, hv, hrow'⟩⟩

/-- The first field that has no value decides the error. -/
theorem encodeFields_eq_error {e : Error} : encodeFields row fields = .error e ↔
    ∃ before name d after, fields = before ++ (name, d) :: after ∧ (∀ p ∈ before, p.2.Storable) ∧
      d.encodeField = .error e := by
  induction fields generalizing row with
  | nil =>
      constructor
      · intro h
        cases h
      · rintro ⟨before, name, d, after, h, -⟩
        simp at h
  | cons p rest ih =>
      obtain ⟨n, d⟩ := p
      rw [encodeFields, Outcome.bind_eq_error]
      constructor
      · rintro (h | ⟨v, hv, h⟩)
        · exact ⟨[], n, d, rest, rfl, List.forall_mem_nil _, h⟩
        · obtain ⟨before, name, d', after, rfl, hbefore, hd⟩ := ih.1 h
          exact ⟨(n, d) :: before, name, d', after, rfl, List.forall_mem_cons.2 ⟨⟨v, hv⟩, hbefore⟩, hd⟩
      · rintro ⟨before, name, d', after, heq, hbefore, hd⟩
        cases before with
        | nil =>
            obtain ⟨⟨rfl, rfl⟩, -⟩ : (n = name ∧ d = d') ∧ rest = after := by simpa using heq
            exact .inl hd
        | cons q before =>
            obtain ⟨rfl, rfl⟩ := List.cons.inj heq
            obtain ⟨⟨v, hv⟩, hbefore⟩ := List.forall_mem_cons.1 hbefore
            exact .inr ⟨v, hv, ih.2 ⟨before, name, d', after, rfl, hbefore, hd⟩⟩

end Datum

/-! ## Rows of records -/

/-- The row of a record in a table, given the fields of its type with their values. -/
structure SeededRow (table : TableDefinition) (values : List (Field × Datum)) (row : Row) : Prop where
  distinct : row.names.Nodup
  /-- The columns that take NULL stand first; behind them stand the other fields that are presented, as declared. -/
  names : row.names =
    table.nullableColumns ++ ((presentedNames values).filter (· ∉ table.nullableColumns)).eraseDups
  nullable : Lists table.nullableColumns fun n => ∃ column, table.column? n = some column ∧ column.nullable = true
  /-- A field that is presented has its value; of several with one name it is the last one. -/
  presented : ∀ before f d after, values = before ++ (f, d) :: after → f.presents d = true →
    f.name ∉ presentedNames after → ∃ v, d.encodeField = .ok v ∧ row.get? f.name = some v
  seeded : ∀ n ∈ table.nullableColumns, n ∉ presentedNames values → row.get? n = some .null
  /-- If no two fields have one name, that is each field that is presented. -/
  apart : (presentedNames values).Nodup →
    row.names = table.nullableColumns ++ (presentedNames values).filter (· ∉ table.nullableColumns) ∧
      ∀ f d, (f, d) ∈ values → f.presents d = true → ∃ v, d.encodeField = .ok v ∧ row.get? f.name = some v

/-- What becomes of a record that is written in a table, given the fields of its type with their values. -/
structure Seeded (table : TableDefinition) (values : List (Field × Datum)) (result : Outcome Row) : Prop where
  ok_iff : (∃ row, result = .ok row) ↔ ∀ p ∈ values, p.1.presents p.2 = true → p.2.Storable
  row : ∀ row, result = .ok row → SeededRow table values row
  /-- The first field that is presented and has no stored form is to blame. -/
  error_iff : ∀ e, result = .error e ↔ ∃ before f d after, values = before ++ (f, d) :: after ∧
    f.presents d = true ∧ d.encodeField = .error e ∧ ∀ p ∈ before, p.1.presents p.2 = true → p.2.Storable

theorem forall_presentedFields {values : List (Field × Datum)} {P : Datum → Prop} :
    (∀ p ∈ presentedFields values, P p.2) ↔ ∀ p ∈ values, p.1.presents p.2 = true → P p.2 := by
  constructor
  · exact fun h p hp hpresents => h (p.1.name, p.2) (mem_presentedFields.2 ⟨p.1, hp, hpresents, rfl⟩)
  · rintro h ⟨name, d⟩ hp
    obtain ⟨f, hf, hpresents, -⟩ := mem_presentedFields.1 hp
    exact h (f, d) hf hpresents

/-- A presented field comes from a declared one, and the fields before it from those declared before that. -/
theorem exists_split_of_presentedFields {values : List (Field × Datum)} {before after : List (String × Datum)}
    {name : String} {d : Datum} (h : presentedFields values = before ++ (name, d) :: after) :
    ∃ declared f rest, values = declared ++ (f, d) :: rest ∧ f.presents d = true ∧ presentedFields declared = before := by
  induction values generalizing before with
  | nil => simp [presentedFields] at h
  | cons v rest ih =>
      obtain ⟨f, e⟩ := v
      rw [presentedFields_cons] at h
      split at h
      · rename_i hpresents
        cases before with
        | nil =>
            obtain ⟨⟨rfl, rfl⟩, -⟩ : (f.name = name ∧ e = d) ∧ presentedFields rest = after := by simpa using h
            exact ⟨[], f, rest, rfl, hpresents, rfl⟩
        | cons p before =>
            obtain ⟨rfl, hrest⟩ := List.cons.inj h
            obtain ⟨declared, g, others, rfl, hg, hbefore⟩ := ih hrest
            exact ⟨(f, e) :: declared, g, others, rfl, hg, by rw [presentedFields_cons, if_pos hpresents, hbefore]⟩
      · rename_i hpresents
        obtain ⟨declared, g, others, rfl, hg, hbefore⟩ := ih h
        exact ⟨(f, e) :: declared, g, others, rfl, hg, by rw [presentedFields_cons, if_neg hpresents, hbefore]⟩

/-- A record is written over the columns of a table that take NULL, whatever the table and the record are. -/
theorem encodeWith_seeded (table : TableDefinition) (values : List (Field × Datum)) :
    Seeded table values ((Datum.record (presentedFields values)).encodeWith table) := by
  have hencode : (Datum.record (presentedFields values)).encodeWith table =
      Datum.encodeFields table.nullRow (presentedFields values) := rfl
  rw [hencode]
  refine ⟨?_, fun row h => ?_, fun e => ?_⟩
  · exact Datum.encodeFields_isOk.trans forall_presentedFields
  · have hnames : row.names =
        table.nullableColumns ++ ((presentedNames values).filter (· ∉ table.nullableColumns)).eraseDups := by
      rw [Datum.names_encodeFields h, table.names_nullRow]
      rfl
    refine
      { distinct := row.distinct
        names := hnames
        nullable := table.lists_nullableColumns
        presented := ?_
        seeded := fun n hn hnot => ?_
        apart := fun hapart => ⟨?_, fun f d hmem hpresents => ?_⟩ }
    · rintro before f d after rfl hpresents hlast
      rw [presentedFields_append, presentedFields_cons, if_pos hpresents] at h
      exact Datum.get?_encodeFields_of_last h hlast
    · rw [Datum.get?_encodeFields_of_not_mem h hnot, table.get?_nullRow, if_pos hn]
    · rw [hnames, eraseDups_of_nodup (hapart.filter _)]
    · exact Datum.get?_encodeFields_of_mem h hapart (mem_presentedFields.2 ⟨f, hmem, hpresents, rfl⟩)
  · rw [Datum.encodeFields_eq_error]
    constructor
    · rintro ⟨before, name, d, after, hsplit, hbefore, hd⟩
      obtain ⟨declared, f, rest, rfl, hpresents, rfl⟩ := exists_split_of_presentedFields hsplit
      exact ⟨declared, f, d, rest, rfl, hpresents, hd, forall_presentedFields.1 hbefore⟩
    · rintro ⟨before, f, d, after, rfl, hpresents, hd, hbefore⟩
      refine ⟨presentedFields before, f.name, d, presentedFields after, ?_, forall_presentedFields.2 hbefore, hd⟩
      rw [presentedFields_append, presentedFields_cons, if_pos hpresents]

/-- A note without a body in a table that takes NULL for its body and its tags. -/
example : ((Datum.record [("id", .int .i64 4), ("tags", .list [])]).encodeWith
      { name := "notes", columns := [("body", ⟨.text, true⟩), ("id", ⟨.integer, false⟩), ("tags", ⟨.text, true⟩)]
        primaryKey := [], indexes := [], columns_ascending := by decide, indexes_ascending := by decide
        key_known := by decide, indexes_known := by decide }).map Row.entries =
    .ok [("body", .null), ("tags", .text "[]"), ("id", .int 4)] := by
  rfl

end RecordTables
