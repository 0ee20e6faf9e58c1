import RecordTables.Proofs.Record.Agreement
import RecordTables.Proofs.Record.LegibleFields
import RecordTables.Proofs.Record.OneField
import RecordTables.Proofs.Record.RoundTrip

/-!
# Rows of legible types read

A record of a legible type is read from its row exactly if no column that the type reads is missing: the record has
presented it, or the table fills it with NULL.
-/

namespace RecordTables

open RecordTables.Json (Document)

/-- Whether all columns of a record may be read. -/
def Datum.columnsFinite : Datum → Bool
  | .record fields => fields.all fun p => p.2.storedFinite
  | _ => true

namespace Shape

/-! ## The class -/

/-- Whether a field reads NULL wherever its column takes it. -/
def answersNull : Shape → Bool
  | .option _ => true
  | s => !s.key.2 && !s.refusesNull

/-- Whether a check has a say in what a row may hold. -/
def checkedRow : Shape → Bool
  | .box s => s.checkedRow
  | .transparent _ s => s.checkedRow
  | .checked _ _ _ => true
  | _ => false

/-- Whether the rows of a type without wrappers are read as they were written. -/
def exactColumns : Shape → Bool
  | .record name strict fields => (record name strict fields).plain && fields.all fun p => p.2.bare || p.2.isDouble
  | .adjacent name tag content variants => (adjacent name tag content variants).plain && barePayloads variants
  | _ => false

/-- Whether a type without wrappers reads the rows that it writes.  A field that is not always written is read as NULL
if the record leaves it out. -/
def legibleColumns : Shape → Bool
  | .record name strict fields =>
      decide (fields.map fun p => p.1.name).Nodup && fields.all fun p =>
        p.1.constant.isSome ||
          (p.2.legibleField ((record name strict fields).legible true) && (p.1.writing == .always || p.2.answersNull))
  | .adjacent name tag content variants =>
      tag != content && decide (variants.map Prod.fst).Nodup &&
        variants.all fun v => (v.2.shape name).legibleField false
  | _ => false

/-- Whether a type reads the rows that it writes.  What a check has let pass has to come back as it was. -/
def legibleRow (s : Shape) : Bool := if s.checkedRow then s.rowShape.exactColumns else s.rowShape.legibleColumns

/-- The columns that a row of a type has to have. -/
def readNames (s : Shape) : List String :=
  match s.rowShape with
  | .record _ _ fields => (fields.filter fun p => p.1.constant.isNone).map fun p => p.1.name
  | .adjacent _ tag content _ => [tag, content]
  | _ => []

theorem legibleColumns_record {name : TypeName} {strict : Bool} {fields : List (Field × Shape)} :
    (record name strict fields).legibleColumns = true ↔ (fields.map fun p => p.1.name).Nodup ∧
      ∀ p ∈ fields, p.1.constant = none →
        p.2.legibleField ((record name strict fields).legible true) = true ∧
          (p.1.writing = .always ∨ p.2.answersNull = true) := by
  rw [legibleColumns, Bool.and_eq_true, decide_eq_true_eq, List.all_eq_true]
  refine and_congr_right fun _ => forall₂_congr fun p _ => ?_
  rw [Bool.or_eq_true, Bool.and_eq_true, Bool.or_eq_true, beq_iff_eq]
  cases p.1.constant <;> simp

theorem legibleColumns_adjacent {name : TypeName} {tag content : String} {variants : List (String × Payload)} :
    (adjacent name tag content variants).legibleColumns = true ↔ tag ≠ content ∧ (variants.map Prod.fst).Nodup ∧
      ∀ v ∈ variants, (v.2.shape name).legibleField false = true := by
  rw [legibleColumns, Bool.and_eq_true, Bool.and_eq_true, decide_eq_true_eq, bne_iff_ne, List.all_eq_true, and_assoc]

end Shape

/-- What the definition of a table says about reading the fields of its records: each of them is read under its own
name, and reads NULL where its column takes it. -/
def TableDefinition.Answers (table : TableDefinition) (around : Shape) (fields : List (Field × Shape)) : Prop :=
  ∀ p ∈ fields, p.1.constant = none → p.1.names = [p.1.name] ∧
    (p.2.answersNull = true → p.1.name ∈ table.nullableColumns →
      ∃ e, Shape.decodeField around ⟨p.1.name, .null⟩ p.2 = .ok e)

namespace Shape

variable {registry : Registry} {around : Shape} {table : TableDefinition} {row : Row}

/-- A field whose column takes NULL reads it. -/
theorem decodeField_null_of_settle {s : Shape} {d : Datum} {c : Column} {column : String}
    (hanswers : s.answersNull = true) (hsettle : settleShape registry around s (probe registry around s) = .ok (d, c))
    (hnullable : c.nullable = true) : ∃ e, decodeField around ⟨column, .null⟩ s = .ok e := by
  by_cases hoption : ∃ content, s = .option content
  · obtain ⟨content, rfl⟩ := hoption
    exact ⟨.absent, rfl⟩
  · rw [answersNull, Bool.and_eq_true, Bool.not_eq_true', Bool.not_eq_true'] at hanswers
    · obtain ⟨hkey, hrefuses⟩ := hanswers
      cases hlookup : registry.lookup s.key.1 with
      -- A sample says what the name of the type says, which is no option.
      | some sample =>
          unfold settleShape settle at hsettle
          rw [hlookup] at hsettle
          obtain ⟨value, _, hcolumn⟩ := Outcome.bind_eq_ok.1 hsettle
          cases hcolumn
          rw [hkey] at hnullable
          cases hnullable
      | none =>
          obtain ⟨p, hp, _, htype, hsame⟩ := settle_unregistered hlookup hsettle
          exact ⟨_, (decodeField_null hp htype).2 ⟨⟨hsame.trans hnullable, hrefuses⟩, rfl⟩⟩
    · exact fun content h => hoption ⟨content, h⟩

/-! ## Wrapped types -/

theorem readNames_rowShape (s : Shape) : s.readNames = s.rowShape.readNames := by
  unfold readNames
  rw [rowShape_rowShape]

/-- What a type reads from a row, what is around it reads, too. -/
theorem decodeRow_rowShape {s : Shape} {d : Datum} (h : decodeRow row s = .ok d) : decodeRow row s.rowShape = .ok d := by
  induction s using rowShape.induct with
  | case1 s ih => exact ih h
  | case2 name s ih => exact ih h
  | case3 name s refusal ih => exact ih (Datum.bind_pass_eq_ok.1 h).1
  | case4 s hbox htransparent hchecked => rwa [rowShape_eq_self hbox htransparent hchecked]

theorem decodeRow_of_unchecked {s : Shape} (h : s.checkedRow = false) : decodeRow row s = decodeRow row s.rowShape := by
  induction s using rowShape.induct with
  | case1 s ih => exact ih h
  | case2 name s ih => exact ih h
  | case3 name s refusal => cases h
  | case4 s hbox htransparent hchecked => rw [rowShape_eq_self hbox htransparent hchecked]

/-- A row that is read has every column that its type asks for. -/
theorem mem_names_of_decodeRow {s : Shape} {d : Datum}
    (hnames : ∀ name strict fields, s.rowShape = .record name strict fields → table.Answers s.rowShape fields)
    (h : decodeRow row s = .ok d) : ∀ n ∈ s.readNames, n ∈ row.names := by
  have hrow := decodeRow_rowShape h
  intro n hn
  unfold readNames at hn
  generalize s.rowShape = t at hnames hrow hn
  cases t with
  | record name strict fields =>
      have hprobed := hnames name strict fields rfl
      obtain ⟨p, hp, rfl⟩ := List.mem_map.1 hn
      rw [List.mem_filter, Option.isNone_iff_eq_none] at hp
      obtain ⟨v, _, hget, _⟩ :=
        (decodeFields_isOk fun q hq hread => (hprobed q hq hread).1).1 (decodeRow_isOk.1 ⟨d, hrow⟩) p hp.1 hp.2
      exact mem_names_of_cellOf (cellOf_of_get? hget)
  | adjacent name tag content variants =>
      obtain ⟨cell, hcell, hrest⟩ := Outcome.bind_eq_ok.1 hrow
      obtain ⟨told, _, hrest⟩ := Outcome.bind_eq_ok.1 hrest
      -- The tag tells the variant, and only then comes the content.
      split at hrest
      · split at hrest
        · obtain ⟨other, hother, _⟩ := Outcome.bind_eq_ok.1 hrest
          simp only [List.mem_cons, List.not_mem_nil, or_false] at hn
          rcases hn with rfl | rfl
          · exact mem_names_of_cellOf hcell
          · exact mem_names_of_cellOf hother
        · cases hrest
      · cases hrest
  | _ => cases hn

/-! ## Records -/

section

variable {name : TypeName} {strict : Bool} {fields : List (Field × Shape)} {values : List (Field × Datum)}

/-- Every field stands beside its value. -/
theorem exists_value_zip (hfields : values.map Prod.fst = fields.map Prod.fst) {p : Field × Shape} (hp : p ∈ fields) :
    ∃ v, (p, v) ∈ fields.zip values := by
  have hlength : values.length = fields.length := by
    have h := congrArg List.length hfields
    rwa [List.length_map, List.length_map] at h
  obtain ⟨i, hi, rfl⟩ := List.getElem_of_mem hp
  exact ⟨values[i], List.mem_iff_getElem.2 ⟨i, by rw [List.length_zip]; omega, List.getElem_zip ..⟩⟩

/-- A field of a legible record reads the cell that was written for it, or the NULL that stands there if the record
left the field out. -/
theorem decodes_of_written (hlegible : (record name strict fields).legibleColumns = true)
    (hfields : values.map Prod.fst = fields.map Prod.fst)
    (h : ∀ p ∈ fields.zip values, IsValue (.record name strict fields) p.1.2 p.2.2)
    (hfinite : ∀ p ∈ presentedFields values, p.2.storedFinite = true)
    (hrow : Datum.encodeFields table.nullRow (presentedFields values) = .ok row)
    (hprobed : table.Answers (.record name strict fields) fields)
    {p : Field × Shape} (hp : p ∈ fields) (hread : p.1.constant = none)
    (hcolumn : p.1.name ∈ (presentedFields values).map Prod.fst ∨ p.1.name ∈ table.nullableColumns) :
    ∃ v e, row.get? p.1.name = some v ∧ decodeField (.record name strict fields) ⟨p.1.name, v⟩ p.2 = .ok e := by
  obtain ⟨hnodup, hall⟩ := legibleColumns_record.1 hlegible
  obtain ⟨hfield, hwriting⟩ := hall p hp hread
  obtain ⟨⟨f, d⟩, hd⟩ := exists_value_zip hfields hp
  obtain ⟨_, hvalue, hsame⟩ := of_mem_zip hfields hd
  change f = p.1 at hsame
  subst hsame
  by_cases hpresents : p.1.presents d = true
  · have hmem : (p.1.name, d) ∈ presentedFields values := mem_presentedFields.2 ⟨p.1, hvalue, hpresents, rfl⟩
    obtain ⟨v, hv, hcell⟩ := Datum.get?_encodeFields_of_mem hrow (nodup_presentedFields hfields hnodup) hmem
    obtain ⟨e, he⟩ := fills_of_legible (h _ hd) id hfield (hfinite _ hmem) p.1.name v hv
    exact ⟨v, e, hcell, he⟩
  · have hleft : p.1.presents d = false := by simpa using hpresents
    have hnot : p.1.name ∉ (presentedFields values).map Prod.fst := by
      rw [← names_of_values hfields] at hnodup
      exact not_mem_presentedFields hnodup hvalue hleft
    have hnullable := hcolumn.resolve_left hnot
    have hanswers : p.2.answersNull = true := by
      apply hwriting.resolve_left
      intro halways
      simp [Field.presents, halways] at hleft
    obtain ⟨e, he⟩ := (hprobed p hp hread).2 hanswers hnullable
    refine ⟨.null, e, ?_, he⟩
    rw [Datum.get?_encodeFields_of_not_mem hrow hnot, TableDefinition.get?_nullRow, if_pos hnullable]

/-- A row of a legible record is read if no column is missing. -/
theorem record_decodes (hlegible : (record name strict fields).legibleColumns = true)
    (hfields : values.map Prod.fst = fields.map Prod.fst)
    (h : ∀ p ∈ fields.zip values, IsValue (.record name strict fields) p.1.2 p.2.2)
    (hfinite : ∀ p ∈ presentedFields values, p.2.storedFinite = true)
    (hrow : Datum.encodeFields table.nullRow (presentedFields values) = .ok row)
    (hprobed : table.Answers (.record name strict fields) fields)
    (hcolumns : ∀ n ∈ (record name strict fields).readNames, n ∈ row.names) :
    ∃ d, decodeRow row (.record name strict fields) = .ok d := by
  rw [decodeRow_isOk, decodeFields_isOk fun p hp hread => (hprobed p hp hread).1]
  intro p hp hread
  have hname : p.1.name ∈ (record name strict fields).readNames :=
    List.mem_map_of_mem (List.mem_filter.2 ⟨hp, by rw [hread]; rfl⟩)
  have hcolumn := (Datum.mem_names_encodeFields hrow).1 (hcolumns _ hname)
  exact decodes_of_written hlegible hfields h hfinite hrow hprobed hp hread hcolumn

end

/-! ## Adjacently tagged variants -/

section

variable {name : TypeName} {tag content variant : String} {variants : List (String × Payload)}

theorem adjacentUnit_decodes (hlegible : (adjacent name tag content variants).legibleColumns = true)
    (hvariant : (variant, .unit) ∈ variants)
    (hrow : Datum.encodeFields table.nullRow [(tag, .unitVariant variant)] = .ok row) (hcontent : content ∈ row.names) :
    ∃ d, decodeRow row (.adjacent name tag content variants) = .ok d := by
  obtain ⟨hne, hnodup, _⟩ := legibleColumns_adjacent.1 hlegible
  have hpresented : ([(tag, Datum.unitVariant variant)].map Prod.fst).Nodup := by simp
  have hleft : content ∉ [(tag, Datum.unitVariant variant)].map Prod.fst := by simpa using hne.symm
  obtain ⟨v, hv, htag⟩ := Datum.get?_encodeFields_of_mem hrow hpresented (List.mem_cons_self ..)
  cases hv
  -- A unit variant presents no content, so its column was filled with NULL.
  have hnull := ((Datum.mem_names_encodeFields hrow).1 hcontent).resolve_left hleft
  have hcell : row.get? content = some .null := by
    rw [Datum.get?_encodeFields_of_not_mem hrow hleft, TableDefinition.get?_nullRow, if_pos hnull]
  refine ⟨adjacentRecord tag content variant none, ?_⟩
  show decodeAdjacent row name tag content variants = _
  rw [decodeAdjacent_of_tag hnodup hvariant htag, cellOf_of_get? hcell]
  rfl

theorem adjacentContent_decodes {payload : Payload} {d : Datum}
    (hlegible : (adjacent name tag content variants).legibleColumns = true) (hvariant : (variant, payload) ∈ variants)
    (hpayload : payload ≠ .unit) (h : IsValue (.adjacent name tag content variants) (payload.shape name) d)
    (hfinite : d.storedFinite = true)
    (hrow : Datum.encodeFields table.nullRow [(tag, .unitVariant variant), (content, d)] = .ok row) :
    ∃ e, decodeRow row (.adjacent name tag content variants) = .ok e := by
  obtain ⟨hne, hnodup, hvariants⟩ := legibleColumns_adjacent.1 hlegible
  have hpresented : ([(tag, Datum.unitVariant variant), (content, d)].map Prod.fst).Nodup := by simpa using hne
  obtain ⟨v, hv, htag⟩ := Datum.get?_encodeFields_of_mem hrow hpresented (List.mem_cons_self ..)
  cases hv
  obtain ⟨v, hv, hcell⟩ := Datum.get?_encodeFields_of_mem hrow hpresented
    (List.mem_cons_of_mem _ (List.mem_cons_self ..))
  obtain ⟨e, he⟩ := fills_of_legible h (fun hfalse => by cases hfalse) (hvariants _ hvariant) hfinite content v hv
  have hcarried : decodeContent (.adjacent name tag content variants) ⟨content, v⟩ name variant payload =
      .ok (some e) := by
    cases payload with
    | unit => exact absurd rfl hpayload
    | _ =>
        show (decodeField _ _ _ >>= _) = _
        rw [he]
        rfl
  refine ⟨adjacentRecord tag content variant (some e), ?_⟩
  show decodeAdjacent row name tag content variants = _
  rw [decodeAdjacent_of_tag hnodup hvariant htag, cellOf_of_get? hcell]
  show (decodeContent _ _ _ _ _ >>= _) = _
  rw [hcarried]
  rfl

end

/-! ## Rows that are read as they were written -/

theorem storedWhole_of_isDouble {s : Shape} {d : Datum} (h : IsValue around s d) (hdouble : s.isDouble = true) :
    d.storedWhole = true := by
  induction h with
  | double | absent => rfl
  | present h ih => exact ih hdouble
  | box h ih => exact ih hdouble
  | transparent h ih => exact ih hdouble
  | newtype h ih => exact ih hdouble
  | checked h hpass ih => exact ih hdouble
  | _ => simp [isDouble] at hdouble

/-- The columns of such a row hold all of the record. -/
theorem columnsWhole_of_exactColumns {s : Shape} {r : Datum} (h : IsValue around s r) (hexact : s.exactColumns = true)
    (hfinite : r.columnsFinite = true) : r.columnsWhole = true := by
  cases h with
  | @record _ name strict fields values hfields h =>
      rw [exactColumns, Bool.and_eq_true, List.all_eq_true] at hexact
      obtain ⟨hplain, hcolumns⟩ := hexact
      refine List.all_eq_true.2 fun p hp => ?_
      have hstored : p.2.storedFinite = true := List.all_eq_true.1 hfinite p hp
      obtain ⟨f, hf, _, _⟩ := mem_presentedFields.1 hp
      obtain ⟨t, ht⟩ := exists_mem_zip hfields hf
      have hmem := (of_mem_zip hfields ht).1
      have hvalue : IsValue (.record name strict fields) t p.2 := h _ ht
      rcases (Bool.or_eq_true ..).mp (hcolumns _ hmem) with hbare | hdouble
      · have hplainField := (plain_of_mem_fields (plain_record.1 hplain).2 _ hmem).2
        exact storedWhole_of_floatFree (floatFree_of_bare hvalue hplainField hbare) hstored
      · exact storedWhole_of_isDouble hvalue hdouble
  | adjacentUnit => rfl
  | @adjacentContent _ name tag content variants variant payload d hvariant hpayload h =>
      rw [exactColumns, Bool.and_eq_true] at hexact
      obtain ⟨hplain, hbare⟩ := hexact
      have hstored : d.storedFinite = true := List.all_eq_true.1 hfinite (content, d) (by simp)
      have hfree := floatFree_of_bare h (plain_shape (plain_of_mem_variants (plain_adjacent.1 hplain).2.2 _ hvariant) name)
        (bare_shape (bare_of_mem_variants hbare _ hvariant) name)
      have hwhole := storedWhole_of_floatFree hfree hstored
      refine List.all_eq_true.2 fun p hp => ?_
      simp only [List.mem_cons, List.not_mem_nil, or_false] at hp
      rcases hp with rfl | rfl
      · rfl
      · exact hwhole
  | _ => cases hexact

theorem plain_of_exactColumns {s : Shape} (hexact : s.exactColumns = true) : s.plain = true := by
  cases s with
  | record | adjacent =>
      rw [exactColumns, Bool.and_eq_true] at hexact
      exact hexact.1
  | _ => cases hexact

/-- Such a row is asked for every column of its type. -/
theorem readNames_of_exactColumns {s : Shape} (hexact : s.rowShape.exactColumns = true) : s.readNames = s.rowNames := by
  unfold readNames rowNames
  generalize s.rowShape = t at hexact
  cases t with
  | record name strict fields =>
      rw [exactColumns, Bool.and_eq_true] at hexact
      have hfields := (plain_record.1 hexact.1).2
      have hall : fields.filter (fun p => p.1.constant.isNone) = fields := by
        refine List.filter_eq_self.2 fun p hp => ?_
        rw [Field.constant_of_plain (plain_of_mem_fields hfields p hp).1]
        rfl
      show (fields.filter _).map _ = _
      rw [hall]
  | adjacent => rfl
  | _ => cases hexact

/-! ## All legible types -/

/-- A row of a legible type without wrappers is read if no column is missing. -/
theorem columns_decode {s : Shape} {r : Datum} (hlegible : s.legibleColumns = true) (hr : IsValue s s r)
    (hfinite : r.columnsFinite = true) (hrow : r.encodeWith table = .ok row)
    (hprobed : ∀ name strict fields, s = .record name strict fields → table.Answers s fields)
    (hcolumns : ∀ n ∈ s.readNames, n ∈ row.names) : ∃ d, decodeRow row s = .ok d := by
  cases s with
  | record name strict fields =>
      obtain ⟨values, hfields, h, rfl⟩ := isValue_record rfl hr
      have hall : ∀ p ∈ presentedFields values, p.2.storedFinite = true := List.all_eq_true.1 hfinite
      exact record_decodes hlegible hfields h hall hrow (hprobed name strict fields rfl) hcolumns
  | adjacent name tag content variants =>
      cases hr with
      | @adjacentUnit _ _ _ _ _ variant hvariant =>
          have hcontent : content ∈ (adjacent name tag content variants).readNames := by
            show content ∈ [tag, content]
            simp
          exact adjacentUnit_decodes hlegible hvariant hrow (hcolumns content hcontent)
      | @adjacentContent _ _ _ _ _ variant payload d hvariant hpayload h =>
          have hstored : d.storedFinite = true := List.all_eq_true.1 hfinite (content, d) (by simp)
          exact adjacentContent_decodes hlegible hvariant hpayload h hstored hrow
  | _ => cases hlegible

/-- A written record of a legible type is read from its row exactly if no column that is read is missing. -/
theorem decodeRow_isOk_iff {s : Shape} {r : Datum} (hlegible : s.legibleRow = true) (hr : IsValue s.rowShape s r)
    (hfinite : r.columnsFinite = true) (hrow : r.encodeWith table = .ok row)
    (hprobed : ∀ name strict fields, s.rowShape = .record name strict fields → table.Answers s.rowShape fields) :
    (∃ d, decodeRow row s = .ok d) ↔ ∀ n ∈ s.readNames, n ∈ r.presentedNames ∨ n ∈ table.nullableColumns := by
  obtain ⟨presented, rfl, hencode⟩ := Datum.encodeWith_ok hrow
  have hnames : (∀ n ∈ s.readNames, n ∈ row.names) ↔
      ∀ n ∈ s.readNames, n ∈ (Datum.record presented).presentedNames ∨ n ∈ table.nullableColumns :=
    forall₂_congr fun n _ => Datum.mem_names_encodeFields hencode
  rw [← hnames]
  refine ⟨fun ⟨d, hd⟩ => mem_names_of_decodeRow hprobed hd, fun hcolumns => ?_⟩
  have hvalue := isValue_rowShape hr
  unfold legibleRow at hlegible
  split at hlegible
  -- What a check has let pass is read as it was, so that the check lets it pass again.
  · have hplain := plain_of_exactColumns hlegible
    have hwhole := columnsWhole_of_exactColumns hvalue hlegible hfinite
    rw [hnames, readNames_rowShape, readNames_of_exactColumns (by rwa [rowShape_rowShape])] at hcolumns
    exact ⟨_, (decodeRow_iff_rowShape hr).2
      ((decodeRow_written hplain rfl hvalue (List.all_eq_true.1 hwhole) hencode).2 hcolumns)⟩
  · rename_i hchecked
    rw [decodeRow_of_unchecked (by simpa using hchecked)]
    rw [readNames_rowShape] at hcolumns
    exact columns_decode hlegible hvalue hfinite hrow hprobed hcolumns

end Shape

namespace RecordType

open Shape

variable {registry : Registry} {type : RecordType} {table : TableDefinition} {name : TypeName} {strict : Bool}
  {fields : List (Field × Shape)}

/-- The names of the fields of a legible type are distinct. -/
theorem distinct_of_legibleRow {s : Shape} (hlegible : s.legibleRow = true)
    (hshape : s.rowShape = .record name strict fields) : (fields.map fun p => p.1.name).Nodup := by
  unfold legibleRow at hlegible
  rw [hshape] at hlegible
  split at hlegible
  · exact (plain_record.1 (plain_of_exactColumns hlegible)).1
  · exact (legibleColumns_record.1 hlegible).1

theorem answers_of_definition (hshape : type.shape.rowShape = .record name strict fields)
    (hdistinct : (fields.map fun p => p.1.name).Nodup) (h : type.definition registry = .ok table) :
    table.Answers (.record name strict fields) fields := by
  obtain ⟨probed, hprobed⟩ := probeFields_of_definition hshape h
  intro p hp hread
  refine ⟨(settled_of_probeFields hprobed p hp hread).1, fun hanswers hmem => ?_⟩
  obtain ⟨c, hc, hnullable⟩ := table.mem_nullableColumns.1 hmem
  obtain ⟨q, hq, _, hname, d, hsettle⟩ := (column?_of_definition hshape hdistinct h).1 hc
  have hsame : q = p := eq_of_name_eq hdistinct hq hp hname
  subst hsame
  exact decodeField_null_of_settle hanswers hsettle hnullable

/-- A record of one field has a definition if a value of the field can be made up. -/
theorem definition_one {s : Shape} {p : Probed} {type : ColumnType}
    (hp : probe .empty (Gallery.one "gallery" s).shape s = .ok p) (htype : p.type = some type) :
    ∃ table, (Gallery.one "gallery" s).definition .empty = .ok table := by
  have hcolumn : oneColumn .empty "gallery" s = .ok (p.value, ⟨type, p.nullable⟩) := by
    unfold oneColumn
    rw [hp]
    simp only [settleShape, settle, htype]
    rfl
  exact ⟨_, by rw [definition_one_eq, hcolumn]; rfl⟩

theorem isValue_one {around s : Shape} {d : Datum} (h : IsValue (Gallery.one "gallery" s).shape s d) :
    IsValue around (Gallery.one "gallery" s).shape (.record [("v", d)]) := by
  refine @IsValue.record around _ _ _ [({ name := "v" }, d)] rfl ?_
  intro p hp
  rw [List.mem_singleton.1 hp]
  exact h

/-- A list of numbers, one of which may be missing. -/
def numbers : Datum := .list [.present (.double (.ofInt 3)), .absent]

/-- A field whose document is no value of its type makes the record unreadable. -/
theorem decode_one_error {s : Shape} {p : Probed} {type : ColumnType} {d : Datum} {doc : Document}
    (hp : probe .empty (Gallery.one "gallery" s).shape s = .ok p) (htype : p.type = some type)
    (hcompound : d.isCompound = true) (hdoc : d.document? = some doc)
    (hshape : ∀ around cell, decodeField around cell s = cell.document around s)
    (hnone : ((Document.parse? (Text.Symbol.ofString doc.text)).bind
      (readIn? (Gallery.one "gallery" s).shape s)).isNone = true) :
    ∃ row, (Gallery.one "gallery" s).encode .empty (.record [("v", d)]) = .ok row ∧
      (Gallery.one "gallery" s).decode row = .error .json := by
  obtain ⟨table, htable⟩ := definition_one hp htype
  have hvalue : d.encodeField = .ok (.text doc.text) := by
    rw [Datum.encodeField_compound hcompound, Datum.documentText, hdoc]
  have hrow : Datum.encodeWith table (.record [("v", d)]) = .ok (table.nullRow.set "v" (.text doc.text)) := by
    show Datum.encodeFields table.nullRow [("v", d)] = _
    rw [Datum.encodeFields, hvalue]
    rfl
  refine ⟨_, Outcome.bind_eq_ok.2 ⟨table, htable, hrow⟩, ?_⟩
  have hcell : (table.nullRow.set "v" (.text doc.text)).get? "v" = some (.text doc.text) := by
    rw [Row.get?_set, if_pos rfl]
  have herror : decodeField (Gallery.one "gallery" s).shape ⟨"v", .text doc.text⟩ s = .error .json := by
    rw [Option.isNone_iff_eq_none] at hnone
    simp only [hshape, Cell.document, bind, Except.bind, hnone]
  rw [decode_one hcell, herror]
  rfl

/-- A tree with one kid below the other. -/
def rootedTree : Nat → Datum
  | 0 => .record [("v", .int Gallery.i32 0), ("kids", .list [])]
  | n + 1 => .record [("v", .int Gallery.i32 0), ("kids", .list [rootedTree n])]

theorem isCompound_rootedTree (n : Nat) : (rootedTree n).isCompound = true := by
  cases n <;> rfl

theorem isValue_rootedTree (n : Nat) : ∀ around, IsValue around (Gallery.tree "gallery") (rootedTree n) := by
  have hnode : ∀ (kids : List Datum) around, (∀ d ∈ kids, IsValue (Gallery.tree "gallery") (Gallery.tree "gallery") d) →
      IsValue around (Gallery.tree "gallery") (.record [("v", .int Gallery.i32 0), ("kids", .list kids)]) := by
    intro kids around hkids
    refine @IsValue.record around _ _ _ [({ name := "v" }, .int Gallery.i32 0), ({ name := "kids" }, .list kids)] rfl ?_
    intro p hp
    simp only [Gallery.fields, List.map_cons, List.map_nil, List.zip_cons_cons, List.zip_nil_right, List.mem_cons,
      List.not_mem_nil, or_false] at hp
    rcases hp with rfl | rfl
    · exact .int rfl
    · exact .list fun d hd => .enclosing (hkids d hd)
  induction n with
  | zero => exact fun around => hnode [] around (by simp)
  | succ n ih =>
      refine fun around => hnode [rootedTree n] around fun d hd => ?_
      rw [List.mem_singleton.1 hd]
      exact ih _

/-- A check that refuses what is missing, of a value that may be a unit. -/
def presentUnit : Shape := .checked (.simple "Certain") (.option Gallery.unit) missingRefusal

theorem probeRecord_writeGap : probeRecord .empty (Gallery.writeGap "gallery").shape =
    .ok (.record [("id", .int .i64 1)],
      [("id", ⟨.integer, false⟩), ("secret", ⟨.text, false⟩), ("hint", ⟨.text, true⟩)]) := by
  show probeRecord .empty (.record _ _ [({ name := "id" }, .int .i64), ({ name := "secret", writing := .never }, .text),
    ({ name := "hint", writing := .never }, .option .text)]) = _
  have hid : Field.names { name := "id" } = ["id"] := Field.names_of_unaliased rfl rfl
  have hsecret : Field.names { name := "secret", writing := .never } = ["secret"] := Field.names_of_unaliased rfl rfl
  have hhint : Field.names { name := "hint", writing := .never } = ["hint"] := Field.names_of_unaliased rfl rfl
  simp only [probeRecord, probeFields, settleShape, settle, hid, hsecret, hhint]
  simp only [probe]
  rfl

/-- A field that is never written leaves its column out. -/
theorem decode_writeGap : ∃ r row, IsValue (Gallery.writeGap "gallery").shape (Gallery.writeGap "gallery").shape r ∧
    (Gallery.writeGap "gallery").encode .empty r = .ok row ∧
      (Gallery.writeGap "gallery").decode row = .error (.columnNotFound "secret") := by
  have htable : (Gallery.writeGap "gallery").definition .empty = .ok _ :=
    Outcome.bind_eq_ok.2 ⟨_, probeRecord_writeGap, rfl⟩
  refine ⟨.record [("id", .int .i64 1)], _, ?_, Outcome.bind_eq_ok.2 ⟨_, htable, rfl⟩, ?_⟩
  · refine @IsValue.record _ _ _ _ [({ name := "id" }, .int .i64 1), ({ name := "secret", writing := .never }, .text "s"),
      ({ name := "hint", writing := .never }, .absent)] rfl ?_
    intro p hp
    simp only [List.zip_cons_cons, List.zip_nil_right, List.mem_cons, List.not_mem_nil, or_false] at hp
    rcases hp with rfl | rfl | rfl
    · exact .int rfl
    · exact .text "s"
    · exact .absent
  · show (decodeFields _ _ [({ name := "id" }, _), ({ name := "secret", writing := .never }, _), _] >>= _) = _
    rw [decodeFields_cons rfl (Field.names_of_unaliased rfl rfl), decodeFields_cons rfl (Field.names_of_unaliased rfl rfl)]
    rfl

/-- A variant without content leaves the column of the content out. -/
theorem decode_adjacentUnit : ∃ r row,
    IsValue (Gallery.adjacent "gallery") (Gallery.bare "gallery" (Gallery.adjacent "gallery")).shape r ∧
      (Gallery.bare "gallery" (Gallery.adjacent "gallery")).encode .empty r = .ok row ∧
        (Gallery.bare "gallery" (Gallery.adjacent "gallery")).decode row = .error (.columnNotFound "c") := by
  have hprobe : probeRecord .empty (Gallery.bare "gallery" (Gallery.adjacent "gallery")).shape =
      .ok (.record [("t", .unitVariant "Num"), ("c", .int .i64 1)],
        [("t", ⟨.text, false⟩), ("c", ⟨.integer, false⟩)]) := by
    show probeRecord .empty (.transparent _ (.adjacent _ _ _ (("Num", .newtype (.int .i64)) :: _))) = _
    simp only [probeRecord, probeContent, settleContent, settle]
    simp only [probe]
    rfl
  have htable : (Gallery.bare "gallery" (Gallery.adjacent "gallery")).definition .empty = .ok _ :=
    Outcome.bind_eq_ok.2 ⟨_, hprobe, rfl⟩
  exact ⟨.record [("t", .unitVariant "Unit")], _, .transparent (.adjacentUnit (by simp)),
    Outcome.bind_eq_ok.2 ⟨_, htable, rfl⟩, rfl⟩

/-- No document is read beyond 127 levels. -/
theorem decode_rootedTree :
    ∃ row, (Gallery.one "gallery" (Gallery.tree "gallery")).encode .empty (.record [("v", rootedTree 63)]) = .ok row ∧
      (Gallery.one "gallery" (Gallery.tree "gallery")).decode row = .error .json := by
  have hprobe : probe .empty (Gallery.one "gallery" (Gallery.tree "gallery")).shape (Gallery.tree "gallery") =
      .ok ⟨.record [("v", .int Gallery.i32 1), ("kids", .list [])], some .text, false⟩ := by
    have hnames : ∀ name, Field.names { name } = [name] := fun _ => Field.names_of_unaliased rfl rfl
    show probe .empty _ (.record _ _ [({ name := "v" }, _), ({ name := "kids" }, _)]) = _
    simp only [probe, probeFields, settleShape, settle, hnames]
    rfl
  obtain ⟨doc, hdoc⟩ := Option.isSome_iff_exists.1 (show (rootedTree 63).document?.isSome = true by decide +kernel)
  have hread : (readIn? (Gallery.one "gallery" (Gallery.tree "gallery")).shape (Gallery.tree "gallery")
      ((rootedTree 63).document?.getD .null)).isNone = true := by
    decide +kernel
  rw [hdoc, Option.getD_some] at hread
  refine decode_one_error hprobe rfl (isCompound_rootedTree 63) hdoc (fun _ _ => rfl) ?_
  rw [Datum.parse_document (show (rootedTree 63).floatFree = true by decide +kernel) hdoc]
  exact hread

end RecordType

end RecordTables
