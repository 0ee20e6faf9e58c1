import RecordTables.Proofs.Record.Rows
import RecordTables.Proofs.Record.Stored
import RecordTables.Proofs.Schema.Columns
import RecordTables.Gallery.Records

/-!
# Rows of records read back

The row of a record of a plain type is read as the record, unless it lacks a column that the record left out and that
the table does not fill with NULL.
-/

namespace RecordTables

namespace Shape

/-- What is around the rows of a type is plain exactly if the type is. -/
theorem plain_rowShape (s : Shape) : s.rowShape.plain = s.plain := by
  induction s using rowShape.induct with
  | case1 s ih => exact ih
  | case2 name s ih => exact ih
  | case3 name s refusal ih => exact ih
  | case4 s hbox htransparent hchecked => rw [rowShape_eq_self hbox htransparent hchecked]

/-- What is around the rows of a type is not wrapped again. -/
theorem rowShape_ne_wrapped (s : Shape) :
    (∀ t, s.rowShape ≠ .box t) ∧ (∀ name t, s.rowShape ≠ .transparent name t) ∧
      ∀ name t refusal, s.rowShape ≠ .checked name t refusal := by
  induction s using rowShape.induct with
  | case1 s ih => exact ih
  | case2 name s ih => exact ih
  | case3 name s refusal ih => exact ih
  | case4 s hbox htransparent hchecked =>
      rw [rowShape_eq_self hbox htransparent hchecked]
      exact ⟨hbox, htransparent, hchecked⟩

@[simp]
theorem rowShape_rowShape (s : Shape) : s.rowShape.rowShape = s.rowShape := by
  obtain ⟨hbox, htransparent, hchecked⟩ := s.rowShape_ne_wrapped
  exact rowShape_eq_self hbox htransparent hchecked

theorem isValue_rowShape {around s : Shape} {r : Datum} (h : IsValue around s r) : IsValue around s.rowShape r := by
  induction s using rowShape.induct with
  | case1 s ih =>
      cases h with
      | box h => exact ih h
  | case2 name s ih =>
      cases h with
      | transparent h => exact ih h
  | case3 name s refusal ih =>
      cases h with
      | checked h _ => exact ih h
  | case4 s hbox htransparent hchecked => rwa [rowShape_eq_self hbox htransparent hchecked]

/-- The columns that a row of a type is asked for. -/
def rowNames (s : Shape) : List String :=
  match s.rowShape with
  | .record _ _ fields => fields.map fun p => p.1.name
  | .adjacent _ tag content _ => [tag, content]
  | _ => []

end Shape

namespace Datum

/-- The columns that a record presents. -/
def presentedNames : Datum → List String
  | .record fields => fields.map Prod.fst
  | _ => []

/-- Whether the columns of a record hold all of it. -/
def columnsWhole : Datum → Bool
  | .record fields => fields.all fun p => p.2.storedWhole
  | _ => true

end Datum

namespace Shape

variable {table : TableDefinition} {row : Row}

/-! ## Records -/

section

variable {name : TypeName} {strict : Bool} {fields : List (Field × Shape)} {values : List (Field × Datum)}

/-- A field reads what was written under its name, or the NULL that stands there if the record left the field out. -/
theorem decodeField_of_written (hplain : (Shape.record name strict fields).plain = true)
    (hfields : values.map Prod.fst = fields.map Prod.fst)
    (h : ∀ p ∈ fields.zip values, IsValue (.record name strict fields) p.1.2 p.2.2)
    (hwhole : ∀ p ∈ presentedFields values, p.2.storedWhole = true)
    (hrow : Datum.encodeFields table.nullRow (presentedFields values) = .ok row)
    (hcolumns : ∀ p ∈ fields, p.1.name ∈ (presentedFields values).map Prod.fst ∨ p.1.name ∈ table.nullableColumns)
    {p : (Field × Shape) × (Field × Datum)} (hp : p ∈ fields.zip values) :
    ∃ v, row.get? p.1.1.name = some v ∧
      decodeField (.record name strict fields) ⟨p.1.1.name, v⟩ p.1.2 = .ok p.2.2 := by
  obtain ⟨hnodup, hplainFields⟩ := plain_record.1 hplain
  obtain ⟨hfield, hvalue, hsame⟩ := of_mem_zip hfields hp
  obtain ⟨hplainField, hplainShape⟩ := plain_of_mem_fields hplainFields p.1 hfield
  by_cases hpresents : p.1.1.presents p.2.2 = true
  · have hmem : (p.1.1.name, p.2.2) ∈ presentedFields values :=
      mem_presentedFields.2 ⟨p.1.1, hsame ▸ hvalue, hpresents, rfl⟩
    obtain ⟨v, hv, hcell⟩ := Datum.get?_encodeFields_of_mem hrow (nodup_presentedFields hfields hnodup) hmem
    exact ⟨v, hcell, restores_of_isValue (h p hp) (.inl hplain) hplainShape (hwhole _ hmem) _ v hv⟩
  -- What is left out is an absence, and an absence is stored as NULL.
  · have hleft : p.1.1.presents p.2.2 = false := by simpa using hpresents
    obtain ⟨habsent, _⟩ := Field.absent_of_not_presents hplainField hleft
    have hnot : p.1.1.name ∉ (presentedFields values).map Prod.fst := by
      rw [← names_of_values hfields] at hnodup
      rw [← hsame]
      exact not_mem_presentedFields hnodup hvalue (by rw [hsame]; exact hleft)
    have hnull : p.1.1.name ∈ table.nullableColumns := (hcolumns p.1 hfield).resolve_left hnot
    refine ⟨.null, ?_, ?_⟩
    · rw [Datum.get?_encodeFields_of_not_mem hrow hnot, TableDefinition.get?_nullRow, if_pos hnull]
    · have hwholeAbsent : p.2.2.storedWhole = true := by
        rw [habsent]
        rfl
      have hstored : p.2.2.encodeField = .ok .null := by
        rw [habsent]
        rfl
      exact restores_of_isValue (h p hp) (.inl hplain) hplainShape hwholeAbsent _ _ hstored

theorem decodeRow_record (hplain : (Shape.record name strict fields).plain = true)
    (hfields : values.map Prod.fst = fields.map Prod.fst)
    (h : ∀ p ∈ fields.zip values, IsValue (.record name strict fields) p.1.2 p.2.2)
    (hwhole : ∀ p ∈ presentedFields values, p.2.storedWhole = true)
    (hrow : Datum.encodeFields table.nullRow (presentedFields values) = .ok row) :
    decodeRow row (.record name strict fields) = .ok (.record (presentedFields values)) ↔
      ∀ p ∈ fields, p.1.name ∈ (presentedFields values).map Prod.fst ∨ p.1.name ∈ table.nullableColumns := by
  obtain ⟨hnodup, hplainFields⟩ := plain_record.1 hplain
  have hread : ∀ p ∈ fields, p.1.constant = none ∧ p.1.names = [p.1.name] := by
    intro p hp
    have hfield := (plain_of_mem_fields hplainFields p hp).1
    exact ⟨Field.constant_of_plain hfield, Field.names_of_plain hfield⟩
  constructor
  -- A field of a plain record is always read, so its column must be there.
  · intro hdecode p hp
    obtain ⟨found, hfound, _⟩ := Outcome.bind_eq_ok.1 hdecode
    rw [← Datum.mem_names_encodeFields hrow]
    exact mem_names_of_decodeFields hread hfound p hp
  · intro hcolumns
    have hdecode : decodeFields (.record name strict fields) row fields = .ok values :=
      decodeFields_of_forall hfields hread fun p hp =>
        decodeField_of_written hplain hfields h hwhole hrow hcolumns hp
    show (decodeFields (.record name strict fields) row fields >>= _) = _
    rw [hdecode]
    rfl

end

/-! ## Adjacently tagged variants -/

/-- The tag of a row tells the variant, and the rest is its content. -/
theorem decodeAdjacent_of_tag {name : TypeName} {tag content : String} {variants : List (String × Payload)}
    (hnodup : (variants.map Prod.fst).Nodup) {variant : String} {payload : Payload}
    (hvariant : (variant, payload) ∈ variants) (htag : row.get? tag = some (.text variant)) :
    decodeAdjacent row name tag content variants = (do
      let cell ← cellOf row content
      let carried ← decodeContent (.adjacent name tag content variants) cell name variant payload
      return adjacentRecord tag content variant carried) := by
  have hname : decodeField (.adjacent name tag content variants) ⟨tag, .text variant⟩
      (.choice name (bareVariants variants)) = .ok (.unitVariant variant) :=
    restores_unitVariant (nodup_bareVariants hnodup) (mem_bareVariants hvariant) tag _ rfl
  simp only [decodeAdjacent, cellOf_of_get? htag, bind, Except.bind, hname, lookup_of_mem hnodup hvariant]
  rfl

theorem decodeRow_adjacentUnit {name : TypeName} {tag content : String} {variants : List (String × Payload)}
    {variant : String} (hplain : (Shape.adjacent name tag content variants).plain = true)
    (hvariant : (variant, .unit) ∈ variants)
    (hrow : Datum.encodeFields table.nullRow [(tag, .unitVariant variant)] = .ok row) :
    decodeRow row (.adjacent name tag content variants) = .ok (adjacentRecord tag content variant none) ↔
      content ∈ table.nullableColumns := by
  obtain ⟨hne, hnodup, _⟩ := plain_adjacent.1 hplain
  have hpresented : ([(tag, Datum.unitVariant variant)].map Prod.fst).Nodup := by simp
  have hcontent : content ∉ [(tag, Datum.unitVariant variant)].map Prod.fst := by simpa using hne.symm
  obtain ⟨v, hv, htag⟩ := Datum.get?_encodeFields_of_mem hrow hpresented (List.mem_cons_self ..)
  cases hv
  have hrest := @decodeAdjacent_of_tag row name tag content variants hnodup variant .unit hvariant htag
  show decodeAdjacent row name tag content variants = _ ↔ _
  rw [hrest]
  constructor
  · intro hdecode
    obtain ⟨cell, hcell, _⟩ := Outcome.bind_eq_ok.1 hdecode
    exact ((Datum.mem_names_encodeFields hrow).1 (mem_names_of_cellOf hcell)).resolve_left hcontent
  · intro hnull
    have hcell : row.get? content = some .null := by
      rw [Datum.get?_encodeFields_of_not_mem hrow hcontent, TableDefinition.get?_nullRow, if_pos hnull]
    rw [cellOf_of_get? hcell]
    rfl

theorem decodeRow_adjacentContent {name : TypeName} {tag content : String} {variants : List (String × Payload)}
    {variant : String} {payload : Payload} {d : Datum}
    (hplain : (Shape.adjacent name tag content variants).plain = true) (hvariant : (variant, payload) ∈ variants)
    (hpayload : payload ≠ .unit) (h : IsValue (.adjacent name tag content variants) (payload.shape name) d)
    (hwhole : d.storedWhole = true)
    (hrow : Datum.encodeFields table.nullRow [(tag, .unitVariant variant), (content, d)] = .ok row) :
    decodeRow row (.adjacent name tag content variants) = .ok (adjacentRecord tag content variant (some d)) := by
  obtain ⟨hne, hnodup, hvariants⟩ := plain_adjacent.1 hplain
  have hpresented : ([(tag, Datum.unitVariant variant), (content, d)].map Prod.fst).Nodup := by simpa using hne
  obtain ⟨v, hv, htag⟩ := Datum.get?_encodeFields_of_mem hrow hpresented (List.mem_cons_self ..)
  cases hv
  obtain ⟨v, hv, hcell⟩ := Datum.get?_encodeFields_of_mem hrow hpresented
    (List.mem_cons_of_mem _ (List.mem_cons_self ..))
  have hvalue := restores_of_isValue h (.inl hplain) (plain_shape (plain_of_mem_variants hvariants _ hvariant) name) hwhole
    content v hv
  have hcarried : decodeContent (.adjacent name tag content variants) ⟨content, v⟩ name variant payload =
      .ok (some d) := by
    cases payload with
    | unit => exact absurd rfl hpayload
    | _ =>
        show (decodeField _ _ _ >>= _) = _
        rw [hvalue]
        rfl
  show decodeAdjacent row name tag content variants = _
  rw [decodeAdjacent_of_tag hnodup hvariant htag, cellOf_of_get? hcell]
  show (decodeContent _ _ _ _ _ >>= _) = _
  rw [hcarried]
  rfl

/-! ## All plain types -/

/-- A check lets a row through as it is read. -/
theorem decodeRow_checked {name : TypeName} {s : Shape} {refusal : Datum → Option String} {r : Datum}
    (hpass : refusal r = none) : decodeRow row (.checked name s refusal) = .ok r ↔ decodeRow row s = .ok r :=
  Datum.bind_pass_eq_ok.trans (and_iff_left hpass)

/-- What is around a type reads its values from the rows that the type itself reads them from. -/
theorem decodeRow_iff_rowShape {around s : Shape} {r : Datum} (h : IsValue around s r) :
    decodeRow row s = .ok r ↔ decodeRow row s.rowShape = .ok r := by
  induction s using rowShape.induct with
  | case1 s ih =>
      cases h with
      | box h => exact ih h
  | case2 name s ih =>
      cases h with
      | transparent h => exact ih h
  | case3 name s refusal ih =>
      cases h with
      | checked h hpass => exact (decodeRow_checked hpass).trans (ih h)
  | case4 s hbox htransparent hchecked => rw [rowShape_eq_self hbox htransparent hchecked]

/-- The rows of a plain type without wrappers: only a record is written, so the value is one of the three that are
records. -/
theorem decodeRow_written {s around : Shape} {presented : List (String × Datum)} (hplain : s.rowShape.plain = true)
    (haround : s.rowShape = around) (h : IsValue around s.rowShape (.record presented))
    (hwhole : ∀ p ∈ presented, p.2.storedWhole = true) (hrow : Datum.encodeFields table.nullRow presented = .ok row) :
    decodeRow row s.rowShape = .ok (.record presented) ↔
      ∀ name ∈ s.rowShape.rowNames, name ∈ presented.map Prod.fst ∨ name ∈ table.nullableColumns := by
  obtain ⟨hbox, htransparent, hchecked⟩ := s.rowShape_ne_wrapped
  generalize s.rowShape = t at *
  generalize hd : Datum.record presented = d at h
  cases h with
  | @record _ name strict fields values hfields h =>
      cases hd
      have hnames : (record name strict fields).rowNames = fields.map fun p => p.1.name := rfl
      rw [decodeRow_record hplain hfields h hwhole hrow, hnames, List.forall_mem_map]
  | @adjacentUnit _ name tag content variants variant hvariant =>
      cases hd
      have hne : tag ≠ content := (plain_adjacent.1 hplain).1
      have hnames : (adjacent name tag content variants).rowNames = [tag, content] := rfl
      have hpresented : [(tag, Datum.unitVariant variant)].map Prod.fst = [tag] := rfl
      rw [hnames, hpresented]
      refine (decodeRow_adjacentUnit hplain hvariant hrow).trans ?_
      constructor
      · intro hnull other hother
        rw [List.mem_cons, List.mem_singleton] at hother
        rcases hother with rfl | rfl
        · exact .inl (List.mem_singleton_self _)
        · exact .inr hnull
      · intro hcolumns
        refine (hcolumns content (by simp)).resolve_left ?_
        rw [List.mem_singleton]
        exact hne.symm
  | @adjacentContent _ name tag content variants variant payload d hvariant hpayload h =>
      cases hd
      rw [← haround] at h
      have hdecode := decodeRow_adjacentContent hplain hvariant hpayload h (hwhole (content, d) (by simp)) hrow
      exact iff_of_true hdecode fun other hother => .inl hother
  | box => exact absurd rfl (hbox _)
  | transparent => exact absurd rfl (htransparent _ _)
  | checked => exact absurd rfl (hchecked _ _ _)
  | @choice _ _ _ _ payload =>
      cases payload <;> cases hd
  | enclosing => cases haround
  | guarded | taggedUnit | taggedFields => simp [plain] at hplain
  | _ => cases hd

/-- A written record of a plain type is read back exactly if the columns that it leaves out are columns of the table
that take NULL. -/
theorem decodeRow_encodeWith {s : Shape} {r : Datum} (hplain : s.plain = true) (hr : IsValue s.rowShape s r)
    (hwhole : r.columnsWhole = true) (hrow : r.encodeWith table = .ok row) :
    decodeRow row s = .ok r ↔ ∀ name ∈ s.rowNames, name ∈ r.presentedNames ∨ name ∈ table.nullableColumns := by
  obtain ⟨presented, rfl, hencode⟩ := Datum.encodeWith_ok hrow
  have hnames : s.rowNames = s.rowShape.rowNames := by rw [rowNames, rowNames, rowShape_rowShape]
  rw [decodeRow_iff_rowShape hr, hnames]
  exact decodeRow_written ((plain_rowShape s).trans hplain) rfl (isValue_rowShape hr) (List.all_eq_true.1 hwhole) hencode

/-! ## Notes -/

/-- A note without a body. -/
def shortNote : Datum := .record [("id", .int .i64 4), ("tags", .list [.text "new"])]

theorem isValue_shortNote {around : Shape} : IsValue around (Gallery.note "gallery").shape shortNote := by
  refine @IsValue.record around _ _ _ [({ name := "id" }, .int .i64 4),
    ({ name := "body", writing := .unlessAbsent }, .absent), ({ name := "tags" }, .list [.text "new"])] rfl ?_
  intro p hp
  simp only [List.zip_cons_cons, List.zip_nil_right, List.mem_cons, List.not_mem_nil, or_false] at hp
  rcases hp with rfl | rfl | rfl
  · exact .int rfl
  · exact .absent
  · refine .list fun d hd => ?_
    rw [List.mem_singleton.1 hd]
    exact .text "new"

/-- A table of notes whose bodies may be missing. -/
def noteTable : TableDefinition where
  name := "Note"
  columns := [("body", ⟨.text, true⟩), ("id", ⟨.integer, false⟩), ("tags", ⟨.text, false⟩)]
  primaryKey := ["id"]
  indexes := []
  columns_ascending := by decide
  indexes_ascending := ascending_noIndexes
  key_known := by decide
  indexes_known := List.forall_mem_nil _

/-- A table that says nothing about its columns. -/
def bareTable : TableDefinition where
  name := "Note"
  columns := []
  primaryKey := []
  indexes := []
  columns_ascending := .nil
  indexes_ascending := ascending_noIndexes
  key_known := List.forall_mem_nil _
  indexes_known := List.forall_mem_nil _

theorem decodeRow_shortNote : ∃ row, shortNote.encodeWith noteTable = .ok row ∧
    decodeRow row (Gallery.note "gallery").shape = .ok shortNote :=
  ⟨_, rfl, (decodeRow_encodeWith (by decide) isValue_shortNote (by decide) rfl).2 (by decide)⟩

/-- Not every row is read as the record that it was written from.  A short note is plain, but it does not fill the
column that it leaves out, and a field that is hidden from writing or from reading, or that has a second name, is
lost in any table. -/
theorem decodeRow_ne_of_left_out :
    (∃ row, shortNote.encodeWith bareTable = .ok row ∧
      decodeRow row (Gallery.note "gallery").shape = .error (.columnNotFound "body")) ∧
    (∃ row, Datum.encodeWith bareTable (.record [("id", .int .i64 1)]) = .ok row ∧
      decodeRow row (Gallery.writeGap "gallery").shape = .error (.columnNotFound "secret")) ∧
    (∃ row, Datum.encodeWith bareTable (.record [("id", .int .i64 1), ("extra", .int Gallery.i32 2)]) = .ok row ∧
      decodeRow row (Gallery.readGap "gallery").shape =
        .ok (.record [("id", .int .i64 1), ("extra", .int Gallery.i32 0)])) ∧
    ∃ row, Datum.encodeWith bareTable (.record [("id", .int .i64 1)]) = .ok row ∧
      decodeRow row (Gallery.aliased "gallery").shape = .error (.serialization (.duplicateField "id")) := by
  have hid : Field.names { name := "id" } = ["id"] := Field.names_of_unaliased rfl rfl
  refine ⟨⟨_, rfl, ?_⟩, ⟨_, rfl, ?_⟩, ⟨_, rfl, ?_⟩, ⟨_, rfl, ?_⟩⟩
  · show (decodeFields _ _ [({ name := "id" }, _), ({ name := "body", writing := .unlessAbsent }, _), _] >>= _) = _
    rw [decodeFields_cons rfl hid, decodeFields_cons rfl (Field.names_of_unaliased rfl rfl)]
    rfl
  · show (decodeFields _ _ [({ name := "id" }, _), ({ name := "secret", writing := .never }, _), _] >>= _) = _
    rw [decodeFields_cons rfl hid, decodeFields_cons rfl (Field.names_of_unaliased rfl rfl)]
    rfl
  · have hone : (Int64.ofInt 1).toInt = 1 := by decide
    show (decodeFields _ _ [({ name := "id" }, _), _, _] >>= _) = _
    rw [decodeFields_cons rfl hid]
    show Except.ok (Datum.record [("id", .int .i64 (Int64.ofInt 1).toInt), ("extra", .int Gallery.i32 0)]) = _
    rw [hone]
  · have hnames : Field.names { name := "id", aliases := ["identifier"] } = ["id", "identifier"] :=
      List.mergeSort_of_pairwise (by decide)
    show (decodeFields _ _ [({ name := "id", aliases := ["identifier"] }, .int .i64)] >>= _) = _
    rw [decodeFields]
    simp only [hnames]
    rfl

end Shape

end RecordTables
