import RecordTables.Proofs.Record.Presented
import RecordTables.Proofs.Record.Cells
import RecordTables.Proofs.Record.Typing

/-!
# Rows of records

A record is written field by field over a row that holds NULL for every column that takes it, and is read field by
field from the cells of its row.
-/

namespace RecordTables

/-! ## Writing -/

namespace Row

/-- Setting NULL under some names. -/
theorem get?_extend_null (row : Row) (names : List String) (name : String) :
    (row.extend (names.map fun n => (n, .null))).get? name = if name ∈ names then some .null else row.get? name := by
  induction names generalizing row with
  | nil => simp [extend]
  | cons first rest ih =>
      have hstep : row.extend ((first :: rest).map fun n => (n, .null)) =
          (row.set first .null).extend (rest.map fun n => (n, .null)) := rfl
      rw [hstep, ih, get?_set]
      by_cases hrest : name ∈ rest
      · simp [hrest]
      · by_cases hfirst : name = first
        · simp [hfirst]
        · simp [hrest, hfirst]

theorem get?_eq_none {row : Row} {name : String} : row.get? name = none ↔ name ∉ row.names := by
  constructor
  · intro h hmem
    obtain ⟨⟨n, v⟩, he, rfl⟩ := List.mem_map.1 hmem
    have hlookup := lookup_of_mem row.distinct he
    rw [get?, hlookup] at h
    cases h
  · exact lookup_eq_none_of_not_mem

theorem mem_names_set {row : Row} {name other : String} {value : Value} :
    other ∈ (row.set name value).names ↔ other = name ∨ other ∈ row.names := by
  rw [names_set]
  split
  · rename_i hmem
    exact ⟨.inr, fun h => h.elim (fun heq => heq ▸ hmem) id⟩
  · rw [List.mem_append, List.mem_singleton, or_comm]

end Row

/-- The row over which a record is written. -/
def TableDefinition.nullRow (table : TableDefinition) : Row :=
  Row.ofList (table.nullableColumns.map fun name => (name, .null))

theorem TableDefinition.get?_nullRow (table : TableDefinition) (name : String) :
    table.nullRow.get? name = if name ∈ table.nullableColumns then some .null else none :=
  Row.get?_extend_null .empty table.nullableColumns name

theorem TableDefinition.mem_names_nullRow (table : TableDefinition) {name : String} :
    name ∈ table.nullRow.names ↔ name ∈ table.nullableColumns := by
  apply Decidable.not_iff_not.1
  rw [← Row.get?_eq_none, get?_nullRow]
  simp

namespace Datum

/-- Only a record is written into a row. -/
theorem encodeWith_ok {table : TableDefinition} {d : Datum} {row : Row} (h : d.encodeWith table = .ok row) :
    ∃ fields, d = .record fields ∧ encodeFields table.nullRow fields = .ok row := by
  cases d with
  | record fields => exact ⟨fields, rfl, h⟩
  | int type n =>
      rw [encodeWith] at h
      split at h <;> cases h
  | _ => cases h

theorem encodeFields_cons {row row' : Row} {name : String} {d : Datum} {rest : List (String × Datum)}
    (h : encodeFields row ((name, d) :: rest) = .ok row') :
    ∃ v, d.encodeField = .ok v ∧ encodeFields (row.set name v) rest = .ok row' := by
  rw [encodeFields] at h
  exact Outcome.bind_eq_ok.1 h

/-- A name that no field has keeps its value. -/
theorem get?_encodeFields_of_not_mem {fields : List (String × Datum)} {row row' : Row} {name : String}
    (h : encodeFields row fields = .ok row') (hname : name ∉ fields.map Prod.fst) :
    row'.get? name = row.get? name := by
  induction fields generalizing row with
  | nil =>
      cases h
      rfl
  | cons p rest ih =>
      obtain ⟨n, d⟩ := p
      obtain ⟨v, _, hrest⟩ := encodeFields_cons h
      rw [List.map_cons, List.mem_cons, not_or] at hname
      rw [ih hrest hname.2, Row.get?_set, if_neg hname.1]

/-- Every field has its value under its name. -/
theorem get?_encodeFields_of_mem {fields : List (String × Datum)} {row row' : Row} {name : String} {d : Datum}
    (h : encodeFields row fields = .ok row') (hnodup : (fields.map Prod.fst).Nodup) (hmem : (name, d) ∈ fields) :
    ∃ v, d.encodeField = .ok v ∧ row'.get? name = some v := by
  induction fields generalizing row with
  | nil => cases hmem
  | cons p rest ih =>
      obtain ⟨n, e⟩ := p
      obtain ⟨v, hv, hrest⟩ := encodeFields_cons h
      rw [List.map_cons, List.nodup_cons] at hnodup
      rcases List.mem_cons.1 hmem with hfirst | hmem
      · obtain ⟨rfl, rfl⟩ := Prod.mk.inj hfirst
        refine ⟨v, hv, ?_⟩
        -- No later field has the name, so the value set under it stays.
        rw [get?_encodeFields_of_not_mem hrest hnodup.1, Row.get?_set, if_pos rfl]
      · exact ih hrest hnodup.2 hmem

/-- Writing fields adds their names to those of the row. -/
theorem mem_names_of_encodeFields {fields : List (String × Datum)} {row row' : Row} {name : String}
    (h : encodeFields row fields = .ok row') : name ∈ row'.names ↔ name ∈ fields.map Prod.fst ∨ name ∈ row.names := by
  induction fields generalizing row with
  | nil =>
      cases h
      simp
  | cons p rest ih =>
      obtain ⟨n, d⟩ := p
      obtain ⟨v, _, hrest⟩ := encodeFields_cons h
      rw [ih hrest, Row.mem_names_set, List.map_cons, List.mem_cons]
      constructor
      · rintro (hlater | rfl | hbefore)
        · exact .inl (.inr hlater)
        · exact .inl (.inl rfl)
        · exact .inr hbefore
      · rintro ((rfl | hlater) | hbefore)
        · exact .inr (.inl rfl)
        · exact .inl hlater
        · exact .inr (.inr hbefore)

/-- The columns of a written row are those that take NULL and those that the record presents. -/
theorem mem_names_encodeFields {table : TableDefinition} {fields : List (String × Datum)} {row : Row} {name : String}
    (h : encodeFields table.nullRow fields = .ok row) :
    name ∈ row.names ↔ name ∈ fields.map Prod.fst ∨ name ∈ table.nullableColumns := by
  rw [mem_names_of_encodeFields h, TableDefinition.mem_names_nullRow]

end Datum

/-! ## Reading -/

namespace Shape

variable {around : Shape} {row : Row}

/-- A field that is read under its own name reads the cell of this name. -/
theorem decodeFields_cons {f : Field} {s : Shape} {rest : List (Field × Shape)} (hconstant : f.constant = none)
    (hnames : f.names = [f.name]) :
    decodeFields around row ((f, s) :: rest) = (do
      let value ← decodeField around (← cellOf row f.name) s
      let others ← decodeFields around row rest
      return (f, value) :: others) := by
  rw [decodeFields, hconstant, hnames]
  rfl

theorem cellOf_ok {name : String} {cell : Cell} (h : cellOf row name = .ok cell) :
    row.get? name = some cell.value ∧ cell.column = name := by
  unfold cellOf at h
  split at h
  · rename_i value hvalue
    cases h
    exact ⟨hvalue, rfl⟩
  · cases h

theorem mem_names_of_cellOf {name : String} {cell : Cell} (h : cellOf row name = .ok cell) : name ∈ row.names := by
  apply Decidable.byContradiction
  intro hnot
  rw [← Row.get?_eq_none, (cellOf_ok h).1] at hnot
  cases hnot

theorem cellOf_of_get? {name : String} {v : Value} (h : row.get? name = some v) : cellOf row name = .ok ⟨name, v⟩ := by
  unfold cellOf
  rw [h]

/-- Fields are read one by one. -/
theorem decodeFields_of_forall {fields : List (Field × Shape)} {values : List (Field × Datum)}
    (hfields : values.map Prod.fst = fields.map Prod.fst)
    (hread : ∀ p ∈ fields, p.1.constant = none ∧ p.1.names = [p.1.name])
    (h : ∀ p ∈ fields.zip values, ∃ v, row.get? p.1.1.name = some v ∧
      decodeField around ⟨p.1.1.name, v⟩ p.1.2 = .ok p.2.2) :
    decodeFields around row fields = .ok values := by
  induction fields generalizing values with
  | nil =>
      have hnil : values = [] := by simpa using hfields
      rw [hnil]
      rfl
  | cons p fields ih =>
      obtain ⟨f, s⟩ := p
      cases values with
      | nil => simp at hfields
      | cons w values =>
          obtain ⟨g, d⟩ := w
          rw [List.map_cons, List.map_cons, List.cons.injEq] at hfields
          obtain ⟨rfl, hfields⟩ := hfields
          obtain ⟨hconstant, hnames⟩ := hread (g, s) (List.mem_cons_self ..)
          obtain ⟨v, hcell, hvalue⟩ := h ((g, s), (g, d)) (by simp)
          have hothers := ih hfields (fun p hp => hread p (List.mem_cons_of_mem _ hp)) fun p hp => h p (by simp [hp])
          rw [decodeFields_cons hconstant hnames, cellOf_of_get? hcell]
          show (decodeField around ⟨g.name, v⟩ s).bind _ = _
          rw [hvalue, hothers]
          rfl

/-- A field that is not read needs no cell. -/
theorem decodeFields_constant {f : Field} {s : Shape} {d : Datum} {rest : List (Field × Shape)}
    (hconstant : f.constant = some d) :
    decodeFields around row ((f, s) :: rest) = (return (f, d) :: (← decodeFields around row rest)) := by
  rw [decodeFields, hconstant]
  rfl

/-- A row is read exactly if it has a cell for each field that is read, and the field takes its value. -/
theorem decodeFields_isOk {fields : List (Field × Shape)}
    (hnames : ∀ p ∈ fields, p.1.constant = none → p.1.names = [p.1.name]) :
    (∃ values, decodeFields around row fields = .ok values) ↔
      ∀ p ∈ fields, p.1.constant = none →
        ∃ v d, row.get? p.1.name = some v ∧ decodeField around ⟨p.1.name, v⟩ p.2 = .ok d := by
  induction fields with
  | nil => exact ⟨fun _ => by simp, fun _ => ⟨[], rfl⟩⟩
  | cons p fields ih =>
      obtain ⟨f, s⟩ := p
      have hrest := ih fun p hp => hnames p (List.mem_cons_of_mem _ hp)
      rw [List.forall_mem_cons, ← hrest]
      cases hconstant : f.constant with
      -- A field that is not read asks nothing of the row.
      | some d =>
          rw [decodeFields_constant hconstant]
          constructor
          · rintro ⟨values, h⟩
            obtain ⟨others, hothers, _⟩ := Outcome.bind_eq_ok.1 h
            refine ⟨?_, others, hothers⟩
            intro hnone
            cases hnone
          · rintro ⟨_, others, hothers⟩
            exact ⟨_, Outcome.bind_eq_ok.2 ⟨others, hothers, rfl⟩⟩
      -- Any other asks for its cell and its value, and only then come the other fields.
      | none =>
          rw [decodeFields_cons hconstant (hnames (f, s) (List.mem_cons_self ..) hconstant)]
          constructor
          · rintro ⟨values, h⟩
            obtain ⟨cell, hcell, h⟩ := Outcome.bind_eq_ok.1 h
            obtain ⟨value, hvalue, h⟩ := Outcome.bind_eq_ok.1 h
            obtain ⟨others, hothers, _⟩ := Outcome.bind_eq_ok.1 h
            obtain ⟨hget, hname⟩ := cellOf_ok hcell
            refine ⟨fun _ => ⟨cell.value, value, hget, ?_⟩, others, hothers⟩
            show decodeField around ⟨f.name, cell.value⟩ s = _
            rw [← hname]
            exact hvalue
          · rintro ⟨hfirst, others, hothers⟩
            obtain ⟨v, d, hget, hvalue⟩ := hfirst rfl
            refine ⟨(f, d) :: others, Outcome.bind_eq_ok.2 ⟨_, cellOf_of_get? hget, ?_⟩⟩
            exact Outcome.bind_eq_ok.2 ⟨d, hvalue, Outcome.bind_eq_ok.2 ⟨others, hothers, rfl⟩⟩

theorem decodeRow_isOk {name : TypeName} {strict : Bool} {fields : List (Field × Shape)} :
    (∃ d, decodeRow row (.record name strict fields) = .ok d) ↔
      ∃ values, decodeFields (.record name strict fields) row fields = .ok values := by
  constructor
  · rintro ⟨d, hd⟩
    obtain ⟨values, hvalues, _⟩ := Outcome.bind_eq_ok.1 hd
    exact ⟨values, hvalues⟩
  · rintro ⟨values, hvalues⟩
    exact ⟨_, Outcome.bind_eq_ok.2 ⟨values, hvalues, rfl⟩⟩

/-- A row that is read has a cell for each of the fields. -/
theorem mem_names_of_decodeFields {fields : List (Field × Shape)} {values : List (Field × Datum)}
    (hread : ∀ p ∈ fields, p.1.constant = none ∧ p.1.names = [p.1.name])
    (h : decodeFields around row fields = .ok values) : ∀ p ∈ fields, p.1.name ∈ row.names := by
  intro p hp
  obtain ⟨v, _, hget, _⟩ := (decodeFields_isOk fun q hq _ => (hread q hq).2).1 ⟨values, h⟩ p hp (hread p hp).1
  exact mem_names_of_cellOf (cellOf_of_get? hget)

/-! ## Types of rows -/

/-- The shape of the rows of a type: what is around it has no part in them. -/
def rowShape : Shape → Shape
  | .box s => s.rowShape
  | .transparent _ s => s.rowShape
  | .checked _ s _ => s.rowShape
  | s => s

theorem rowShape_eq_self {s : Shape} (hbox : ∀ t, s = .box t → False)
    (htransparent : ∀ name t, s = .transparent name t → False)
    (hchecked : ∀ name t refusal, s = .checked name t refusal → False) : s.rowShape = s := by
  rw [rowShape]
  · exact hbox
  · exact htransparent
  · exact hchecked

/-- A value whose rows are those of a record is the record. -/
theorem isValue_record {s : Shape} {d : Datum} {name : TypeName} {strict : Bool} {fields : List (Field × Shape)}
    (hshape : s.rowShape = .record name strict fields) (h : IsValue around s d) :
    ∃ values : List (Field × Datum), values.map Prod.fst = fields.map Prod.fst ∧
      (∀ p ∈ fields.zip values, IsValue (.record name strict fields) p.1.2 p.2.2) ∧
        d = .record (presentedFields values) := by
  induction s using rowShape.induct with
  | case1 s ih =>
      cases h with
      | box h => exact ih hshape h
  | case2 other s ih =>
      cases h with
      | transparent h => exact ih hshape h
  | case3 other s refusal ih =>
      cases h with
      | checked h _ => exact ih hshape h
  | case4 s hbox htransparent hchecked =>
      rw [rowShape_eq_self hbox htransparent hchecked] at hshape
      subst hshape
      cases h with
      | @record _ _ _ _ values hfields h => exact ⟨values, hfields, h, rfl⟩

end Shape

end RecordTables
