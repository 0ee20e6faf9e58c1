import RecordTables.Proofs.Engine.Listed

/-!
# Rows told apart by their key

A table keeps the values of its columns as they are.  The values of a key are never NULL and never real numbers, so two of
them are equal for the engine exactly if they are the same, and a row is found by its key and by nothing else.
-/

namespace RecordTables

open Engine (Affinity NumberedRow TableIndex Failure)

/-! ## Values that are kept -/

/-- A column keeps the values of its storage class, and NULL if it takes it.  Of a real number the sign of zero is lost. -/
def Column.Keeps (column : Column) : StoredValue → Prop
  | .null => column.nullable = true
  | .int _ => column.type = .integer
  | .real x => column.type = .real ∧ Engine.asReal (.real x) = .real x
  | .text _ => column.type = .text
  | .blob _ => column.type = .blob

/-- What a column keeps is stored as it is. -/
theorem Column.store_of_keeps {column : Column} {v : StoredValue} (h : column.Keeps v) :
    (Affinity.ofDeclared column.type.keyword).store v = v := by
  have hblob : Affinity.ofDeclared ColumnType.blob.keyword = .blob := by decide +kernel
  have hinteger : Affinity.ofDeclared ColumnType.integer.keyword = .integer := by decide +kernel
  have hreal : Affinity.ofDeclared ColumnType.real.keyword = .real := by decide +kernel
  have htext : Affinity.ofDeclared ColumnType.text.keyword = .text := by decide +kernel
  cases v with
  | null =>
      cases column.type
      · rw [hblob]; rfl
      · rw [hinteger]; rfl
      · rw [hreal]; rfl
      · rw [htext]; rfl
  | int n => rw [show column.type = .integer from h, hinteger]; rfl
  | real x => rw [h.1, hreal]; exact h.2
  | text bytes => rw [show column.type = .text from h, htext]; rfl
  | blob bytes => rw [show column.type = .blob from h, hblob]; rfl

/-- Whether a value equals only itself: neither NULL nor a real number. -/
def StoredValue.isExact : StoredValue → Bool
  | .null => false
  | .real _ => false
  | _ => true

theorem Column.isExact_of_keeps {column : Column} {v : StoredValue} (h : column.Keeps v)
    (hnull : column.nullable = false) (htype : column.type ≠ .real) : v.isExact = true := by
  cases v with
  | null =>
      rw [show column.nullable = true from h] at hnull
      cases hnull
  | real x => exact absurd h.1 htype
  | _ => rfl

namespace Engine

theorem orderBytes_eq {as bs : List UInt8} : orderBytes as bs = .eq ↔ as = bs := by
  induction as generalizing bs with
  | nil => cases bs <;> simp [orderBytes]
  | cons a as ih =>
      cases bs with
      | nil => simp [orderBytes]
      | cons b bs =>
          have hcompare := @Std.compare_eq_iff_eq _ _ _ a b
          rw [orderBytes, List.cons.injEq, ← ih, ← hcompare]
          cases compare a b <;> simp

/-- Exact values are equal for the engine if they are the same. -/
theorem orderValues_eq {v w : StoredValue} (hv : v.isExact = true) (hw : w.isExact = true) :
    orderValues v w = .eq ↔ v = w := by
  have hbytes : ∀ {a b : ByteArray}, a.toList = b.toList ↔ a = b := by
    intro a b
    rw [toList_eq_data, toList_eq_data, Array.toList_inj]
    exact ⟨ByteArray.ext, congrArg _⟩
  cases v with
  | null | real => cases hv
  | int m =>
      cases w with
      | null | real => cases hw
      | int n => simp [orderValues]
      | _ => simp [orderValues]
  | text a =>
      cases w with
      | null | real => cases hw
      | text b => simp [orderValues, orderBytes_eq, hbytes]
      | _ => simp [orderValues]
  | blob a =>
      cases w with
      | null | real => cases hw
      | blob b => simp [orderValues, orderBytes_eq, hbytes]
      | _ => simp [orderValues]

end Engine

/-! ## Rows of a definition -/

namespace TableDefinition

variable (table : TableDefinition)

/-- Values of which each column keeps its own. -/
def Keeps (values : List StoredValue) : Prop := List.Forall₂ (fun p v => p.2.Keeps v) table.columns values

/-- The values of the key in a row. -/
def keyValues (values : List StoredValue) : List StoredValue :=
  table.primaryKey.map fun c => values[table.place c]?.getD .null

/-- The number of a row is the value of the column that numbers the rows. -/
def Numbers (row : NumberedRow) : Prop :=
  ∀ i, table.numberPlace? = some i → row.values[i]? = some (.int row.number)

/-- A row as the table of a definition holds it. -/
structure Fits (row : NumberedRow) : Prop where
  keeps : table.Keeps row.values
  numbers : table.Numbers row

/-- A key of exact values, with columns beside it, and no other index that tells rows apart. -/
structure Keyed : Prop where
  columnsApart : Apart table.columnNames
  width : table.columns.length ≤ Engine.Store.maxColumns
  keyed : table.primaryKey ≠ []
  distinct : table.primaryKey.Nodup
  exact : ∀ c ∈ table.primaryKey, ∃ column, table.column? c = some column ∧ column.nullable = false ∧ column.type ≠ .real
  ordinary : ∀ i ∈ table.indexes, i.unique = false

/-- The table of a definition, as it was created, with rows. -/
def holding (rows : List NumberedRow) : Engine.Table := { table.storedWith table.indexes.reverse with rows }

end TableDefinition

namespace TableDefinition

variable {table : TableDefinition} {values : List StoredValue} {rows : List NumberedRow}

theorem Keeps.length (h : table.Keeps values) : values.length = table.columns.length := (List.Forall₂.length_eq h).symm

/-- Each column has a value in a row that is kept. -/
theorem Keeps.value (h : table.Keeps values) {c : String} {column : Column} (hc : table.column? c = some column) :
    ∃ v, values[table.place c]? = some v ∧ column.Keeps v := by
  obtain ⟨column', hc', hat⟩ := Engine.Store.column_at_place (List.mem_map_of_mem (table.column?_eq_some.1 hc))
  rw [hc] at hc'
  cases hc'
  obtain ⟨hlt, hget⟩ := List.getElem?_eq_some_iff.1 hat
  have hlt' : table.place c < values.length := h.length ▸ hlt
  have hkeeps := (List.forall₂_iff_get.1 h).2 (table.place c) hlt hlt'
  simp only [List.get_eq_getElem, hget] at hkeeps
  exact ⟨_, List.getElem?_eq_getElem hlt', hkeeps⟩

/-- The values of a key are exact. -/
theorem Keyed.isExact (hkeyed : table.Keyed) (h : table.Keeps values) {c : String} (hc : c ∈ table.primaryKey) :
    ∃ v, values[table.place c]? = some v ∧ v.isExact = true := by
  obtain ⟨column, hcolumn, hnull, htype⟩ := hkeyed.exact c hc
  obtain ⟨v, hv, hkeeps⟩ := h.value hcolumn
  exact ⟨v, hv, Column.isExact_of_keeps hkeeps hnull htype⟩

/-- The index of a key finds rows that have the same values in it. -/
theorem Keyed.agree (hkeyed : table.Keyed) {index : TableIndex}
    (hparts : index.parts = table.primaryKey.map fun c => some (table.place c)) {a b : List StoredValue}
    (ha : table.Keeps a) (hb : table.Keeps b) : index.agree a b = true ↔ table.keyValues a = table.keyValues b := by
  have hkey : ∀ v : List StoredValue, index.keyOf v = table.keyValues v := by
    intro v
    rw [TableIndex.keyOf, hparts, List.map_map]
    rfl
  rw [TableIndex.agree, hkey, hkey, keyValues, keyValues, List.zip_map', List.all_map, List.all_eq_true,
    List.map_inj_left]
  refine forall₂_congr fun c hc => ?_
  obtain ⟨v, hv, hexact⟩ := hkeyed.isExact ha hc
  obtain ⟨w, hw, hexact'⟩ := hkeyed.isExact hb hc
  have hnull : ∀ {u : StoredValue}, u.isExact = true → u ≠ .null := by
    rintro _ hu rfl
    cases hu
  simp only [Function.comp_apply, hv, hw, Option.getD_some, Bool.and_eq_true, bne_iff_ne, beq_iff_eq,
    Engine.orderValues_eq hexact hexact', hnull hexact, hnull hexact', ne_eq, not_false_eq_true, true_and]

/-! ## Placing rows -/

/-- The column that numbers the rows is the only column of the key. -/
theorem primaryKey_of_numberPlace {i : Nat} (h : table.numberPlace? = some i) :
    ∃ c, table.primaryKey = [c] ∧ table.place c = i ∧ ∃ column, table.column? c = some column ∧ column.type = .integer := by
  unfold numberPlace? at h
  split at h
  · rename_i c hkey
    split at h
    · rename_i htype
      obtain ⟨column, hcolumn, htype⟩ := Option.map_eq_some_iff.1 htype
      cases h
      exact ⟨c, hkey, rfl, column, hcolumn, htype⟩
    · cases h
  · cases h

/-- A column that numbers the rows holds an integer in every row. -/
theorem Keyed.number (hkeyed : table.Keyed) (h : table.Keeps values) {i : Nat} (hi : table.numberPlace? = some i) :
    ∃ n, values[i]? = some (.int n) := by
  obtain ⟨c, hkey, rfl, column, hcolumn, htype⟩ := primaryKey_of_numberPlace hi
  obtain ⟨column', hcolumn', hnull, _⟩ := hkeyed.exact c (by simp [hkey])
  rw [hcolumn] at hcolumn'
  cases hcolumn'
  obtain ⟨v, hv, hkeeps⟩ := h.value hcolumn
  cases v with
  | null => rw [show column.nullable = true from hkeeps] at hnull; cases hnull
  | int n => exact ⟨n, hv⟩
  | real x => rw [hkeeps.1] at htype; cases htype
  | text bytes => rw [show column.type = .text from hkeeps] at htype; cases htype
  | blob bytes => rw [show column.type = .blob from hkeeps] at htype; cases htype

/-- The values that a table keeps are stored as they are. -/
theorem stored_holding {row : NumberedRow} (h : table.Fits row) :
    (table.holding rows).stored row.number row.values = row := by
  have hlength := h.keeps.length
  have hcolumns : (table.holding rows).columns = table.columns.map fun p => p.2.stored p.1 := rfl
  suffices hvalues : ((table.holding rows).stored row.number row.values).values = row.values by
    cases row
    exact congrArg (NumberedRow.mk _) hvalues
  apply List.ext_getElem?
  intro i
  by_cases hi : i < row.values.length
  · have hi' : i < table.columns.length := hlength ▸ hi
    have hkeeps := (List.forall₂_iff_get.1 h.keeps).2 i hi' hi
    simp only [List.get_eq_getElem] at hkeeps
    simp only [Engine.Table.stored, hcolumns, List.getElem?_map, List.getElem?_zipIdx, List.zip_eq_zipWith,
      List.getElem?_zipWith, List.getElem?_eq_getElem hi, List.getElem?_eq_getElem hi', Option.map_some, Nat.zero_add,
      Option.some.injEq]
    split
    · rename_i hnumber
      have hvalue := h.numbers i (beq_iff_eq.1 hnumber)
      rw [List.getElem?_eq_getElem hi] at hvalue
      exact (Option.some.inj hvalue).symm
    · exact Column.store_of_keeps hkeeps
  · have hshort : ((table.holding rows).stored row.number row.values).values.length ≤ row.values.length := by
      simp only [Engine.Table.stored, List.length_map, List.length_zipIdx, List.length_zip]
      exact Nat.min_le_right ..
    rw [List.getElem?_eq_none (Nat.le_trans hshort (Nat.le_of_not_lt hi)), List.getElem?_eq_none (Nat.le_of_not_lt hi)]

/-- The number that a row asks for is the one that it has. -/
theorem numberFor_holding {row : NumberedRow} (h : table.Fits row) {fallback : Except Failure Int64}
    (hfallback : table.numberPlace? = none → fallback = .ok row.number) :
    (table.holding rows).numberFor fallback row.values = .ok row.number := by
  have hcolumn : (table.holding rows).numberColumn = table.numberPlace? := rfl
  unfold Engine.Table.numberFor
  rw [hcolumn]
  cases hplace : table.numberPlace? with
  | none => exact hfallback hplace
  | some i =>
      have hvalue := h.numbers i hplace
      simp only [hvalue, Option.getD_some]
      rfl

/-- No column refuses a value that it keeps. -/
theorem nullViolation_holding (h : table.Keeps values) : (table.holding rows).nullViolation? values = none := by
  have hcolumns : (table.holding rows).columns = table.columns.map fun p => p.2.stored p.1 := rfl
  rw [Engine.Table.nullViolation?, List.findSome?_eq_none_iff]
  rintro ⟨⟨c, v⟩, i⟩ hmem
  obtain ⟨hc, hv⟩ := List.getElem?_zip_eq_some.1 (List.mk_mem_zipIdx_iff_getElem?.1 hmem)
  rw [hcolumns, List.getElem?_map, Option.map_eq_some_iff] at hc
  obtain ⟨p, hp, rfl⟩ := hc
  obtain ⟨hi, rfl⟩ := List.getElem?_eq_some_iff.1 hp
  obtain ⟨hi', rfl⟩ := List.getElem?_eq_some_iff.1 hv
  have hkeeps := (List.forall₂_iff_get.1 h).2 i hi hi'
  simp only [List.get_eq_getElem] at hkeeps
  refine if_neg fun hrefused => ?_
  simp only [Column.stored, Bool.and_eq_true, Bool.not_eq_true', beq_iff_eq] at hrefused
  rw [hrefused.2] at hkeeps
  rw [show table.columns[i].2.nullable = true from hkeeps] at hrefused
  exact absurd hrefused.1.1 (by decide)

/-- The index of the key, if it has one, keeps rows with the same key apart; no other index does. -/
theorem taken_holding (hkeyed : table.Keyed) {others : List NumberedRow} {row : NumberedRow}
    (hothers : ∀ r ∈ others, table.Keeps r.values) (hrow : table.Keeps row.values) :
    ((table.holding rows).indexes.find? fun index => index.taken others row.values).isSome = true ↔
      table.numberPlace? = none ∧ ∃ r ∈ others, table.keyValues r.values = table.keyValues row.values := by
  have hcreated : (table.indexes.reverse.map table.storedIndex).find? (fun index => index.taken others row.values) =
      none := by
    rw [List.find?_eq_none]
    intro index hindex
    obtain ⟨i, hi, rfl⟩ := List.mem_map.1 hindex
    have hunique : (table.storedIndex i).unique = false := hkeyed.ordinary i (List.mem_reverse.1 hi)
    rw [TableIndex.taken, hunique, Bool.false_and]
    decide
  show ((table.indexes.reverse.map table.storedIndex ++ table.keyIndexes).find? _).isSome = true ↔ _
  rw [List.find?_append, hcreated, Option.none_or, keyIndexes]
  have hempty : table.primaryKey.isEmpty = false := List.isEmpty_eq_false_iff.2 hkeyed.keyed
  cases hplace : table.numberPlace? with
  | some i => simp
  | none =>
      simp only [hempty, Option.isSome_none, Bool.or_self, Bool.false_eq_true, if_false, List.find?_singleton, true_and]
      rw [Option.isSome_ite]
      rw [TableIndex.taken, Bool.true_and, List.any_eq_true]
      exact exists_congr fun r => and_congr_right fun hr => hkeyed.agree rfl (hothers r hr) hrow

/-- Two rows have the same number exactly if they have the same key, where the key numbers the rows. -/
theorem number_eq_iff {i : Nat} (hi : table.numberPlace? = some i) {a b : NumberedRow} (ha : table.Fits a)
    (hb : table.Fits b) : a.number = b.number ↔ table.keyValues a.values = table.keyValues b.values := by
  obtain ⟨c, hkey, rfl, _⟩ := primaryKey_of_numberPlace hi
  simp [keyValues, hkey, ha.numbers _ hi, hb.numbers _ hi]

/-- A row is placed among others that have other keys. -/
theorem place_of_absent (hkeyed : table.Keyed) {others : List NumberedRow} {row : NumberedRow}
    (hothers : ∀ r ∈ others, table.Fits r) (hrow : table.Fits row)
    (habsent : ∀ r ∈ others, table.keyValues r.values ≠ table.keyValues row.values) :
    (table.holding rows).place others row = .ok (table.holding (Engine.insertRow row others)) := by
  have hfree : (table.holding rows).indexes.find? (fun index => index.taken others row.values) = none := by
    rw [← Option.not_isSome_iff_eq_none, taken_holding hkeyed (fun r hr => (hothers r hr).keeps) hrow.keeps]
    rintro ⟨_, r, hr, hsame⟩
    exact habsent r hr hsame
  have hcolumn : (table.holding rows).numberColumn = table.numberPlace? := rfl
  unfold Engine.Table.place
  simp only [nullViolation_holding hrow.keeps, hfree, hcolumn]
  split
  · rename_i i hplace hany
    obtain ⟨r, hr, hnumber⟩ := List.any_eq_true.1 hany
    exact absurd ((number_eq_iff hplace (hothers r hr) hrow).1 (beq_iff_eq.1 hnumber)) (habsent r hr)
  · rfl

/-- A row with the key of another one is refused. -/
theorem place_of_present (hkeyed : table.Keyed) {others : List NumberedRow} {row : NumberedRow}
    (hothers : ∀ r ∈ others, table.Fits r) (hrow : table.Fits row)
    (hpresent : ∃ r ∈ others, table.keyValues r.values = table.keyValues row.values) :
    ∃ f, (table.holding rows).place others row = .error f := by
  have hcolumn : (table.holding rows).numberColumn = table.numberPlace? := rfl
  unfold Engine.Table.place
  simp only [nullViolation_holding hrow.keeps, hcolumn]
  split
  · exact ⟨_, rfl⟩
  · rename_i hnot
    obtain ⟨r, hr, hsame⟩ := hpresent
    have hplace : table.numberPlace? = none := by
      cases hplace : table.numberPlace? with
      | none => rfl
      | some i =>
          have hnumber := (number_eq_iff hplace (hothers r hr) hrow).2 hsame
          have hany : (others.any fun other => other.number == row.number) = true :=
            List.any_eq_true.2 ⟨r, hr, beq_iff_eq.2 hnumber⟩
          exact absurd hany (hnot i hplace)
    have htaken := (@taken_holding _ rows hkeyed others row (fun r hr => (hothers r hr).keeps) hrow.keeps).2
      ⟨hplace, r, hr, hsame⟩
    obtain ⟨index, hindex⟩ := Option.isSome_iff_exists.1 htaken
    rw [hindex]
    exact ⟨_, rfl⟩

end TableDefinition

end RecordTables
