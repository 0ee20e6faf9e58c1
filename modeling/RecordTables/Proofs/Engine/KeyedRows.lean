import Mathlib.Data.List.Perm.Subperm
import RecordTables.Proofs.Engine.Changes
import RecordTables.Proofs.Engine.Keyed
import RecordTables.Proofs.Engine.Selected

/-!
# Rows under their keys

The rows of a keyed table stand in the order of their numbers, and no two of them have the same key.  A row is added
under a key that is free, and it is changed and removed alone by its key.
-/

namespace RecordTables

open Engine (NumberedRow Failure Scope Expr)

/-! ## Numbers of rows -/

namespace Engine

theorem perm_insertRow (row : NumberedRow) (rows : List NumberedRow) : (insertRow row rows).Perm (row :: rows) := by
  induction rows with
  | nil => exact List.Perm.refl _
  | cons r rest ih =>
      rw [insertRow]
      split
      · exact List.Perm.refl _
      · exact (ih.cons r).trans (List.Perm.swap ..)

/-- A row with a number of its own is put between those before it and those behind it. -/
theorem pairwise_insertRow {row : NumberedRow} {rows : List NumberedRow}
    (hrows : rows.Pairwise fun a b => a.number < b.number) (hnew : ∀ r ∈ rows, r.number ≠ row.number) :
    (insertRow row rows).Pairwise fun a b => a.number < b.number := by
  induction rows with
  | nil => exact List.pairwise_singleton ..
  | cons r rest ih =>
      rw [List.forall_mem_cons] at hnew
      obtain ⟨hfirst, hrest⟩ := List.pairwise_cons.1 hrows
      rw [insertRow]
      split
      · rename_i hbefore
        refine List.pairwise_cons.2 ⟨fun x hx => ?_, hrows⟩
        rcases List.mem_cons.1 hx with rfl | hx
        · exact hbefore
        · exact Int64.lt_trans hbefore (hfirst x hx)
      · rename_i hnot
        have hafter : r.number < row.number := (Int64.lt_or_eq_of_le (Int64.not_lt.1 hnot)).resolve_right hnew.1
        refine List.pairwise_cons.2 ⟨fun x hx => ?_, ih hrest hnew.2⟩
        rcases List.mem_cons.1 ((perm_insertRow row rest).mem_iff.1 hx) with rfl | hx
        · exact hafter
        · exact hfirst x hx

namespace Table

variable {t : Table}

theorem row?_isSome {n : Int64} : (t.row? n).isSome = true ↔ n ∈ t.rows.map NumberedRow.number := by
  rw [row?, List.find?_isSome, List.mem_map]
  simp only [beq_iff_eq]

/-- If the number where the search ends is given, so are all on the way. -/
theorem isSome_of_freeBelow {fuel : Nat} {n : Int64} (h : (t.row? (t.freeBelow fuel n)).isSome = true) :
    ∀ j ≤ fuel, (t.row? (n - Int64.ofNat j)).isSome = true := by
  induction fuel generalizing n with
  | zero =>
      intro j hj
      rw [Nat.le_zero.1 hj, show Int64.ofNat 0 = 0 from rfl, Int64.sub_zero]
      exact h
  | succ fuel ih =>
      rw [freeBelow] at h
      split at h
      · rename_i hgiven
        intro j hj
        cases j with
        | zero => rwa [show Int64.ofNat 0 = 0 from rfl, Int64.sub_zero]
        | succ j =>
            have hbelow := ih h j (by omega)
            rwa [Int64.sub_sub, show (1 : Int64) = Int64.ofNat 1 from rfl, ← Int64.ofNat_add, Nat.add_comm] at hbelow
      · contradiction

/-- Numbers on a way down are different until all have been met. -/
theorem sub_ofNat_inj {n : Int64} {i j : Nat} (hi : i < 2 ^ 64) (hj : j < 2 ^ 64)
    (h : n - Int64.ofNat i = n - Int64.ofNat j) : i = j := by
  have hbits := congrArg Int64.toBitVec h
  rw [Int64.toBitVec_sub, Int64.toBitVec_sub, Int64.toBitVec_ofNat', Int64.toBitVec_ofNat'] at hbits
  bv_omega

/-- Behind every number but the greatest comes a greater one. -/
theorem lt_add_one_of_ne {n : Int64} (h : n ≠ Int64.maxValue) : n < n + 1 := by
  have hmax : n.toInt ≠ Int64.maxValue.toInt := fun e => h (Int64.toInt_inj.1 e)
  have hbound : Int64.maxValue.toInt = 2 ^ 63 - 1 := by decide
  have hone : (1 : Int64).toInt = 1 := rfl
  have hlt := n.toInt_lt
  have hle := n.le_toInt
  rw [Int64.lt_iff_toInt_lt, Int64.toInt_add, hone, Int.bmod_eq_of_le (by omega) (by omega)]
  omega

/-- The number of the next row is given to no other one, as long as there are numbers. -/
theorem nextNumber_ne (hrows : t.rows.Pairwise fun a b => a.number < b.number) (hcount : t.rows.length < 2 ^ 64) :
    ∀ r ∈ t.rows, r.number ≠ t.nextNumber := by
  unfold nextNumber
  split
  · rename_i hnone
    rw [List.getLast?_eq_none_iff.1 hnone]
    exact fun _ h => absurd h (List.not_mem_nil)
  · rename_i last hlast
    split
    · intro r hr hsame
      have hgiven : (t.row? (t.freeBelow t.rows.length 0x4000000000000000)).isSome = true :=
        row?_isSome.2 (hsame ▸ List.mem_map_of_mem hr)
      -- More numbers would be given than there are rows.
      have hnodup : ((List.range (t.rows.length + 1)).map fun j => 0x4000000000000000 - Int64.ofNat j).Nodup := by
        refine List.Nodup.map_on ?_ List.nodup_range
        intro i hi j hj h
        rw [List.mem_range] at hi hj
        exact sub_ofNat_inj (by omega) (by omega) h
      have hsubset : ((List.range (t.rows.length + 1)).map fun j => 0x4000000000000000 - Int64.ofNat j) ⊆
          t.rows.map NumberedRow.number := fun n hn => by
        obtain ⟨j, hj, rfl⟩ := List.mem_map.1 hn
        rw [List.mem_range] at hj
        exact row?_isSome.1 (isSome_of_freeBelow hgiven j (by omega))
      have hle := (hnodup.subperm hsubset).length_le
      rw [List.length_map, List.length_map, List.length_range] at hle
      omega
    · rename_i hmax
      obtain ⟨before, hbefore⟩ := List.getLast?_eq_some_iff.1 hlast
      intro r hr hsame
      have hnext : last.number < r.number := hsame ▸ lt_add_one_of_ne hmax
      rw [hbefore, List.pairwise_append] at hrows
      rw [hbefore, List.mem_append, List.mem_singleton] at hr
      rcases hr with hr | rfl
      · exact Int64.lt_irrefl (Int64.lt_trans hnext (hrows.2.2 r hr last (List.mem_singleton_self _)))
      · exact Int64.lt_irrefl hnext

end Table

end Engine

/-! ## Rows with keys -/

namespace TableDefinition

variable (table : TableDefinition)

/-- Rows that a keyed table can hold: they stand in the order of their numbers, and each has a key of its own. -/
structure Holds (rows : List NumberedRow) : Prop where
  fits : ∀ r ∈ rows, table.Fits r
  ascending : rows.Pairwise fun a b => a.number < b.number
  distinct : rows.Pairwise fun a b => table.keyValues a.values ≠ table.keyValues b.values

variable {table} {rows : List NumberedRow} {values : List StoredValue} {old : NumberedRow}

theorem holds_nil : table.Holds [] := ⟨fun _ h => absurd h List.not_mem_nil, .nil, .nil⟩

namespace Holds

theorem sublist {some : List NumberedRow} (h : table.Holds rows) (hsome : some.Sublist rows) : table.Holds some :=
  ⟨fun r hr => h.fits r (hsome.subset hr), h.ascending.sublist hsome, h.distinct.sublist hsome⟩

theorem nodup_numbers (h : table.Holds rows) : (rows.map NumberedRow.number).Nodup := by
  rw [List.nodup_iff_pairwise_ne, List.pairwise_map]
  exact h.ascending.imp Int64.ne_of_lt

/-- Rows with the same key are the same row. -/
theorem eq_of_key (h : table.Holds rows) {a b : NumberedRow} (ha : a ∈ rows) (hb : b ∈ rows)
    (hsame : table.keyValues a.values = table.keyValues b.values) : a = b := by
  have hnodup : (rows.map fun r => table.keyValues r.values).Nodup := by
    rw [List.nodup_iff_pairwise_ne, List.pairwise_map]
    exact h.distinct
  exact List.inj_on_of_nodup_map hnodup ha hb hsame

theorem row?_of_mem (h : table.Holds rows) (hold : old ∈ rows) : (table.holding rows).row? old.number = some old := by
  have hfound : ((table.holding rows).row? old.number).isSome = true :=
    Engine.Table.row?_isSome.2 (List.mem_map_of_mem hold)
  obtain ⟨r, hr⟩ := Option.isSome_iff_exists.1 hfound
  have hfind := List.find?_some hr
  have hnumber : r.number = old.number := beq_iff_eq.1 hfind
  rw [hr, List.inj_on_of_nodup_map h.nodup_numbers (List.mem_of_find?_eq_some hr) hold hnumber]

/-- A row is told from the others by its number. -/
theorem perm_cons_filter (h : table.Holds rows) (hold : old ∈ rows) :
    rows.Perm (old :: rows.filter (·.number != old.number)) := by
  have hmine : rows.filter (fun r => !(r.number != old.number)) = [old] := by
    apply List.perm_singleton.1
    rw [List.perm_ext_iff_of_nodup ((h.nodup_numbers.of_map _).filter _) (List.nodup_singleton _)]
    intro r
    rw [List.mem_filter, List.mem_singleton]
    simp only [bne, Bool.not_not, beq_iff_eq]
    constructor
    · rintro ⟨hr, hnumber⟩
      exact List.inj_on_of_nodup_map h.nodup_numbers hr hold hnumber
    · rintro rfl
      exact ⟨hold, rfl⟩
  have hparts := (List.filter_append_perm (fun r => r.number != old.number) rows).symm
  rw [hmine] at hparts
  exact hparts.trans (List.perm_append_singleton ..)

/-- One row more, with a number and a key of its own. -/
theorem insertRow (h : table.Holds rows) {row : NumberedRow} (hrow : table.Fits row)
    (hnumber : ∀ r ∈ rows, r.number ≠ row.number)
    (habsent : ∀ r ∈ rows, table.keyValues r.values ≠ table.keyValues row.values) :
    table.Holds (Engine.insertRow row rows) where
  fits := fun r hr => by
    rcases List.mem_cons.1 ((Engine.perm_insertRow row rows).mem_iff.1 hr) with rfl | hr
    · exact hrow
    · exact h.fits r hr
  ascending := Engine.pairwise_insertRow h.ascending hnumber
  distinct := by
    rw [(Engine.perm_insertRow row rows).pairwise_iff fun hne => Ne.symm hne, List.pairwise_cons]
    exact ⟨fun r hr => (habsent r hr).symm, h.distinct⟩

end Holds

/-- The row that values ask for: its number is the one that they hold, or the next one. -/
theorem exists_row (rows : List NumberedRow) (hkeyed : table.Keyed) (hv : table.Keeps values) :
    ∃ row : NumberedRow, row.values = values ∧ table.Fits row ∧
      (table.numberPlace? = none → row.number = (table.holding rows).nextNumber) := by
  cases hplace : table.numberPlace? with
  | none => exact ⟨⟨_, values⟩, rfl, ⟨hv, fun i hi => by rw [hplace] at hi; cases hi⟩, fun _ => rfl⟩
  | some i =>
      obtain ⟨n, hn⟩ := hkeyed.number hv hplace
      refine ⟨⟨n, values⟩, rfl, ⟨hv, fun j hj => ?_⟩, fun h => by cases h⟩
      rw [hplace] at hj
      cases hj
      exact hn

/-- What the insertion of values comes to is settled by the place of their row. -/
theorem insert_eq_place (rows : List NumberedRow) (hkeyed : table.Keyed) (hv : table.Keeps values) :
    ∃ row : NumberedRow, row.values = values ∧ table.Fits row ∧
      (table.numberPlace? = none → row.number = (table.holding rows).nextNumber) ∧
      (table.holding rows).insert values = (do
        let changed ← (table.holding rows).place rows row
        return (row, changed)) := by
  obtain ⟨row, rfl, hfits, hnumber⟩ := exists_row rows hkeyed hv
  refine ⟨row, rfl, hfits, hnumber, ?_⟩
  rw [Engine.Table.insert, numberFor_holding hfits fun hnone => by rw [hnumber hnone]]
  show ((table.holding rows).place rows ((table.holding rows).stored row.number row.values) >>= _) = _
  rw [stored_holding hfits]

/-- Values with a new key are inserted. -/
theorem insert_of_absent (hkeyed : table.Keyed) (h : table.Holds rows) (hcount : rows.length < 2 ^ 64)
    (hv : table.Keeps values) (habsent : ∀ r ∈ rows, table.keyValues r.values ≠ table.keyValues values) :
    ∃ (row : NumberedRow) (rows' : List NumberedRow),
      (table.holding rows).insert values = .ok (row, table.holding rows') ∧ table.Holds rows' ∧
        (rows'.map NumberedRow.values).Perm (values :: rows.map NumberedRow.values) := by
  obtain ⟨row, rfl, hfits, hnumber, hinsert⟩ := insert_eq_place rows hkeyed hv
  refine ⟨row, Engine.insertRow row rows, ?_, h.insertRow hfits ?_ habsent, (Engine.perm_insertRow row rows).map _⟩
  · rw [hinsert, place_of_absent hkeyed h.fits hfits habsent]
    rfl
  · intro r hr
    cases hplace : table.numberPlace? with
    | some i => exact fun hsame => habsent r hr ((number_eq_iff hplace (h.fits r hr) hfits).1 hsame)
    | none =>
        rw [hnumber hplace]
        exact Engine.Table.nextNumber_ne (t := table.holding rows) h.ascending hcount r hr

/-- Values with the key of a row are refused. -/
theorem insert_of_present (hkeyed : table.Keyed) (h : table.Holds rows) (hv : table.Keeps values)
    (hpresent : ∃ r ∈ rows, table.keyValues r.values = table.keyValues values) :
    ∃ f, (table.holding rows).insert values = .error f := by
  obtain ⟨row, rfl, hfits, -, hinsert⟩ := insert_eq_place rows hkeyed hv
  obtain ⟨f, hf⟩ := @place_of_present table rows hkeyed rows row h.fits hfits hpresent
  exact ⟨f, by rw [hinsert, hf]; rfl⟩

/-- A row is replaced by values with its key. -/
theorem replace_of_key (hkeyed : table.Keyed) (h : table.Holds rows) (hold : old ∈ rows) (hv : table.Keeps values)
    (hsame : table.keyValues old.values = table.keyValues values) :
    ∃ (row : NumberedRow) (rows' : List NumberedRow),
      (table.holding rows).replace old values = .ok (row, table.holding rows') ∧ table.Holds rows' ∧
        (rows'.map NumberedRow.values).Perm
          (values :: (rows.filter (·.number != old.number)).map NumberedRow.values) := by
  have hothers : table.Holds (rows.filter (·.number != old.number)) := h.sublist List.filter_sublist
  have hnumbers : ∀ r ∈ rows.filter (·.number != old.number), r.number ≠ old.number :=
    fun r hr => bne_iff_ne.1 (List.mem_filter.1 hr).2
  have habsent : ∀ r ∈ rows.filter (·.number != old.number), table.keyValues r.values ≠ table.keyValues values := by
    intro r hr heq
    exact hnumbers r hr (congrArg _ (h.eq_of_key (List.mem_of_mem_filter hr) hold (heq.trans hsame.symm)))
  -- Where the key is the number, the number stays as well.
  have hfits : table.Fits ⟨old.number, values⟩ := by
    refine ⟨hv, fun i hi => ?_⟩
    obtain ⟨c, hkey, rfl, -⟩ := primaryKey_of_numberPlace hi
    obtain ⟨n, hn⟩ := hkeyed.number hv hi
    have hnumber := (h.fits old hold).numbers _ hi
    simp only [keyValues, hkey, List.map_cons, List.map_nil, hn, hnumber, Option.getD_some, List.cons.injEq,
      StoredValue.int.injEq, and_true] at hsame
    rw [hn, hsame]
  refine ⟨⟨old.number, values⟩, _, ?_, hothers.insertRow hfits hnumbers habsent, (Engine.perm_insertRow _ _).map _⟩
  have hfallback : table.numberPlace? = none →
      (if (table.holding rows).numberColumn.isSome then .error .datatypeMismatch else .ok old.number :
        Except Failure Int64) = .ok old.number := by
    intro hnone
    rw [show (table.holding rows).numberColumn = none from hnone]
    rfl
  have hnumber := @numberFor_holding table rows _ hfits _ hfallback
  have hstored := @stored_holding table rows _ hfits
  rw [Engine.Table.replace, hnumber]
  show ((table.holding rows).place (rows.filter (·.number != old.number)) ((table.holding rows).stored old.number values) >>=
    _) = _
  rw [hstored, place_of_absent hkeyed hothers.fits hfits habsent]
  rfl

end TableDefinition

end RecordTables
