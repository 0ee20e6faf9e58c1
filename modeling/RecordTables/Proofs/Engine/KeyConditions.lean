import RecordTables.Proofs.Engine.Changes
import RecordTables.Proofs.Engine.Keyed
import RecordTables.Proofs.Engine.Selected

/-!
# Rows found by their key

A condition on the key compares each of its columns with a parameter.  Values that the columns keep are compared as they
are, so it holds of the rows that have the key, and of no others.
-/

namespace RecordTables

open Engine (Affinity NumberedRow Failure Expr Scope keyCondition)
open Engine.Reading (withEqualities equality)

/-! ## Comparing -/

/-- A column compares exact values that it keeps as they are. -/
theorem Column.compareValues_keeps {column : Column} {v w : StoredValue} (hv : column.Keeps v) (hw : column.Keeps w)
    (hexact : v.isExact = true) (hexact' : w.isExact = true) :
    Engine.compareValues .equal (Affinity.ofDeclared column.type.keyword) v w = some (decide (v = w)) := by
  have hblob : Affinity.ofDeclared ColumnType.blob.keyword = .blob := by decide +kernel
  have hinteger : Affinity.ofDeclared ColumnType.integer.keyword = .integer := by decide +kernel
  have htext : Affinity.ofDeclared ColumnType.text.keyword = .text := by decide +kernel
  have hnull : ∀ {u : StoredValue}, u.isExact = true → u ≠ .null := by
    rintro _ hu rfl
    cases hu
  -- Neither is brought to another kind, as both are of the kind of the column.
  have hbring : Engine.bring (Affinity.ofDeclared column.type.keyword) v w = (v, w) := by
    cases v with
    | null | real => cases hexact
    | int m =>
        cases w with
        | null | real => cases hexact'
        | int n => rw [show column.type = .integer from hv, hinteger]; rfl
        | text | blob => cases (show column.type = .integer from hv).symm.trans (show column.type = _ from hw)
    | text a =>
        cases w with
        | null | real => cases hexact'
        | text b => rw [show column.type = .text from hv, htext]; rfl
        | int | blob => cases (show column.type = .text from hv).symm.trans (show column.type = _ from hw)
    | blob a =>
        cases w with
        | null | real => cases hexact'
        | blob b => rw [show column.type = .blob from hv, hblob]; rfl
        | int | text => cases (show column.type = .blob from hv).symm.trans (show column.type = _ from hw)
  unfold Engine.compareValues
  rw [if_neg (not_or.2 ⟨hnull hexact, hnull hexact'⟩), hbring]
  show some (Engine.orderValues v w == .eq) = _
  rw [Bool.eq_iff_iff.2 (beq_iff_eq.trans ((Engine.orderValues_eq hexact hexact').trans decide_eq_true_iff.symm))]

namespace TableDefinition

variable {table : TableDefinition} {values values' : List StoredValue} {rows : List NumberedRow}

/-- The affinity of a column of a table. -/
theorem affinity_at_place {c : String} {column : Column} (hc : table.column? c = some column) :
    (table.holding rows).affinities[table.place c]? = some (Affinity.ofDeclared column.type.keyword) := by
  obtain ⟨column', hcolumn', hat⟩ := Engine.Store.column_at_place (List.mem_map_of_mem (table.column?_eq_some.1 hc))
  obtain rfl : column = column' := Option.some.inj (hc.symm.trans hcolumn')
  have hcolumns : (table.holding rows).affinities =
      table.columns.map fun p => Affinity.ofDeclared p.2.type.keyword := by
    show List.map _ (table.columns.map _) = _
    rw [List.map_map]
    rfl
  rw [hcolumns, List.getElem?_map, hat]
  rfl

/-- The equality of a key column with a parameter tells whether the values are the same. -/
theorem isTrue_equality (hkeyed : table.Keyed) (hv : table.Keeps values) (hw : table.Keeps values') {c : String}
    (hc : c ∈ table.primaryKey) {parameters : Array StoredValue} {k : Nat}
    (hk : parameters[k]? = values'[table.place c]?) :
    Engine.isTrue ((table.holding rows).scope parameters values) (equality (table.place c) (k + 1)) =
      .ok (decide (values[table.place c]?.getD .null = values'[table.place c]?.getD .null)) := by
  obtain ⟨column, hcolumn, hnull, htype⟩ := hkeyed.exact c hc
  obtain ⟨v, hvalue, hkeeps⟩ := hv.value hcolumn
  obtain ⟨w, hvalue', hkeeps'⟩ := hw.value hcolumn
  have hcompare := Column.compareValues_keeps hkeeps hkeeps' (Column.isExact_of_keeps hkeeps hnull htype)
    (Column.isExact_of_keeps hkeeps' hnull htype)
  have haffinity : Engine.affinityOf ((table.holding rows).scope parameters values) (.column (table.place c)) = _ :=
    affinity_at_place hcolumn
  have heval : Engine.evaluate ((table.holding rows).scope parameters values) (equality (table.place c) (k + 1)) =
      .ok (Engine.ofTruth (some (decide (v = w)))) := by
    rw [equality, Engine.evaluate, haffinity]
    simp only [Engine.evaluate, Engine.Table.scope, hvalue, Nat.add_sub_cancel, hk, hvalue', Option.getD_some]
    rw [← hcompare]
    rfl
  have hunfold : Engine.isTrue ((table.holding rows).scope parameters values) (equality (table.place c) (k + 1)) =
      (do return Engine.truth (← Engine.evaluate ((table.holding rows).scope parameters values)
        (equality (table.place c) (k + 1))) == some true) := rfl
  rw [hunfold, heval, hvalue, hvalue', Option.getD_some, Option.getD_some]
  by_cases hsame : v = w
  · simp only [hsame, decide_true]
    rfl
  · simp only [hsame, decide_false]
    rfl

/-- Further equalities are asked for one by one, as long as all before them hold. -/
theorem isTrue_withEqualities (hkeyed : table.Keyed) (hv : table.Keeps values) (hw : table.Keeps values')
    {cs : List String} (hcs : ∀ c ∈ cs, c ∈ table.primaryKey) {before : List StoredValue}
    {parameters : List StoredValue} {left : Expr} {b : Bool}
    (hparameters : parameters = before ++ cs.map fun c => values'[table.place c]?.getD .null)
    (hleft : Engine.isTrue ((table.holding rows).scope parameters.toArray values) left = .ok b) :
    Engine.isTrue ((table.holding rows).scope parameters.toArray values)
        (withEqualities left before.length (cs.map table.place)) =
      .ok (b && decide (cs.map (fun c => values[table.place c]?.getD .null) =
        cs.map fun c => values'[table.place c]?.getD .null)) := by
  induction cs generalizing before left b with
  | nil => simpa [withEqualities] using hleft
  | cons c rest ih =>
      rw [List.forall_mem_cons] at hcs
      obtain ⟨w, hw', -⟩ := hkeyed.isExact hw hcs.1
      have hk : parameters.toArray[before.length]? = values'[table.place c]? := by
        rw [List.getElem?_toArray, hparameters, List.getElem?_append_right (Nat.le_refl _), Nat.sub_self, List.map_cons,
          hw']
        rfl
      have hboth : Engine.isTrue ((table.holding rows).scope parameters.toArray values)
          (.and left (equality (table.place c) (before.length + 1))) =
            .ok (b && decide (values[table.place c]?.getD .null = values'[table.place c]?.getD .null)) := by
        rw [Engine.isTrue, hleft]
        cases b with
        | false => rfl
        | true => exact isTrue_equality hkeyed hv hw hcs.1 hk
      have hnext := @ih hcs.2 (before ++ [w]) _ _ (by rw [hparameters, List.map_cons, hw']; simp) hboth
      rw [List.length_append, List.length_singleton] at hnext
      rw [List.map_cons, withEqualities, hnext]
      simp only [List.map_cons, List.cons.injEq, Bool.decide_and, Bool.and_assoc]

/-- A condition on the key holds exactly of rows with the same key. -/
theorem isTrue_keyCondition (hkeyed : table.Keyed) (hv : table.Keeps values) (hw : table.Keeps values')
    {before parameters : List StoredValue} (hparameters : parameters = before ++ table.keyValues values') :
    Engine.isTrue ((table.holding rows).scope parameters.toArray values)
        (keyCondition before.length (table.primaryKey.map table.place)) =
      .ok (decide (table.keyValues values = table.keyValues values')) := by
  cases hkey : table.primaryKey with
  | nil => exact absurd hkey hkeyed.keyed
  | cons first rest =>
      have hknown : ∀ c ∈ first :: rest, c ∈ table.primaryKey := fun c hc => hkey ▸ hc
      rw [List.forall_mem_cons] at hknown
      obtain ⟨w, hw', -⟩ := hkeyed.isExact hw hknown.1
      rw [keyValues, hkey, List.map_cons, hw'] at hparameters
      have hk : parameters.toArray[before.length]? = values'[table.place first]? := by
        rw [List.getElem?_toArray, hparameters, List.getElem?_append_right (Nat.le_refl _), Nat.sub_self, hw']
        rfl
      have hfirst := @isTrue_equality table values values' rows hkeyed hv hw first hknown.1 _ _ hk
      have hall := @isTrue_withEqualities table values values' rows hkeyed hv hw rest hknown.2 (before ++ [w]) _ _ _
        (by rw [hparameters]; simp) hfirst
      rw [List.length_append, List.length_singleton] at hall
      rw [List.map_cons, keyCondition, hall]
      simp only [keyValues, hkey, List.map_cons, List.cons.injEq, Bool.decide_and]

end TableDefinition

end RecordTables
