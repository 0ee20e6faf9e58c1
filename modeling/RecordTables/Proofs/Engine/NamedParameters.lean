import RecordTables.Proofs.Engine.KeyedRows

/-!
# Parameters under names

A statement on a row has one parameter for each column that it names.  Each of them comes to the place of its column,
whatever the order of the names is.
-/

namespace RecordTables

open Engine (NumberedRow Scope Expr Store parameterAssignments evaluate mapM_ok)

namespace Engine

variable {names : List String}

/-- Parameters for columns, one for each name. -/
def namedParameters (names : List String) : List (String × Expr) := names.map fun c => (c, .parameter (names.idxOf c + 1))

theorem namedParameters_eq_range (h : names.Nodup) :
    (List.range' 1 names.length).map Expr.parameter = (namedParameters names).map Prod.snd := by
  apply List.ext_getElem
  · simp [namedParameters]
  · intro i hi hi'
    have hlt : i < names.length := by simpa using hi
    simp [namedParameters, h.idxOf_getElem i hlt, Nat.add_comm]

theorem namedParameters_eq_assignments (h : names.Nodup) : parameterAssignments 0 names = namedParameters names := by
  apply List.ext_getElem
  · simp [parameterAssignments, namedParameters]
  · intro i hi hi'
    have hlt : i < names.length := by simpa [parameterAssignments] using hi
    simp [parameterAssignments, namedParameters, h.idxOf_getElem i hlt]

/-- The parameter of a name has the value that is bound for it. -/
theorem parameter_of_name {parameters : List StoredValue} {f : String → StoredValue} {tail : List StoredValue}
    (hparameters : parameters = names.map f ++ tail) {c : String} (hc : c ∈ names) :
    parameters.toArray[names.idxOf c]? = some (f c) := by
  rw [List.getElem?_toArray, hparameters, List.getElem?_append_left (by simpa using List.idxOf_lt_length_of_mem hc),
    List.getElem?_map, List.getElem?_idxOf hc]
  rfl

end Engine

open Engine (namedParameters)

namespace TableDefinition

variable (table : TableDefinition)

/-- The value of a column in a row. -/
def valueAt (values : List StoredValue) (c : String) : StoredValue := values[table.place c]?.getD .null

/-- What is given for columns under their names, under their places. -/
def placed {α : Type} (given : List (String × α)) : List (Nat × α) := given.map fun p => (table.place p.1, p.2)

variable {table} {values : List StoredValue} {names : List String} {rows : List NumberedRow}
  {parameters tail : List StoredValue}

theorem columnNames_holding (table : TableDefinition) (rows : List NumberedRow) :
    (table.holding rows).columnNames = table.columnNames :=
  table.columnNames_storedWith table.indexes.reverse

theorem place_inj {c d : String} (hc : c ∈ table.columnNames) : table.place c = table.place d ↔ c = d :=
  List.idxOf_inj hc

/-- The places of the columns are all places there are. -/
theorem map_place : table.columnNames.map table.place = List.range table.columns.length := by
  apply List.ext_getElem
  · simp [columnNames]
  · intro i hi hi'
    rw [List.getElem_map, place, table.nodup_columnNames.idxOf_getElem, List.getElem_range]

/-- The values of a row with their places, column by column. -/
theorem zipIdx_eq_valueAt (h : values.length = table.columns.length) :
    values.zipIdx = table.columnNames.map fun c => (table.valueAt values c, table.place c) := by
  apply List.ext_getElem
  · rw [List.length_zipIdx, List.length_map, columnNames, List.length_map, h]
  · intro i hi hi'
    rw [List.length_zipIdx] at hi
    rw [List.getElem_zipIdx, List.getElem_map, valueAt, place, table.nodup_columnNames.idxOf_getElem,
      List.getElem?_eq_getElem hi, Option.getD_some, Nat.zero_add]

theorem map_valueAt (h : values.length = table.columns.length) : table.columnNames.map (table.valueAt values) = values := by
  have hfst := congrArg (List.map Prod.fst) (zipIdx_eq_valueAt h)
  rw [List.zipIdx_map_fst, List.map_map] at hfst
  exact hfst.symm

/-- At the place of a column stands what is given for it, and nothing else. -/
theorem find?_placed (hknown : ∀ c ∈ names, c ∈ table.columnNames) {c : String} {f : String → Expr} :
    (table.placed (names.map fun n => (n, f n))).find? (fun p => decide (p.1 = table.place c)) =
      if c ∈ names then some (table.place c, f c) else none := by
  induction names with
  | nil => rfl
  | cons n rest ih =>
      rw [List.forall_mem_cons] at hknown
      have hrest := ih hknown.2
      rw [placed] at hrest ⊢
      rw [List.map_cons, List.map_cons, List.find?_cons]
      by_cases hn : n = c
      · subst hn
        simp
      · have hplace : ¬ table.place n = table.place c := fun h => hn ((place_inj hknown.1).1 h)
        simp only [hplace, decide_false, hrest, List.mem_cons, Ne.symm hn, false_or]

theorem findSome?_place (given : List (Nat × Expr)) (i : Nat) :
    given.findSome? (fun (p, e) => if p = i then some e else none) =
      (given.find? fun p => decide (p.1 = i)).map Prod.snd := by
  induction given with
  | nil => rfl
  | cons p rest ih =>
      rw [List.findSome?_cons, List.find?_cons]
      by_cases hp : p.1 = i
      · simp [hp]
      · simp [hp, ih]

/-- Values that are given for all columns are put in the order of the columns. -/
theorem spread_named (hknown : ∀ c ∈ names, c ∈ table.columnNames) (hall : ∀ c ∈ table.columnNames, c ∈ names) :
    Store.spread table.columns.length (names.map table.place) ((namedParameters names).map Prod.snd) =
      table.columnNames.map fun c => .parameter (names.idxOf c + 1) := by
  have hgiven : (names.map table.place).zip ((namedParameters names).map Prod.snd) =
      table.placed (names.map fun c => (c, .parameter (names.idxOf c + 1))) := by
    rw [namedParameters, List.map_map, List.zip_map', placed, List.map_map]
    rfl
  rw [Store.spread, hgiven, ← map_place, List.map_map]
  apply List.map_congr_left
  intro c hc
  simp only [Function.comp_apply]
  rw [findSome?_place, find?_placed hknown, if_pos (hall c hc)]
  rfl

/-- Evaluated, the parameters of all columns are the values that are bound. -/
theorem evaluate_named (hall : ∀ c ∈ table.columnNames, c ∈ names) (hlength : values.length = table.columns.length)
    (hparameters : parameters = names.map (table.valueAt values)) :
    (table.columnNames.map fun c => Expr.parameter (names.idxOf c + 1)).mapM
      (evaluate ⟨parameters.toArray, [], [], 0⟩) = .ok values := by
  rw [← List.append_nil (names.map _)] at hparameters
  rw [List.mapM_map]
  refine (mapM_ok fun c hc => ?_).trans (congrArg _ (map_valueAt hlength))
  show Except.ok ((parameters.toArray[names.idxOf c + 1 - 1]?).getD StoredValue.null) = _
  rw [Nat.add_sub_cancel, Engine.parameter_of_name hparameters (hall c hc), Option.getD_some]

/-- An assignment to some columns leaves the others, and makes the values that are bound. -/
theorem assigned_named (rows : List NumberedRow) {old : List StoredValue} (hknown : ∀ c ∈ names, c ∈ table.columnNames)
    (hold : old.length = table.columns.length) (hlength : values.length = table.columns.length)
    (hkept : ∀ c ∈ table.columnNames, c ∉ names → table.valueAt old c = table.valueAt values c)
    (hparameters : parameters = names.map (table.valueAt values) ++ tail) :
    Engine.Progress.assigned (table.holding rows) parameters.toArray (table.placed (namedParameters names)) old =
      .ok values := by
  have hreverse : (table.placed (namedParameters names)).reverse =
      table.placed (names.reverse.map fun c => (c, .parameter (names.idxOf c + 1))) := by
    rw [placed, placed, namedParameters, List.map_reverse, List.map_reverse]
  unfold Engine.Progress.assigned
  rw [zipIdx_eq_valueAt hold, List.mapM_map]
  refine (mapM_ok fun c hc => ?_).trans (congrArg _ (map_valueAt hlength))
  have hfind := @find?_placed table names.reverse (fun c hc => hknown c (List.mem_reverse.1 hc)) c
    fun c => .parameter (names.idxOf c + 1)
  simp only [Function.comp_apply, hreverse, hfind, List.mem_reverse]
  by_cases hmem : c ∈ names
  · simp only [hmem, if_true]
    show Except.ok ((parameters.toArray[names.idxOf c + 1 - 1]?).getD StoredValue.null) = _
    rw [Nat.add_sub_cancel, Engine.parameter_of_name hparameters hmem, Option.getD_some]
  · simp only [hmem, if_false]
    rw [hkept c hc hmem]

end TableDefinition

end RecordTables
