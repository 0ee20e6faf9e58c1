import Mathlib
import RecordTables.Engine.Connection
import RecordTables.Database.Catalog

/-!
# Selections of columns

A selection that asks for columns, and neither orders nor cuts, gives the cells of these columns for each row that it
finds.  The three statements that ask the catalog are of this kind.
-/

namespace RecordTables.Engine

/-- A computation of the engine succeeds if its first step and all that follows do. -/
theorem bind_eq_ok {ε α β : Type} {x : Except ε α} {f : α → Except ε β} {b : β} :
    x >>= f = .ok b ↔ ∃ a, x = .ok a ∧ f a = .ok b := by
  cases x with
  | error e => exact ⟨fun h => (by cases h), by rintro ⟨_, h, _⟩; cases h⟩
  | ok a => exact ⟨fun h => ⟨a, rfl, h⟩, by rintro ⟨_, h, hf⟩; cases h; exact hf⟩

/-- A test that never fails filters as its outcome. -/
theorem filterM_ok {α : Type} {test : α → Except Failure Bool} {p : α → Bool} {xs : List α}
    (h : ∀ x ∈ xs, test x = .ok (p x)) : xs.filterM test = .ok (xs.filter p) := by
  -- The rows that have passed so far are kept in reverse.
  suffices hacc : ∀ acc, List.filterAuxM test xs acc = .ok ((xs.filter p).reverse ++ acc) by
    rw [List.filterM, hacc []]
    simp only [bind, Except.bind, pure, Except.pure, List.append_nil, List.reverse_reverse]
  induction xs with
  | nil => exact fun acc => rfl
  | cons x xs ih =>
      intro acc
      rw [List.forall_mem_cons] at h
      rw [List.filterAuxM, h.1]
      show List.filterAuxM test xs (cond (p x) (x :: acc) acc) = _
      rw [ih h.2, List.filter_cons]
      cases p x <;> simp

/-- A computation on each of several values succeeds if it does on all of them. -/
theorem mapM_eq_ok_iff {ε α β : Type} {f : α → Except ε β} {xs : List α} {ys : List β} :
    xs.mapM f = .ok ys ↔ List.Forall₂ (fun x y => f x = .ok y) xs ys := by
  induction xs generalizing ys with
  | nil =>
      rw [List.forall₂_nil_left_iff]
      exact ⟨fun h => by cases h; rfl, fun h => h ▸ rfl⟩
  | cons x xs ih =>
      rw [List.mapM_cons, List.forall₂_cons_left_iff]
      constructor
      · intro h
        cases hx : f x with
        | error e => rw [hx] at h; cases h
        | ok y =>
            cases hxs : xs.mapM f with
            | error e => rw [hx, hxs] at h; cases h
            | ok rest =>
                rw [hx, hxs] at h
                cases h
                exact ⟨y, rest, rfl, ih.1 hxs, rfl⟩
      · rintro ⟨y, rest, hy, hxs, rfl⟩
        rw [hy, ih.2 hxs]
        rfl

theorem mapM_ok {ε α β : Type} {f : α → Except ε β} {g : α → β} {xs : List α} (h : ∀ x ∈ xs, f x = .ok (g x)) :
    xs.mapM f = .ok (xs.map g) :=
  mapM_eq_ok_iff.2 (List.forall₂_map_right_iff.2 (List.forall₂_same.2 h))

namespace PlannedSelection

/-- The cells of several columns of a row. -/
def cells (positions : List Nat) (row : List StoredValue) : List StoredValue :=
  positions.map fun i => row[i]?.getD .null

theorem evaluate_columns (scope : Scope) (positions : List Nat) :
    (positions.map Expr.column).mapM (evaluate scope) = .ok (cells positions scope.row) := by
  rw [List.mapM_map]
  exact List.mapM_pure

/-- A selection of columns gives their cells for all rows that are found. -/
theorem run_columns {s : PlannedSelection} {parameters : Array StoredValue} {affinities : List Affinity}
    {rows : List (List StoredValue)} {positions : List Nat} (hvalues : s.values = positions.map Expr.column)
    (hcounts : s.counts = false) (horder : s.order = []) (hpage : s.page = ⟨none, none⟩)
    (hfound : s.found parameters = .ok (affinities, rows)) :
    s.run parameters = .ok ⟨s.names, rows.map (cells positions)⟩ := by
  have hkeyed : (rows.mapM fun row => (do
      return (← s.order.mapM fun k => do
        return (← evaluate ⟨parameters, row, affinities, 0⟩ k.key, k.descending), row) :
          Except Failure (List (StoredValue × Bool) × List StoredValue))) = .ok (rows.map fun row => ([], row)) := by
    rw [horder]
    exact List.mapM_pure
  -- Without an ordering all rows are alike, and sorting leaves them where they are.
  have hsorted : ((rows.map fun row => (([] : List (StoredValue × Bool)), row)).mergeSort fun a b =>
      keysLe a.1 b.1).map Prod.snd = rows := by
    rw [List.mergeSort_of_pairwise, List.map_map]
    · exact List.map_id rows
    · rw [List.pairwise_map]
      exact List.pairwise_of_forall fun _ _ => rfl
  have hcells : (rows.mapM fun row => s.values.mapM (evaluate ⟨parameters, row, affinities, 0⟩)) =
      .ok (rows.map (cells positions)) := by
    rw [hvalues]
    simp only [evaluate_columns]
    exact List.mapM_pure
  unfold run
  rw [hpage]
  simp only [pageBound, hfound, bind, Except.bind, pure, Except.pure] at hkeyed ⊢
  rw [hkeyed]
  simp only [hsorted, hcounts, Bool.false_eq_true, if_false]
  rw [hcells]
  simp [pageOf]

end PlannedSelection

/-! ## Columns by name -/

/-- A column that is asked for by its name, quoted or not, at a place of the text. -/
def ResultColumn.named (c : String × Bool × Nat) : ResultColumn := .value (.name c.1 c.2.1 c.2.2) c.1

/-- The name that a column is asked for by, if it has no other. -/
def ResultColumn.named? : ResultColumn → Option (String × Bool × Nat)
  | .value (.name s quoted offset) label => if label = s then some (s, quoted, offset) else none
  | _ => none

theorem ResultColumn.eq_named {r : ResultColumn} {c : String × Bool × Nat} (h : r.named? = some c) : r = named c := by
  unfold named? at h
  split at h
  · split_ifs at h with hlabel
    cases h
    rw [hlabel]
    rfl
  · cases h

theorem ResultColumn.eq_map_named {asked : List ResultColumn} {columns : List (String × Bool × Nat)}
    (h : asked.map named? = columns.map some) : asked = columns.map named := by
  induction asked generalizing columns with
  | nil =>
      cases columns with
      | nil => rfl
      | cons c rest => cases h
  | cons r rest ih =>
      cases columns with
      | nil => cases h
      | cons c more =>
          obtain ⟨hfirst, hrest⟩ := List.cons.inj h
          rw [eq_named hfirst, ih hrest, List.map_cons]

namespace Store

variable {store : Store}

/-- A selection that neither filters nor orders nor cuts means its source and its columns. -/
theorem planSelection_plain {columns : List ResultColumn} {source : Source} {planned : PlannedSource}
    {names : List String} {results : List (String × Expr)} (hsource : store.planSource source = .ok (planned, names))
    (hresults : resultColumns names columns = .ok results) (hwidth : results.length ≤ maxColumns) :
    store.planSelection ⟨columns, source, none, [], none, none⟩ =
      .ok ⟨results.map Prod.fst, results.map Prod.snd, results.any fun r => isCount r.2, planned, none, [],
        ⟨none, none⟩⟩ := by
  have hnarrow : ¬ maxColumns < results.length := by omega
  simp only [planSelection, hsource, hresults, bind, Except.bind, hnarrow, if_false, resolveFilter, pure, Except.pure,
    List.mapM_nil]
  rfl

/-- Columns that are asked for by name are those at the places of the names. -/
theorem resultColumns_named {names : List String} {asked : List (String × Bool × Nat)} {columns : List (String × Nat)}
    (h : asked.map (fun c => (c.1, names.findIdx? fun n => sameName n c.1)) = columns.map fun p => (p.1, some p.2)) :
    resultColumns names (asked.map ResultColumn.named) = .ok (columns.map fun p => (p.1, .column p.2)) := by
  induction asked generalizing columns with
  | nil =>
      cases columns with
      | nil => rfl
      | cons p rest => cases h
  | cons c rest ih =>
      cases columns with
      | nil => cases h
      | cons p more =>
          obtain ⟨hfirst, hrest⟩ := List.cons.inj h
          obtain ⟨hname, hfind⟩ := Prod.mk.inj hfirst
          have hresolve : resolve names (.name c.1 c.2.1 c.2.2) = .ok (.column p.2) := by
            rw [resolve, hfind]
          simp only [List.map_cons, ResultColumn.named, resultColumns, hresolve, ih hrest, ← hname]
          rfl

end Store

/-! ## The catalog -/

/-- The view and the columns that a statement asks for, if it selects them and does nothing else. -/
def Statement.viewed? : Statement × Nat → Option (String × List (Option (String × Bool × Nat)))
  | (.select ⟨columns, .catalog view (.parameter 1), none, [], none, none⟩, 1) =>
      some (view, columns.map ResultColumn.named?)
  | _ => none

/-- A text that is read as a selection from a view is read as nothing more than that. -/
theorem Statement.ofText_of_viewed {text view : String} {columns : List (String × Bool × Nat)}
    (h : (Statement.ofText text).toOption.bind viewed? = some (view, columns.map some)) :
    Statement.ofText text =
      .ok (.select ⟨columns.map ResultColumn.named, .catalog view (.parameter 1), none, [], none, none⟩, 1) := by
  cases htext : Statement.ofText text with
  | error e => rw [htext] at h; cases h
  | ok read =>
      rw [htext] at h
      change viewed? read = _ at h
      unfold viewed? at h
      split at h
      · obtain ⟨hview, hcolumns⟩ := Prod.mk.inj (Option.some.inj h)
        rw [hview, ResultColumn.eq_map_named hcolumns]
      · cases h

/-- The rows of a view under the name that it is asked for. -/
def viewRows (rows : String → List (List StoredValue)) (v : StoredValue) : List (List StoredValue) :=
  ((Store.argumentName? v).map rows).getD []

/-- A selection of columns of a view, whose argument is the only parameter. -/
def viewSelection (columns : List (String × Nat)) (rows : String → List (List StoredValue)) : PlannedSelection :=
  ⟨columns.map Prod.fst, (columns.map Prod.snd).map .column, false, .catalog (viewRows rows) (.parameter 1), none, [],
    ⟨none, none⟩⟩

namespace Connection

variable {c : Connection}

/-- A text that selects columns of a view, which no table has the name of. -/
theorem planOf_view {text view : String} {names : List String} {asked : List ResultColumn}
    {columns : List (String × Nat)} {rows : String → List (List StoredValue)}
    (htext : Statement.ofText text = .ok (.select ⟨asked, .catalog view (.parameter 1), none, [], none, none⟩, 1))
    (htable : c.store.table? view = none) (hview : c.store.view? view = some ⟨names, viewRows rows⟩)
    (hasked : Store.resultColumns names asked = .ok (columns.map fun p => (p.1, .column p.2)))
    (hwidth : columns.length ≤ Store.maxColumns) (v : StoredValue) :
    c.planOf text [v] = .ok (.select (viewSelection columns rows)) := by
  have hsource : c.store.planSource (.catalog view (.parameter 1)) =
      .ok (.catalog (viewRows rows) (.parameter 1), names) := by
    simp only [Store.planSource, htable, hview, Option.isSome_none, Bool.false_eq_true, if_false]
    rfl
  have hselection := Store.planSelection_plain hsource hasked (by rwa [List.length_map])
  have hcounts : (columns.map fun p => (p.1, Expr.column p.2)).any (fun r => Store.isCount r.2) = false := by
    simp [Store.isCount]
  simp only [planOf, htext, bind, Except.bind, Store.plan, hselection, pure, Except.pure, List.length_singleton, if_true,
    hcounts, viewSelection, List.map_map]
  rfl

/-- Each view is found by its name. -/
theorem find?_viewColumns : ∀ view ∈ Store.viewColumns,
    Store.viewColumns.find? (fun v => sameName v.1 view.1) = some view := by
  decide +kernel

theorem view?_columns (store : Store) : store.view? "pragma_table_info" =
    some ⟨["cid", "name", "type", "notnull", "dflt_value", "pk"], viewRows store.columnRows⟩ := by
  have hfind := find?_viewColumns ("pragma_table_info", ["cid", "name", "type", "notnull", "dflt_value", "pk"])
    (by simp [Store.viewColumns])
  simp only [Store.view?, hfind]
  rfl

theorem view?_indexes (store : Store) : store.view? "pragma_index_list" =
    some ⟨["seq", "name", "unique", "origin", "partial"], viewRows store.indexRows⟩ := by
  have hfind := find?_viewColumns ("pragma_index_list", ["seq", "name", "unique", "origin", "partial"])
    (by simp [Store.viewColumns])
  simp only [Store.view?, hfind]
  rfl

theorem view?_parts (store : Store) : store.view? "pragma_index_info" =
    some ⟨["seqno", "cid", "name"], viewRows store.partRows⟩ := by
  have hfind := find?_viewColumns ("pragma_index_info", ["seqno", "cid", "name"]) (by simp [Store.viewColumns])
  simp only [Store.view?, hfind]
  rfl

/-- The texts that ask the catalog, each with its view and the columns that it asks for. -/
theorem viewed?_texts :
    (Statement.ofText Catalog.columnsText).toOption.bind Statement.viewed? =
        some ("pragma_table_info",
          [("name", false, 7), ("type", false, 13), ("notnull", true, 19), ("pk", false, 30)].map some) ∧
      (Statement.ofText Catalog.indexesText).toOption.bind Statement.viewed? =
        some ("pragma_index_list", [("name", false, 7), ("unique", true, 13), ("origin", false, 23)].map some) ∧
      (Statement.ofText Catalog.partsText).toOption.bind Statement.viewed? =
        some ("pragma_index_info", [("seqno", false, 7), ("name", false, 14)].map some) := by
  refine ⟨?_, ?_, ?_⟩ <;> decide +kernel

theorem ofText_columnsText : Statement.ofText Catalog.columnsText = .ok (.select
    ⟨[("name", false, 7), ("type", false, 13), ("notnull", true, 19), ("pk", false, 30)].map ResultColumn.named,
      .catalog "pragma_table_info" (.parameter 1), none, [], none, none⟩, 1) :=
  Statement.ofText_of_viewed viewed?_texts.1

theorem ofText_indexesText : Statement.ofText Catalog.indexesText = .ok (.select
    ⟨[("name", false, 7), ("unique", true, 13), ("origin", false, 23)].map ResultColumn.named,
      .catalog "pragma_index_list" (.parameter 1), none, [], none, none⟩, 1) :=
  Statement.ofText_of_viewed viewed?_texts.2.1

theorem ofText_partsText : Statement.ofText Catalog.partsText = .ok (.select
    ⟨[("seqno", false, 7), ("name", false, 14)].map ResultColumn.named,
      .catalog "pragma_index_info" (.parameter 1), none, [], none, none⟩, 1) :=
  Statement.ofText_of_viewed viewed?_texts.2.2

/-- Where the columns that they ask for stand in their views. -/
theorem resultColumns_texts :
    Store.resultColumns ["cid", "name", "type", "notnull", "dflt_value", "pk"]
        ([("name", false, 7), ("type", false, 13), ("notnull", true, 19), ("pk", false, 30)].map ResultColumn.named) =
        .ok ([("name", 1), ("type", 2), ("notnull", 3), ("pk", 5)].map fun p => (p.1, .column p.2)) ∧
      Store.resultColumns ["seq", "name", "unique", "origin", "partial"]
        ([("name", false, 7), ("unique", true, 13), ("origin", false, 23)].map ResultColumn.named) =
        .ok ([("name", 1), ("unique", 2), ("origin", 3)].map fun p => (p.1, .column p.2)) ∧
      Store.resultColumns ["seqno", "cid", "name"]
        ([("seqno", false, 7), ("name", false, 14)].map ResultColumn.named) =
        .ok ([("seqno", 0), ("name", 2)].map fun p => (p.1, .column p.2)) := by
  refine ⟨Store.resultColumns_named ?_, Store.resultColumns_named ?_, Store.resultColumns_named ?_⟩ <;> decide +kernel

theorem planOf_columnsText (h : c.store.table? "pragma_table_info" = none) (v : StoredValue) :
    c.planOf Catalog.columnsText [v] = .ok (.select
      (viewSelection [("name", 1), ("type", 2), ("notnull", 3), ("pk", 5)] c.store.columnRows)) :=
  planOf_view ofText_columnsText h (view?_columns _) resultColumns_texts.1 (by decide) v

theorem planOf_indexesText (h : c.store.table? "pragma_index_list" = none) (v : StoredValue) :
    c.planOf Catalog.indexesText [v] = .ok (.select
      (viewSelection [("name", 1), ("unique", 2), ("origin", 3)] c.store.indexRows)) :=
  planOf_view ofText_indexesText h (view?_indexes _) resultColumns_texts.2.1 (by decide) v

theorem planOf_partsText (h : c.store.table? "pragma_index_info" = none) (v : StoredValue) :
    c.planOf Catalog.partsText [v] = .ok (.select
      (viewSelection [("seqno", 0), ("name", 2)] c.store.partRows)) :=
  planOf_view ofText_partsText h (view?_parts _) resultColumns_texts.2.2 (by decide) v

/-- A view in front of which there is a table cannot be asked. -/
theorem planOf_covered {text view : String} {asked : List ResultColumn} {argument : Expr} {needed : Nat}
    (htext : Statement.ofText text = .ok (.select ⟨asked, .catalog view argument, none, [], none, none⟩, needed))
    (htable : (c.store.table? view).isSome = true) (parameters : List StoredValue) :
    c.planOf text parameters = .error (.notFunction view) := by
  simp only [planOf, htext, bind, Except.bind, Store.plan, Store.planSelection, Store.planSource, htable, if_true]

/-- What is not planned fails, and nothing has happened. -/
theorem run_unplanned {text : String} {parameters : List StoredValue} {e : Failure}
    (h : c.planOf text parameters = .error e) : c.run text parameters = (.error e, c) := by
  simp only [run, h, Store.interrupted, Except.mapError, bind, Except.bind]
  split <;> rfl

/-- A planned selection gives its rows, and nothing else happens. -/
theorem run_of_planOf {text : String} {parameters : List StoredValue} {s : PlannedSelection}
    (h : c.planOf text parameters = .ok (.select s)) : c.run text parameters = (s.run parameters.toArray, c) := by
  simp only [run, h, Store.interrupted, Except.mapError, bind, Except.bind, execute]
  cases s.run parameters.toArray with
  | error e =>
      simp only
      split <;> rfl
  | ok result => rfl

/-- A selection leaves the connection as it was, whether it succeeds or not. -/
theorem run_selection_snd {text : String} {s : Selection} {needed : Nat}
    (htext : Statement.ofText text = .ok (.select s, needed)) (parameters : List StoredValue) :
    (c.run text parameters).2 = c := by
  have hplan : (∃ e, c.planOf text parameters = .error e) ∨ ∃ p, c.planOf text parameters = .ok (.select p) := by
    simp only [planOf, htext, bind, Except.bind, Store.plan]
    cases c.store.planSelection s with
    | error e => exact .inl ⟨e, rfl⟩
    | ok p =>
        simp only [pure, Except.pure]
        split
        · exact .inr ⟨p, rfl⟩
        · exact .inl ⟨_, rfl⟩
  obtain ⟨e, he⟩ | ⟨p, hp⟩ := hplan
  · rw [run_unplanned he]
  · rw [run_of_planOf hp]

/-- A view that is asked about a name answers with its rows, and changes nothing. -/
theorem run_view {text : String} {columns : List (String × Nat)} {rows : String → List (List StoredValue)}
    {v : StoredValue} (hplan : c.planOf text [v] = .ok (.select (viewSelection columns rows))) :
    c.run text [v] =
      (.ok ⟨columns.map Prod.fst, (viewRows rows v).map (PlannedSelection.cells (columns.map Prod.snd))⟩, c) := by
  have hfound : (viewSelection columns rows).found #[v] = .ok ([], viewRows rows v) := by
    have hall : (viewRows rows v).filterM (fun row => holds ⟨#[v], row, [], 0⟩ none) =
        .ok ((viewRows rows v).filter fun _ => true) := filterM_ok fun _ _ => rfl
    rw [List.filter_eq_self.2 fun _ _ => rfl] at hall
    simp only [PlannedSelection.found, viewSelection, evaluate, bind, Except.bind, pure, Except.pure]
    rw [show (#[v][1 - 1]?).getD StoredValue.null = v from rfl, hall]
  rw [run_of_planOf hplan]
  exact congrArg (·, c) (PlannedSelection.run_columns rfl rfl rfl rfl hfound)

end Connection

end RecordTables.Engine
