import RecordTables.Schema.Table
import RecordTables.Proofs.Record.Presented

/-!
# Columns of a definition

A definition that is put together of columns with distinct names has these columns and no others.
-/

namespace RecordTables

variable {α : Type} {key : α → String}

/-- Inserting under a new key keeps all that is there. -/
theorem mem_insertBy_of_fresh {x y : α} {xs : List α} (hfresh : key x ∉ xs.map key) :
    y ∈ insertBy key x xs ↔ y = x ∨ y ∈ xs := by
  induction xs with
  | nil => simp [insertBy]
  | cons z rest ih =>
      rw [List.map_cons, List.mem_cons, not_or] at hfresh
      unfold insertBy
      split
      · exact List.mem_cons
      · rw [if_neg hfresh.1, List.mem_cons, ih hfresh.2, List.mem_cons]
        constructor
        · rintro (h | h | h)
          · exact .inr (.inl h)
          · exact .inl h
          · exact .inr (.inr h)
        · rintro (h | h | h)
          · exact .inr (.inl h)
          · exact .inl h
          · exact .inr (.inr h)

theorem mem_map_insertBy {x : α} {xs : List α} {name : String} :
    name ∈ (insertBy key x xs).map key ↔ name = key x ∨ name ∈ xs.map key := by
  induction xs with
  | nil => simp [insertBy]
  | cons y rest ih =>
      unfold insertBy
      split
      · exact List.mem_cons
      · split
        · rename_i hsame
          rw [List.map_cons, List.map_cons, List.mem_cons, List.mem_cons, ← hsame, ← or_assoc, or_self]
        · rw [List.map_cons, List.map_cons, List.mem_cons, ih, List.mem_cons, or_left_comm]

/-- Sorting loses no key. -/
theorem mem_map_ascendingBy {xs : List α} {name : String} :
    name ∈ (ascendingBy key xs).map key ↔ name ∈ xs.map key := by
  suffices hfold : ∀ acc : List α,
      name ∈ (xs.foldl (fun acc x => insertBy key x acc) acc).map key ↔ name ∈ acc.map key ∨ name ∈ xs.map key by
    have hempty := hfold []
    simpa [ascendingBy] using hempty
  induction xs with
  | nil => simp
  | cons x rest ih =>
      intro acc
      rw [List.foldl_cons, ih, mem_map_insertBy, List.map_cons, List.mem_cons, or_comm (a := name = key x), or_assoc]

/-- Sorting elements with distinct keys loses none of them. -/
theorem mem_ascendingBy {xs : List α} (hnodup : (xs.map key).Nodup) {y : α} : y ∈ ascendingBy key xs ↔ y ∈ xs := by
  -- Every key to come is new to what was inserted so far; an equal key would be overwritten.
  suffices hfold : ∀ acc : List α, (∀ x ∈ xs, key x ∉ acc.map key) →
      (y ∈ xs.foldl (fun acc x => insertBy key x acc) acc ↔ y ∈ acc ∨ y ∈ xs) by
    have hempty := hfold [] (by simp)
    simpa [ascendingBy] using hempty
  induction xs with
  | nil => simp
  | cons x rest ih =>
      intro acc hfresh
      rw [List.map_cons, List.nodup_cons] at hnodup
      have hacc : ∀ z ∈ rest, key z ∉ (insertBy key x acc).map key := by
        intro z hz hmem
        rcases mem_map_insertBy.1 hmem with h | h
        · exact hnodup.1 (h ▸ List.mem_map_of_mem hz)
        · exact hfresh z (List.mem_cons_of_mem _ hz) h
      rw [List.foldl_cons, ih hnodup.2 _ hacc, mem_insertBy_of_fresh (hfresh x (List.mem_cons_self ..)), List.mem_cons]
      constructor
      · rintro ((h | h) | h)
        · exact .inr (.inl h)
        · exact .inl h
        · exact .inr (.inr h)
      · rintro (h | h | h)
        · exact .inl (.inr h)
        · exact .inl (.inl h)
        · exact .inr h

/-- Texts are their own keys, so sorting them loses none. -/
theorem mem_ascending {names : List String} {n : String} : n ∈ ascending names ↔ n ∈ names := by
  have hkeys := @mem_map_ascendingBy _ id names n
  rwa [List.map_id, List.map_id] at hkeys

/-- What is greater than all is inserted behind all. -/
theorem insertBy_of_greater {x : α} {xs : List α} (h : ∀ y ∈ xs, key y < key x) : insertBy key x xs = xs ++ [x] := by
  induction xs with
  | nil => rfl
  | cons y rest ih =>
      rw [List.forall_mem_cons] at h
      have hne : ¬ key x = key y := fun heq => String.lt_irrefl (key y) (heq ▸ h.1)
      rw [insertBy, if_neg (String.lt_asymm h.1), if_neg hne, ih h.2, List.cons_append]

/-- Sorting keeps what ascends already. -/
theorem ascendingBy_of_pairwise {xs : List α} (h : xs.Pairwise fun a b => key a < key b) : ascendingBy key xs = xs := by
  suffices hfold : ∀ acc : List α, (∀ y ∈ acc, ∀ x ∈ xs, key y < key x) →
      xs.foldl (fun acc x => insertBy key x acc) acc = acc ++ xs from hfold [] (by simp)
  induction xs with
  | nil => simp
  | cons x rest ih =>
      intro acc hacc
      obtain ⟨hx, hrest⟩ := List.pairwise_cons.1 h
      have hbehind : insertBy key x acc = acc ++ [x] :=
        insertBy_of_greater fun y hy => hacc y hy x (List.mem_cons_self ..)
      rw [List.foldl_cons, hbehind, ih hrest, List.append_assoc, List.singleton_append]
      intro y hy z hz
      rcases List.mem_append.1 hy with hy | hy
      · exact hacc y hy z (List.mem_cons_of_mem _ hz)
      · exact List.mem_singleton.1 hy ▸ hx z hz

/-- Where the keys ascend, the elements determine their order. -/
theorem eq_of_ascending {xs ys : List α} (hx : xs.Pairwise fun a b => key a < key b)
    (hy : ys.Pairwise fun a b => key a < key b) (hmem : ∀ a, a ∈ xs ↔ a ∈ ys) : xs = ys := by
  have hnodup : ∀ {zs : List α}, (zs.Pairwise fun a b => key a < key b) → zs.Nodup := by
    intro zs hz
    refine hz.imp ?_
    rintro a b hlt rfl
    exact String.lt_irrefl _ hlt
  have hperm : xs.Perm ys := (List.perm_ext_iff_of_nodup (hnodup hx) (hnodup hy)).2 hmem
  exact hperm.eq_of_pairwise (fun a b _ _ hlt hgt => absurd hgt (String.lt_asymm hlt)) hx hy

/-- Sorting under distinct keys does not depend on the order. -/
theorem ascendingBy_eq_of_perm {xs ys : List α} (hnodup : (xs.map key).Nodup) (h : xs.Perm ys) :
    ascendingBy key xs = ascendingBy key ys :=
  eq_of_ascending (pairwise_ascendingBy key xs) (pairwise_ascendingBy key ys) fun a => by
    rw [mem_ascendingBy hnodup, mem_ascendingBy ((h.map key).nodup_iff.1 hnodup), h.mem_iff]

theorem ascending_noIndexes : ([] : List Index).Pairwise fun a b => a.name ≤ b.name := .nil

namespace TableDefinition

theorem of_make {name : String} {columns : List (String × Column)} {primaryKey : List String} {indexes : List Index}
    {table : TableDefinition} (h : make name columns primaryKey indexes = .ok table) :
    table.name = name ∧ table.columns = ascendingBy Prod.fst columns ∧ table.primaryKey = primaryKey ∧
      table.indexes = sortIndexes indexes := by
  unfold make at h
  simp only at h
  split at h
  · cases h
    exact ⟨rfl, rfl, rfl, rfl⟩
  · cases h

theorem columns_of_make {name : String} {columns : List (String × Column)} {primaryKey : List String}
    {indexes : List Index} {table : TableDefinition} (h : make name columns primaryKey indexes = .ok table) :
    table.columns = ascendingBy Prod.fst columns := (of_make h).2.1

theorem name_of_make {name : String} {columns : List (String × Column)} {primaryKey : List String}
    {indexes : List Index} {table : TableDefinition} (h : make name columns primaryKey indexes = .ok table) :
    table.name = name := (of_make h).1

/-- A definition is no more than its name, its columns, its key and its indexes. -/
theorem eq_of_fields {a b : TableDefinition} (hname : a.name = b.name) (hcolumns : a.columns = b.columns)
    (hkey : a.primaryKey = b.primaryKey) (hindexes : a.indexes = b.indexes) : a = b := by
  cases a
  cases b
  cases hname
  cases hcolumns
  cases hkey
  cases hindexes
  rfl

/-- A definition is put together if its key and its indexes are over columns that are given. -/
theorem make_isOk {name : String} {columns : List (String × Column)} {primaryKey : List String} {indexes : List Index} :
    (∃ table, make name columns primaryKey indexes = .ok table) ↔
      ∀ c ∈ primaryKey ++ indexes.flatMap Index.columns, c ∈ columns.map Prod.fst := by
  have hunknown : unknownNames ((ascendingBy Prod.fst columns).map Prod.fst) (primaryKey ++ indexes.flatMap Index.columns) =
      [] ↔ ∀ c ∈ primaryKey ++ indexes.flatMap Index.columns, c ∈ columns.map Prod.fst := by
    simp only [unknownNames, List.filter_eq_nil_iff, Bool.not_eq_true, Bool.not_eq_false', List.contains_iff_mem,
      mem_map_ascendingBy]
  rw [← hunknown]
  unfold make
  simp only
  split
  · rename_i hnone
    exact iff_of_true ⟨_, rfl⟩ hnone
  · rename_i hsome
    exact iff_of_false (fun h => by cases h.choose_spec) hsome

/-- What is sorted to the columns and the indexes of a definition is put together to it. -/
theorem make_of_sorted {table : TableDefinition} {columns : List (String × Column)} {indexes : List Index}
    (hcolumns : ascendingBy Prod.fst columns = table.columns) (hindexes : sortIndexes indexes = table.indexes) :
    make table.name columns table.primaryKey indexes = .ok table := by
  have hknown : unknownNames (table.columns.map Prod.fst) (table.primaryKey ++ indexes.flatMap Index.columns) = [] := by
    apply List.filter_eq_nil_iff.2
    intro name hname
    have hmem : name ∈ table.columns.map Prod.fst := by
      rcases List.mem_append.1 hname with hname | hname
      · exact table.key_known name hname
      · obtain ⟨i, hi, hname⟩ := List.mem_flatMap.1 hname
        refine table.indexes_known i ?_ name hname
        rw [← hindexes]
        exact (List.mergeSort_perm indexes _).mem_iff.2 hi
    simpa using hmem
  unfold make
  simp only [hcolumns, hindexes, dif_pos hknown]

variable (table : TableDefinition)

/-! ## Unknown columns -/

theorem mem_unknownColumns {names : List String} {n : String} :
    n ∈ table.unknownColumns names ↔ n ∈ names ∧ n ∉ table.columnNames := by
  simp [unknownColumns, mem_ascending, unknownNames]

theorem pairwise_unknownColumns (names : List String) : (table.unknownColumns names).Pairwise (· < ·) :=
  pairwise_ascendingBy id _

/-- Names are let through if all of them are columns. -/
theorem validate_ok {names : List String} : table.validate names = .ok () ↔ ∀ n ∈ names, n ∈ table.columnNames := by
  have hnone : (∀ n ∈ names, n ∈ table.columnNames) ↔ table.unknownColumns names = [] := by
    simp only [List.eq_nil_iff_forall_not_mem, mem_unknownColumns, not_and, Decidable.not_not]
  rw [hnone]
  unfold validate
  split
  · rename_i hnil
    exact iff_of_true rfl hnil
  · rename_i hcons
    exact iff_of_false (fun h => by cases h) hcons

/-- One name that is no column is enough to refuse all. -/
theorem validate_error {names : List String} {n : String} (hname : n ∈ names) (hunknown : n ∉ table.columnNames) :
    table.validate names = .error (.invalidColumns (table.unknownColumns names)) := by
  have hmem : n ∈ table.unknownColumns names := table.mem_unknownColumns.2 ⟨hname, hunknown⟩
  unfold validate
  split
  · rename_i hnil
    rw [hnil] at hmem
    cases hmem
  · rfl

/-! ## Columns -/

theorem nodup_columnNames : table.columnNames.Nodup := by
  -- The columns of a table ascend strictly, which is part of what a table is.
  have hsorted : table.columnNames.Pairwise (· < ·) := List.pairwise_map.2 table.columns_ascending
  refine hsorted.imp ?_
  rintro a b hlt rfl
  exact String.lt_irrefl a hlt

theorem column?_eq_some {name : String} {column : Column} :
    table.column? name = some column ↔ (name, column) ∈ table.columns := by
  constructor
  · intro h
    obtain ⟨before, after, hcolumns, _⟩ := List.lookup_eq_some_iff.1 h
    rw [hcolumns]
    simp
  · exact lookup_of_mem table.nodup_columnNames

theorem mem_nullableColumns {name : String} :
    name ∈ table.nullableColumns ↔ ∃ column, table.column? name = some column ∧ column.nullable = true := by
  unfold nullableColumns
  constructor
  · intro h
    obtain ⟨⟨n, column⟩, hmem, rfl⟩ := List.mem_map.1 h
    obtain ⟨hcolumn, hnullable⟩ := List.mem_filter.1 hmem
    exact ⟨column, table.column?_eq_some.2 hcolumn, hnullable⟩
  · rintro ⟨column, hcolumn, hnullable⟩
    exact List.mem_map.2 ⟨(name, column), List.mem_filter.2 ⟨table.column?_eq_some.1 hcolumn, hnullable⟩, rfl⟩

end TableDefinition

end RecordTables
