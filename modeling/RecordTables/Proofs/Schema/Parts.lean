import RecordTables.Proofs.Schema.Sorting
import RecordTables.Proofs.Text.ByteOrder

/-!
# What definitions are put together from

A definition is refused exactly if its key or an index names a column that is not given, and the refusal lists these
names.  One that is accepted has of each column what was given last, its key as given, and its indexes sorted by name.
-/

namespace RecordTables

/-! ## Lists of names -/

/-- Exactly the names with a property, each once, in the order of their bytes. -/
structure Lists (names : List String) (property : String → Prop) : Prop where
  ascending : names.Pairwise BytesBefore
  mem_iff : ∀ n, n ∈ names ↔ property n

theorem Lists.congr {names : List String} {p q : String → Prop} (h : Lists names p) (hpq : ∀ n, p n ↔ q n) :
    Lists names q :=
  ⟨h.ascending, fun n => (h.mem_iff n).trans (hpq n)⟩

theorem lists_ascending (names : List String) : Lists (ascending names) (· ∈ names) where
  ascending := (pairwise_ascendingBy id names).imp bytesBefore_of_lt
  mem_iff _ := mem_ascending

/-- There is one list of the names with a property. -/
theorem Lists.unique {names names' : List String} {property : String → Prop} (h : Lists names property)
    (h' : Lists names' property) : names = names' :=
  @eq_of_ascending _ id _ _ (h.ascending.imp bytesBefore_iff.1) (h'.ascending.imp bytesBefore_iff.1) fun n =>
    (h.mem_iff n).trans (h'.mem_iff n).symm

/-! ## Columns under a name -/

variable {β : Type}

theorem lookup_cons_eq (entry : String × β) (entries : List (String × β)) (name : String) :
    (entry :: entries).lookup name = if name = entry.1 then some entry.2 else entries.lookup name := by
  by_cases h : name = entry.1
  · rw [List.lookup_cons, beq_iff_eq.2 h, if_pos h]
  · rw [List.lookup_cons, beq_eq_false_iff_ne.2 h, if_neg h]

theorem lookup_insertBy (entry : String × β) (entries : List (String × β)) (name : String) :
    (insertBy Prod.fst entry entries).lookup name = if name = entry.1 then some entry.2 else entries.lookup name := by
  induction entries with
  | nil => rw [insertBy, lookup_cons_eq]
  | cons first rest ih =>
      unfold insertBy
      split
      · rw [lookup_cons_eq]
      · split
        · rename_i hsame
          rw [lookup_cons_eq, lookup_cons_eq, ← hsame]
          split <;> rfl
        · rename_i hne
          rw [lookup_cons_eq, lookup_cons_eq, ih]
          by_cases hfirst : name = first.1
          · rw [if_pos hfirst, if_pos hfirst, if_neg fun h => hne (h.symm.trans hfirst)]
          · rw [if_neg hfirst, if_neg hfirst]

/-- Of the entries under one name the last is kept. -/
theorem lookup_ascendingBy (entries : List (String × β)) (name : String) :
    (ascendingBy Prod.fst entries).lookup name = entries.reverse.lookup name := by
  suffices hfold : ∀ acc : List (String × β),
      (entries.foldl (fun acc e => insertBy Prod.fst e acc) acc).lookup name =
        (entries.reverse.lookup name).or (acc.lookup name) by
    rw [ascendingBy, hfold [], List.lookup_nil, Option.or_none]
  induction entries with
  | nil => exact fun _ => rfl
  | cons entry rest ih =>
      intro acc
      rw [List.foldl_cons, ih, lookup_insertBy, List.reverse_cons, List.lookup_append, Option.or_assoc, lookup_cons_eq]
      split <;> rfl

/-! ## Parts -/

/-- What a definition is put together from. -/
structure TableParts where
  name : String
  columns : List (String × Column)
  primaryKey : List String
  indexes : List Index

/-- Indexes sorted by the bytes of their names; those of one name are in the order in which they are given. -/
structure SortedIndexes (sorted given : List Index) : Prop where
  perm : sorted.Perm given
  ascending : sorted.Pairwise fun a b => ¬ BytesBefore b.name a.name
  stable : ∀ n, sorted.filter (fun i => i.name = n) = given.filter fun i => i.name = n

theorem sortedIndexes_sortIndexes (indexes : List Index) : SortedIndexes (sortIndexes indexes) indexes where
  perm := List.mergeSort_perm ..
  ascending := (pairwise_sortIndexes indexes).imp fun hle h => String.not_lt.2 hle (bytesBefore_iff.1 h)
  stable := filter_sortBy indexes

namespace TableParts

variable (parts : TableParts)

/-- The definition, if it is accepted. -/
def definition : Outcome TableDefinition :=
  TableDefinition.make parts.name parts.columns parts.primaryKey parts.indexes

/-- The column that is given under a name; of several the last. -/
def column? (name : String) : Option Column := parts.columns.reverse.lookup name

/-- A name that the key or an index uses, and that is given to no column. -/
def Missing (name : String) : Prop :=
  (name ∈ parts.primaryKey ∨ ∃ i ∈ parts.indexes, name ∈ i.columns) ∧ name ∉ parts.columns.map Prod.fst

/-- The definition that is put together from parts. -/
structure Makes (table : TableDefinition) : Prop where
  name : table.name = parts.name
  columns : ∀ n, table.column? n = parts.column? n
  primaryKey : table.primaryKey = parts.primaryKey
  indexes : SortedIndexes table.indexes parts.indexes
  keyKnown : ∀ c ∈ table.primaryKey, (table.column? c).isSome
  indexesKnown : ∀ i ∈ table.indexes, ∀ c ∈ i.columns, (table.column? c).isSome

end TableParts

namespace TableDefinition

variable (table : TableDefinition)

theorem column?_isSome {name : String} : (table.column? name).isSome ↔ name ∈ table.columnNames := by
  rw [Option.isSome_iff_exists, columnNames, List.mem_map]
  constructor
  · rintro ⟨column, h⟩
    exact ⟨(name, column), table.column?_eq_some.1 h, rfl⟩
  · rintro ⟨⟨n, column⟩, h, rfl⟩
    exact ⟨column, table.column?_eq_some.2 h⟩

theorem column?_eq_none {name : String} : table.column? name = none ↔ name ∉ table.columnNames := by
  rw [← column?_isSome, Option.not_isSome_iff_eq_none]

theorem lists_unknownColumns (names : List String) :
    Lists (table.unknownColumns names) fun n => n ∈ names ∧ table.column? n = none :=
  (lists_ascending _).congr fun n => by
    rw [column?_eq_none, unknownNames, List.mem_filter, Bool.not_eq_true', List.contains_eq_mem,
      decide_eq_false_iff_not]

end TableDefinition

namespace TableParts

variable {parts : TableParts}

theorem lists_missing : Lists (ascending (unknownNames ((ascendingBy Prod.fst parts.columns).map Prod.fst)
    (parts.primaryKey ++ parts.indexes.flatMap Index.columns))) parts.Missing :=
  (lists_ascending _).congr fun n => by
    rw [Missing, unknownNames, List.mem_filter, Bool.not_eq_true', List.contains_eq_mem, decide_eq_false_iff_not,
      mem_map_ascendingBy, List.mem_append, List.mem_flatMap]

theorem makes_of_definition {table : TableDefinition} (h : parts.definition = .ok table) : parts.Makes table := by
  obtain ⟨hname, hcolumns, hkey, hindexes⟩ := TableDefinition.of_make h
  refine ⟨hname, fun n => ?_, hkey, hindexes ▸ sortedIndexes_sortIndexes _, ?_, ?_⟩
  · rw [TableDefinition.column?, hcolumns, lookup_ascendingBy, column?]
  · exact fun c hc => table.column?_isSome.2 (table.key_known c hc)
  · exact fun i hi c hc => table.column?_isSome.2 (table.indexes_known i hi c hc)

/-- Refused are parts in which a name is missing, and the refusal lists what is missing. -/
theorem of_definition_error {e : Error} (h : parts.definition = .error e) :
    (∃ n, parts.Missing n) ∧ ∃ names, e = .invalidColumns names ∧ Lists names parts.Missing := by
  unfold definition TableDefinition.make at h
  simp only at h
  split at h
  · cases h
  · rename_i hsome
    cases h
    refine ⟨?_, _, rfl, lists_missing⟩
    obtain ⟨n, hn⟩ := List.exists_mem_of_ne_nil _ hsome
    exact ⟨n, (lists_missing.mem_iff n).1 (mem_ascending.2 hn)⟩

/-- Of a table with a single column, names are missing that the key and an index use. -/
example : TableParts.definition ⟨"notes", [("id", ⟨.integer, false⟩)], ["title", "id", "author"],
    [⟨"by title", ["title"], false⟩]⟩ = .error (.invalidColumns ["author", "title"]) := by
  rfl

theorem definition_isOk_iff_complete : (∃ table, parts.definition = .ok table) ↔ ¬ ∃ n, parts.Missing n := by
  rw [definition, TableDefinition.make_isOk]
  simp only [Missing, List.mem_append, List.mem_flatMap, not_exists, not_and, Decidable.not_not]

/-- Parts are refused exactly if a name is missing, and then all that are missing are told; from any others a definition
is made that has their columns, key and indexes.  Of a list of names, a definition tells those that are no columns of
it, whatever their order and number. -/
theorem definition_checks (parts : TableParts) :
    ((∃ e, parts.definition = .error e) ↔ ∃ n, parts.Missing n) ∧
    (∀ e, parts.definition = .error e → ∃ names, e = .invalidColumns names ∧ Lists names parts.Missing) ∧
    (∀ table, parts.definition = .ok table → parts.Makes table) ∧
    ∀ (table : TableDefinition) (names : List String),
      Lists (table.unknownColumns names) (fun n => n ∈ names ∧ table.column? n = none) ∧
      ∀ names' : List String, (∀ n, n ∈ names' ↔ n ∈ names) →
        table.unknownColumns names' = table.unknownColumns names := by
  refine ⟨⟨?_, fun hmissing => ?_⟩, fun e h => (of_definition_error h).2, fun table h => makes_of_definition h,
    fun table names => ⟨table.lists_unknownColumns names, fun names' hsame => ?_⟩⟩
  · rintro ⟨e, h⟩
    exact (of_definition_error h).1
  · cases h : parts.definition with
    | error e => exact ⟨e, rfl⟩
    | ok table => exact absurd hmissing (definition_isOk_iff_complete.1 ⟨table, h⟩)
  · exact (table.lists_unknownColumns names').unique
      ((table.lists_unknownColumns names).congr fun n => and_congr_left fun _ => (hsame n).symm)

end TableParts

end RecordTables
