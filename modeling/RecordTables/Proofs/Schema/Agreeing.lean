import RecordTables.Proofs.Schema.Parts

/-!
# Definitions that agree

Definitions agree if they differ at most in the order of the key.  In terms of the parts that they were put together
from, neither the order of the key nor that of the indexes matters, while that of the columns in an index does.
-/

namespace RecordTables

namespace TableDefinition

variable {a b : TableDefinition}

/-- Definitions agree if they are equal up to the order of the key. -/
theorem agrees_iff : a.agrees b = true ↔
    a.name = b.name ∧ a.columns = b.columns ∧ a.indexes = b.indexes ∧ a.primaryKey.Perm b.primaryKey := by
  have hkey : sortBy id a.primaryKey = sortBy id b.primaryKey ↔ a.primaryKey.Perm b.primaryKey :=
    sortBy_eq_iff_perm fun _ _ _ _ h => h
  rw [← hkey]
  simp only [agrees, Bool.and_eq_true, beq_iff_eq, and_assoc]
  rfl

theorem agrees_self (table : TableDefinition) : table.agrees table = true := agrees_iff.2 ⟨rfl, rfl, rfl, .refl _⟩

theorem agrees_symm (h : a.agrees b = true) : b.agrees a = true := by
  obtain ⟨hname, hcolumns, hindexes, hkey⟩ := agrees_iff.1 h
  exact agrees_iff.2 ⟨hname.symm, hcolumns.symm, hindexes.symm, hkey.symm⟩

theorem agrees_trans {c : TableDefinition} (h : a.agrees b = true) (h' : b.agrees c = true) : a.agrees c = true := by
  obtain ⟨hname, hcolumns, hindexes, hkey⟩ := agrees_iff.1 h
  obtain ⟨hname', hcolumns', hindexes', hkey'⟩ := agrees_iff.1 h'
  exact agrees_iff.2 ⟨hname.trans hname', hcolumns.trans hcolumns', hindexes.trans hindexes', hkey.trans hkey'⟩

/-- Columns are equal if they are equal under each name. -/
theorem columns_eq_iff : a.columns = b.columns ↔ ∀ n, a.column? n = b.column? n := by
  refine ⟨fun h n => by rw [column?, column?, h], fun h => ?_⟩
  refine eq_of_ascending a.columns_ascending b.columns_ascending ?_
  rintro ⟨n, column⟩
  rw [← column?_eq_some, ← column?_eq_some, h]

end TableDefinition

/-- Indexes with distinct names are sorted in one way only. -/
theorem sortIndexes_eq_iff_perm {indexes indexes' : List Index} (h : (indexes.map Index.name).Nodup) :
    sortIndexes indexes = sortIndexes indexes' ↔ indexes.Perm indexes' :=
  sortBy_eq_iff_perm (key_inj h)

namespace TableParts

/-- Parts that are the same but for the order of the key and of the indexes. -/
structure Same (p q : TableParts) : Prop where
  name : p.name = q.name
  columns : ∀ n, p.column? n = q.column? n
  primaryKey : p.primaryKey.Perm q.primaryKey
  indexes : p.indexes.Perm q.indexes

/-- Definitions that were put together from parts, of which one has indexes with distinct names, agree exactly if the
parts are the same but for the order of the key and of the indexes; and agreement is an equivalence of definitions. -/
theorem agrees_iff_same :
    (∀ (p q : TableParts) (a b : TableDefinition), p.definition = .ok a → q.definition = .ok b →
      (p.indexes.map Index.name).Nodup → (a.agrees b = true ↔ p.Same q)) ∧
    Equivalence fun a b : TableDefinition => a.agrees b = true := by
  refine ⟨fun p q a b ha hb hdistinct => ?_, TableDefinition.agrees_self, TableDefinition.agrees_symm,
    TableDefinition.agrees_trans⟩
  obtain ⟨hname, -, hkey, hindexes⟩ := TableDefinition.of_make ha
  obtain ⟨hname', -, hkey', hindexes'⟩ := TableDefinition.of_make hb
  have hcolumns : a.columns = b.columns ↔ ∀ n, p.column? n = q.column? n := by
    rw [TableDefinition.columns_eq_iff]
    exact forall_congr' fun n => by rw [(makes_of_definition ha).columns, (makes_of_definition hb).columns]
  rw [TableDefinition.agrees_iff, hcolumns, hname, hname', hkey, hkey', hindexes, hindexes',
    sortIndexes_eq_iff_perm hdistinct]
  constructor
  · rintro ⟨hname, hcolumns, hindexes, hkey⟩
    exact ⟨hname, hcolumns, hkey, hindexes⟩
  · intro h
    exact ⟨h.name, h.columns, h.indexes, h.primaryKey⟩

/-- Books that are lent, and when they are due. -/
def loans : TableParts where
  name := "loans"
  columns := [("book", ⟨.text, false⟩), ("member", ⟨.integer, false⟩), ("due", ⟨.integer, true⟩)]
  primaryKey := ["member", "book"]
  indexes := [⟨"by due", ["due", "member"], false⟩, ⟨"by book", ["book"], true⟩]

/-- The same with key and indexes the other way round, and with a column that is given twice. -/
def loansReordered : TableParts where
  name := "loans"
  columns :=
    [("due", ⟨.text, false⟩), ("member", ⟨.integer, false⟩), ("book", ⟨.text, false⟩), ("due", ⟨.integer, true⟩)]
  primaryKey := ["book", "member"]
  indexes := [⟨"by book", ["book"], true⟩, ⟨"by due", ["due", "member"], false⟩]

/-- With the columns of an index the other way round. -/
def loansReindexed : TableParts :=
  { loans with indexes := [⟨"by due", ["member", "due"], false⟩, ⟨"by book", ["book"], true⟩] }

theorem same_loansReordered : loans.Same loansReordered where
  name := rfl
  columns n := by
    have hsorted : ascendingBy Prod.fst loans.columns = ascendingBy Prod.fst loansReordered.columns := by decide +kernel
    rw [column?, ← lookup_ascendingBy, hsorted, lookup_ascendingBy, column?]
  primaryKey := by decide
  indexes := by decide

theorem agrees_iff_same_loans : ∃ a b c, loans.definition = .ok a ∧ loansReordered.definition = .ok b ∧
    loansReindexed.definition = .ok c ∧ a.agrees b = true ∧ a.agrees c = false := by
  obtain ⟨a, ha⟩ : ∃ a, loans.definition = .ok a := TableDefinition.make_isOk.2 (by decide)
  obtain ⟨b, hb⟩ : ∃ b, loansReordered.definition = .ok b := TableDefinition.make_isOk.2 (by decide)
  obtain ⟨c, hc⟩ : ∃ c, loansReindexed.definition = .ok c := TableDefinition.make_isOk.2 (by decide)
  have hdistinct : (loans.indexes.map Index.name).Nodup := by decide
  have hnot : ¬ loans.Same loansReindexed := fun h => absurd h.indexes (by decide)
  exact ⟨a, b, c, ha, hb, hc, (agrees_iff_same.1 _ _ a b ha hb hdistinct).2 same_loansReordered,
    Bool.eq_false_iff.2 fun h => hnot ((agrees_iff_same.1 _ _ a c ha hc hdistinct).1 h)⟩

end TableParts

end RecordTables
