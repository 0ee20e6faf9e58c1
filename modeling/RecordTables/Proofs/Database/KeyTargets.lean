import RecordTables.Proofs.Database.RecordKeys
import RecordTables.Proofs.Sql.Filters

/-!
# Rows found by the key of a record

An update and a deletion of a record look for its row by the key, each with a condition that it puts together itself.
`KeyStep` says what they hand to the engine: one clause with the same parameters, which holds of the rows that have the
key of the record.
-/

namespace RecordTables

open Session (perform perform_liftM_bind)
open Sql (Predicate Statement quote commaList ReadsDisjunction conditionTokens)
open Engine (Affinity)
open Engine.Token (ofChars)

/-! ## Conditions on stored rows -/

/-- A stored row, by the names of its columns. -/
structure StoredRow where
  affinity : String → Affinity
  cell : String → StoredValue

namespace StoredRow

variable (stored : StoredRow)

/-- The comparison of a column with a value. -/
def compare (relation : Engine.Relation) (column : String) (v : Value) : Option Bool :=
  Engine.compareValues relation (stored.affinity column) (stored.cell column) v.bound

/-- The truth of a test.  A pattern that the engine refuses is not matched. -/
def test : Predicate → Option Bool
  | .isNull column => some (stored.cell column == .null)
  | .isIn column values => Engine.memberOf (stored.cell column) (values.map fun v => (v.bound, stored.affinity column))
  | .compare column .eq v => stored.compare .equal column v
  | .compare column .ne v => stored.compare .notEqual column v
  | .compare column .lt v => stored.compare .less column v
  | .compare column .le v => stored.compare .lessEqual column v
  | .compare column .gt v => stored.compare .greater column v
  | .compare column .ge v => stored.compare .greaterEqual column v
  | .compare column .like v => (Engine.likeValues (stored.cell column) v.bound).toOption.join
  | _ => none

/-- A condition holds of a row if it is true with the truth of its tests there; unknown is not enough. -/
def Satisfies (p : Predicate) : Prop := p.truth (fun k => (p.leaves[k]?).bind stored.test) 0 = some true

/-- The condition of a statement, as its text is read, holds of a row. -/
def Selected (s : Statement) (values : List Value) : Prop :=
  ∃ p, ReadsDisjunction (conditionTokens (ofChars s.text.toList)) values p ∧ stored.Satisfies p

/-- A column equals a value, or both are NULL. -/
def AgreesAt (column : String) (v : Value) : Prop :=
  stored.cell column = .null ∧ v = .null ∨ stored.compare .equal column v = some true

/-- A row has a key if all its columns agree with the values of a record. -/
def HasKey (key : List String) (row : Row) : Prop := ∀ c ∈ key, stored.AgreesAt c ((row.get? c).getD .null)

variable {stored}

/-- Trees of the same tests with the same truth hold of the same rows. -/
theorem satisfies_congr {p q : Predicate} (hleaves : q.leaves = p.leaves)
    (htruth : ∀ leaf : Nat → Option Bool, q.truth leaf 0 = p.truth leaf 0) :
    stored.Satisfies q ↔ stored.Satisfies p := by
  unfold Satisfies
  rw [hleaves, htruth]

/-- The condition of a statement is read in one way, so it holds if that reading does. -/
theorem selected_iff {s : Statement} {values : List Value} {p : Predicate}
    (hp : ReadsDisjunction (conditionTokens (ofChars s.text.toList)) values p) :
    stored.Selected s values ↔ stored.Satisfies p := by
  constructor
  · rintro ⟨q, hq, h⟩
    rwa [hp.unique hq]
  · exact fun h => ⟨p, hp, h⟩

end StoredRow

/-! ## Conjunctions of tests -/

namespace Sql.Predicate

/-- A condition without operators. -/
structure IsTest (p : Predicate) : Prop where
  leaves : p.leaves = [p]
  truth (leaf : Nat → Option Bool) (k : Nat) : p.truth leaf k = leaf k
  hasOr : p.hasOr = false
  respects : p.respectsPrecedence = true

theorem isTest_keyTerm (column : String) (value : Option Value) : (Session.keyTerm column value).IsTest := by
  unfold Session.keyTerm
  split
  · split <;> exact ⟨rfl, fun _ _ => rfl, rfl, rfl⟩
  · exact ⟨rfl, fun _ _ => rfl, rfl, rfl⟩

theorem flatMap_leaves {ps : List Predicate} (h : ∀ p ∈ ps, p.IsTest) : ps.flatMap Predicate.leaves = ps := by
  induction ps with
  | nil => rfl
  | cons p rest ih =>
      rw [List.forall_mem_cons] at h
      rw [List.flatMap_cons, h.1.leaves, ih h.2]
      rfl

/-- Tests are all true if each is, where it stands. -/
theorem allTrue_tests {ps : List Predicate} (h : ∀ p ∈ ps, p.IsTest) (leaf : Nat → Option Bool) (first : Nat) :
    AllTrue leaf ps first ↔ ∀ k, k < ps.length → leaf (first + k) = some true := by
  induction ps generalizing first with
  | nil => simp [AllTrue]
  | cons p rest ih =>
      rw [List.forall_mem_cons] at h
      rw [AllTrue, h.1.truth, h.1.leaves, List.length_singleton, ih h.2]
      constructor
      · rintro ⟨hfirst, hrest⟩ k hk
        cases k with
        | zero => exact hfirst
        | succ k =>
            have hnext := hrest k (Nat.lt_of_succ_lt_succ hk)
            rwa [Nat.add_assoc, Nat.add_comm 1 k] at hnext
      · intro hall
        refine ⟨hall 0 (Nat.zero_lt_succ _), fun k hk => ?_⟩
        rw [Nat.add_assoc, Nat.add_comm 1 k]
        exact hall (k + 1) (Nat.succ_lt_succ hk)

/-- A conjunction of tests holds of the rows on which all of them are true. -/
theorem satisfies_foldl_and {stored : StoredRow} {p : Predicate} {ps : List Predicate} (h : ∀ r ∈ p :: ps, r.IsTest) :
    stored.Satisfies (ps.foldl .and p) ↔ ∀ r ∈ p :: ps, stored.test r = some true := by
  have hleaves : (ps.foldl Predicate.and p).leaves = p :: ps := by
    rw [leaves_foldl_and, ← List.flatMap_cons, flatMap_leaves h]
  rw [StoredRow.Satisfies, truth_foldl_and, allTrue_tests h, hleaves, List.forall_mem_iff_getElem]
  refine forall₂_congr fun k hk => ?_
  rw [Nat.zero_add, List.getElem?_eq_getElem hk]
  rfl

end Sql.Predicate

/-! ## The clause on a key -/

namespace Row

variable (row : Row) (key : List String)

/-- The value under a column of the key, if there is one and it is not NULL. -/
def key? (column : String) : Option Value := (row.get? column).filter fun v => !v.isNull

/-- The clause that looks for a key: one term for each of its columns, in their order. -/
def keyText : String :=
  String.intercalate " AND " (key.map fun c => quote c ++ if (row.key? c).isSome then " = ?" else " IS NULL")

/-- The parameters of the clause. -/
def keyParams : List Value := key.filterMap row.key?

/-- The entries beside the key, in their order. -/
def beside : List (String × Value) := row.entries.filter fun e => decide (e.1 ∉ key)

end Row

namespace TableDefinition

variable (table : TableDefinition) (row : Row)

/-- Assigns all of a row beside the key to the row with the key. -/
def updateByKey : Statement where
  text := "UPDATE " ++ quote table.name ++ " SET " ++
    commaList ((row.beside table.primaryKey).map fun e => quote e.1 ++ " = ?") ++ " WHERE " ++
    row.keyText table.primaryKey
  params := (row.beside table.primaryKey).map Prod.snd ++ row.keyParams table.primaryKey

/-- Deletes the row with the key. -/
def deleteByKey : Statement where
  text := "DELETE FROM " ++ quote table.name ++ " WHERE " ++ row.keyText table.primaryKey
  params := row.keyParams table.primaryKey

end TableDefinition

namespace Session

variable {row : Row}

/-- A term of the key is an equality with the value of the row, or asks for NULL if there is none. -/
theorem keyTerm_get? (column : String) :
    keyTerm column (row.get? column) = ((row.key? column).map (Predicate.eq column)).getD (.isNull column) := by
  unfold keyTerm Row.key?
  cases row.get? column with
  | none => rfl
  | some v => cases h : v.isNull <;> simp [Option.filter_some, h]

theorem text_keyTerm (column : String) : (keyTerm column (row.get? column)).text =
    quote column ++ if (row.key? column).isSome then " = ?" else " IS NULL" := by
  rw [keyTerm_get?]
  cases row.key? column with
  | none => rfl
  | some v => simp [Predicate.eq, Predicate.text, Sql.Comparison.sign, String.append_assoc]

theorem params_keyTerm (column : String) : (keyTerm column (row.get? column)).params = (row.key? column).toList := by
  rw [keyTerm_get?]
  cases row.key? column <;> rfl

/-- A term of the key holds of the rows that agree with the record in its column. -/
theorem test_keyTerm {stored : StoredRow} (column : String) :
    stored.test (keyTerm column (row.get? column)) = some true ↔
      stored.AgreesAt column ((row.get? column).getD .null) := by
  have hnull : ∀ v : Value, v.isNull = true ↔ v = .null := fun v => by
    cases v <;> simp [Value.isNull, Value.columnType?]
  have hequal : stored.compare .equal column .null ≠ some true := by
    simp [StoredRow.compare, Engine.compareValues, Value.bound, Value.toStored]
  unfold keyTerm StoredRow.AgreesAt
  cases row.get? column with
  | none => simp [StoredRow.test, hequal]
  | some v =>
      by_cases hv : v = .null
      · subst hv
        simp [StoredRow.test, hequal, Value.isNull, Value.columnType?]
      · have hpresent : v.isNull = false := Bool.eq_false_iff.2 fun h => hv ((hnull v).1 h)
        simp [hpresent, hv, Predicate.eq, StoredRow.test]

/-- The conjunction of the terms of a key. -/
theorem keyPredicate_terms {table : TableDefinition} {column : String} {rest : List String}
    (hkey : table.primaryKey = column :: rest) (value : String → Option Value) :
    keyPredicate table (table.primaryKey.map fun c => keyTerm c (value c)) =
      .ok ((rest.map fun c => keyTerm c (value c)).foldl .and (keyTerm column (value column))) := by
  rw [hkey]
  rfl

end Session

/-- The condition on the key of a record: its text and its values are those of the clause, and it holds of the rows that
have the key. -/
structure KeyCondition (table : TableDefinition) (row : Row) (p : Predicate) : Prop where
  decided : Session.keyPredicate table (table.primaryKey.map fun c => Session.keyTerm c (row.get? c)) = .ok p
  columns : p.columns = table.primaryKey
  text : p.text = row.keyText table.primaryKey
  params : p.params = row.keyParams table.primaryKey
  respects : p.respectsPrecedence = true
  holds (stored : StoredRow) : stored.Satisfies p ↔ stored.HasKey table.primaryKey row

theorem exists_keyCondition {table : TableDefinition} (row : Row) (hkey : table.primaryKey ≠ []) :
    ∃ p, KeyCondition table row p := by
  obtain ⟨p, hp, hcolumns⟩ := RecordStep.keyPredicate_ok hkey
    (RecordStep.flatMap_columns_keyTerm table.primaryKey fun c => row.get? c)
  obtain ⟨column, rest, hcons⟩ := List.exists_cons_of_ne_nil hkey
  obtain rfl := Except.ok.inj (hp.symm.trans (Session.keyPredicate_terms hcons fun c => row.get? c))
  have hterms : Session.keyTerm column (row.get? column) :: rest.map (fun c => Session.keyTerm c (row.get? c)) =
      table.primaryKey.map fun c => Session.keyTerm c (row.get? c) := by
    rw [hcons]
    rfl
  have htests : ∀ r ∈ table.primaryKey.map fun c => Session.keyTerm c (row.get? c), r.IsTest := by
    intro r hr
    obtain ⟨c, -, rfl⟩ := List.mem_map.1 hr
    exact Predicate.isTest_keyTerm c _
  refine ⟨_, hp, hcolumns, ?_, ?_, ?_, fun stored => ?_⟩
  · rw [Predicate.text_foldl_and, hterms, List.map_map]
    exact congrArg _ (List.map_congr_left fun c _ => Session.text_keyTerm c)
  · rw [Engine.params_foldl_and, ← List.flatMap_cons, hterms, List.flatMap_map, Row.keyParams,
      List.filterMap_eq_flatMap_toList]
    exact List.flatMap_congr fun c _ => Session.params_keyTerm c
  · rw [← hterms, List.forall_mem_cons] at htests
    exact Predicate.respectsPrecedence_foldl_and _ htests.1.respects (fun r hr => (htests.2 r hr).respects)
      htests.1.hasOr fun r hr => (htests.2 r hr).hasOr
  · rw [Predicate.satisfies_foldl_and (hterms ▸ htests), hterms, List.forall_mem_map]
    exact forall₂_congr fun c _ => Session.test_keyTerm c

/-! ## The statements -/

namespace Sql

theorem conditionTokens_update {table : String} {values : Row} {p : Predicate} {s : Statement}
    (h : Statement.update? table values (some p) = some s) : conditionTokens (ofChars s.text.toList) = p.tokens := by
  rw [Statement.ofChars_update h, Command.parts, List.map_cons, List.map_cons, List.map_cons, List.map_append,
    ← List.cons_append, ← List.cons_append, ← List.cons_append, ← List.append_nil (List.map _ (whereParts _))]
  apply conditionTokens_append
  · simp only [List.forall_mem_cons]
    exact ⟨rfl, rfl, rfl, Command.not_isOneOf_assignments values.names⟩
  · simp

theorem conditionTokens_delete (table : String) (p : Predicate) :
    conditionTokens (ofChars (Statement.delete table (some p)).text.toList) = p.tokens := by
  rw [Statement.ofChars_delete, Command.parts, List.map_cons, List.map_cons, List.map_cons,
    ← List.append_nil (List.map _ (whereParts _))]
  apply @conditionTokens_append [_, _, _] []
  · simp only [List.forall_mem_cons]
    exact ⟨rfl, rfl, rfl, List.forall_mem_nil _⟩
  · simp

end Sql

namespace KeyCondition

variable {table : TableDefinition} {row : Row} {p : Predicate}

/-- Read by the precedence of the operators, the condition of a statement holds of the rows that have the key. -/
theorem selected_iff (h : KeyCondition table row p) {s : Statement} (stored : StoredRow)
    (hs : conditionTokens (ofChars s.text.toList) = p.tokens) :
    stored.Selected s (row.keyParams table.primaryKey) ↔ stored.HasKey table.primaryKey row := by
  obtain ⟨q, hq, hleaves, htruth⟩ := Sql.readsDisjunction_tokens h.respects
  rw [← hs, h.params] at hq
  rw [StoredRow.selected_iff hq, StoredRow.satisfies_congr hleaves fun leaf => htruth leaf 0, h.holds]

theorem delete_eq (h : KeyCondition table row p) : Statement.delete table.name (some p) = table.deleteByKey row := by
  unfold Statement.delete TableDefinition.deleteByKey
  rw [Sql.whereText, h.text, Sql.whereParams, Option.map_some, Option.getD_some, h.params, ← String.append_assoc]

/-- What is left of a row without its key is assigned, entry by entry. -/
theorem update?_eq (h : KeyCondition table row p) (hbeside : row.beside table.primaryKey ≠ []) :
    Statement.update? table.name (Session.takeKey table.primaryKey row).2 (some p) = some (table.updateByKey row) := by
  have hentries : (Session.takeKey table.primaryKey row).2.entries = row.beside table.primaryKey :=
    Session.entries_takeKey table.primaryKey row
  have hfull : (Session.takeKey table.primaryKey row).2.isEmpty = false := by
    rw [Row.isEmpty, hentries]
    exact List.isEmpty_eq_false_iff.2 hbeside
  rw [Statement.update?, hfull, if_neg (by decide), Row.names, Row.values, hentries, List.map_map, Sql.whereText,
    h.text,
    Sql.whereParams, Option.map_some, Option.getD_some, h.params, ← String.append_assoc]
  rfl

end KeyCondition

namespace Session

variable {registry : Registry} {type : RecordType} {table : TableDefinition} {record : Datum} {row : Row}
  {p : Predicate}

/-- A statement that is executed is noted once. -/
theorem issued_execute {db : Database} {c : Engine.Connection} (hlive : db.live = .ok c) (s : Statement) :
    (perform (execute s) db).2.issued = db.issued ++ [⟨.exec, s.text, s.params.length⟩] := by
  unfold execute exec
  rw [perform_bind_snd fun _ _ => rfl]
  exact issued_run hlive

/-- A deletion of a record hands over the deletion by its key. -/
theorem perform_delete (hdefinition : type.definition registry = .ok table) (hrow : record.encodeWith table = .ok row)
    (h : KeyCondition table row p) (db : Database) :
    perform (delete registry type record) db = perform (execute (table.deleteByKey row)) db := by
  have hvalid : table.validate (filterColumns (some p)) = .ok () := by
    refine table.validate_ok.2 fun n hn => table.key_known n ?_
    rwa [← h.columns]
  rw [delete, definition, perform_liftM_bind hdefinition, perform_liftM_bind hrow, perform_liftM_bind h.decided,
    deleteWhere,
    definition, perform_liftM_bind hdefinition, perform_liftM_bind hvalid, h.delete_eq]

/-- An update of a record assigns what is beside its key to the row with the key; without anything beside the key there
is nothing to assign. -/
theorem perform_update (hdefinition : type.definition registry = .ok table) (hrow : record.encodeWith table = .ok row)
    (hkeys : table.primaryKey.Nodup) (h : KeyCondition table row p) (hknown : ∀ n ∈ row.names, n ∈ table.columnNames)
    (db : Database) :
    perform (update registry type record) db =
      if row.beside table.primaryKey = [] then (.ok 0, db) else perform (execute (table.updateByKey row)) db := by
  have hentries : (takeKey table.primaryKey row).2.entries = row.beside table.primaryKey :=
    entries_takeKey table.primaryKey row
  have hterms := h.decided
  rw [← fst_takeKey hkeys] at hterms
  rw [update, definition, perform_liftM_bind hdefinition, perform_liftM_bind hrow, perform_liftM_bind hterms,
    updateWhere,
    Row.isEmpty, hentries]
  by_cases hbeside : row.beside table.primaryKey = []
  · rw [if_pos hbeside, hbeside]
    rfl
  · have hvalid : table.validate ((takeKey table.primaryKey row).2.names ++ filterColumns (some p)) = .ok () := by
      refine table.validate_ok.2 fun n hn => ?_
      rcases List.mem_append.1 hn with hn | hn
      · rw [Row.names, hentries] at hn
        exact hknown n ((List.filter_sublist.map _).subset hn)
      · exact table.key_known n (by rwa [← h.columns])
    rw [if_neg hbeside, if_neg (by simpa using hbeside), definition, perform_liftM_bind hdefinition,
      perform_liftM_bind hvalid, h.update?_eq hbeside]

end Session

/-! ## Equal values -/

/-- Numbers are ordered. -/
theorem BinaryValue.exists_order? {v w : BinaryValue} (hv : v ≠ .nan) (hw : w ≠ .nan) : ∃ o, v.order? w = some o := by
  cases v with
  | nan => exact absurd rfl hv
  | infinite | finite =>
      cases w with
      | nan => exact absurd rfl hw
      | infinite | finite => exact ⟨_, rfl⟩

namespace StoredValue

/-- A value of the storage class of a column, or NULL.  A column of real numbers holds nothing that is no number. -/
def IsOf (t : ColumnType) : StoredValue → Prop
  | .null => True
  | .int _ => t = .integer
  | .real x => t = .real ∧ x.isNaN = false
  | .text _ => t = .text
  | .blob _ => t = .blob

/-- The same value; real numbers are compared as numbers. -/
def Same : StoredValue → StoredValue → Prop
  | .real x, .real y => x.same y = true
  | v, w => v = w

/-- A column finds values of its class equal if they are the same and not NULL. -/
theorem compareValues_equal_iff {t : ColumnType} {v w : StoredValue} (hv : v.IsOf t) (hw : w.IsOf t) :
    Engine.compareValues .equal (Affinity.ofDeclared t.keyword) v w = some true ↔ v ≠ .null ∧ v.Same w := by
  have hkeeps : ∀ {u : StoredValue}, u.IsOf t → u.isExact = true → (⟨t, true⟩ : Column).Keeps u := by
    intro u hu hexact
    cases u with
    | null | real => cases hexact
    | int | text | blob => exact hu
  cases v with
  | null => simp [Engine.compareValues]
  | real x =>
      cases w with
      | null => simp [Engine.compareValues, Same]
      | int | text | blob => cases hv.1.symm.trans hw
      | real y =>
          obtain ⟨rfl, hx⟩ := hv
          have hreal : Affinity.ofDeclared ColumnType.real.keyword = .real := by decide +kernel
          obtain ⟨o, ho⟩ := BinaryValue.exists_order? (beq_eq_false_iff_ne.1 hx) (beq_eq_false_iff_ne.1 hw.2)
          rw [hreal]
          show some ((x.value.order? y.value).getD .eq == .eq) = some true ↔
            _ ∧ (x.value.order? y.value == some .eq) = true
          simp [ho]
  | int | text | blob =>
      cases w with
      | null => simp [Engine.compareValues, Same]
      | real y => cases hv.symm.trans hw.1
      | int | text | blob =>
          rw [@Column.compareValues_keeps ⟨t, true⟩ _ _ (hkeeps hv rfl) (hkeeps hw rfl) rfl rfl]
          simp [Same]

end StoredValue

/-- In a column of a class, a stored value agrees with one of a record exactly if it is the same one. -/
theorem StoredRow.agreesAt_iff_same {stored : StoredRow} {column : String} {t : ColumnType} {v : Value}
    (haffinity : stored.affinity column = Affinity.ofDeclared t.keyword) (hcell : (stored.cell column).IsOf t)
    (hv : v.bound.IsOf t) (hnumber : ∀ x, v = .real x → x.isNaN = false) :
    stored.AgreesAt column v ↔ (stored.cell column).Same v.bound := by
  have hnull : v = .null ↔ .null = v.bound := by
    cases v with
    | real x => simp [Value.bound, hnumber x rfl]
    | null | int | text | blob => simp [Value.bound, Value.toStored]
  rw [AgreesAt, StoredRow.compare, haffinity, StoredValue.compareValues_equal_iff hcell hv]
  by_cases hmissing : stored.cell column = .null
  · simp [hmissing, StoredValue.Same, hnull]
  · simp [hmissing]

/-! ## Both steps -/

/-- What an update and a deletion of a record hand to the engine, and the rows that they are about. -/
structure RecordType.TargetsKey (registry : Registry) (type : RecordType) (table : TableDefinition) (record : Datum)
    (row : Row) : Prop where
  /-- An update is the one statement that assigns the entries of the row beside the key. -/
  update (db : Database) (h : row.beside table.primaryKey ≠ []) :
    perform (Session.update registry type record) db = perform (Session.execute (table.updateByKey row)) db
  /-- Without such entries it hands over nothing. -/
  idle (db : Database) (h : row.beside table.primaryKey = []) :
    perform (Session.update registry type record) db = (.ok 0, db)
  delete (db : Database) :
    perform (Session.delete registry type record) db = perform (Session.execute (table.deleteByKey row)) db
  /-- Once there is a connection, the engine is handed this statement and no other. -/
  updateIssues (db : Database) (h : row.beside table.primaryKey ≠ []) (c : Engine.Connection)
    (hlive : db.live = .ok c) :
    (perform (Session.update registry type record) db).2.issued =
      db.issued ++ [⟨.exec, (table.updateByKey row).text, (table.updateByKey row).params.length⟩]
  deleteIssues (db : Database) (c : Engine.Connection) (hlive : db.live = .ok c) :
    (perform (Session.delete registry type record) db).2.issued =
      db.issued ++ [⟨.exec, (table.deleteByKey row).text, (table.deleteByKey row).params.length⟩]
  /-- The conditions of both hold of the rows that have the key of the record. -/
  updated (stored : StoredRow) (h : row.beside table.primaryKey ≠ []) :
    stored.Selected (table.updateByKey row) (row.keyParams table.primaryKey) ↔ stored.HasKey table.primaryKey row
  deleted (stored : StoredRow) :
    stored.Selected (table.deleteByKey row) (row.keyParams table.primaryKey) ↔ stored.HasKey table.primaryKey row
  /-- Values of the class of their column agree if they are the same. -/
  agrees (stored : StoredRow) (c : String) (t : ColumnType) (v : Value)
    (haffinity : stored.affinity c = Affinity.ofDeclared t.keyword) (hcell : (stored.cell c).IsOf t)
    (hv : v.bound.IsOf t) (hnumber : ∀ x, v = .real x → x.isNaN = false) :
    stored.AgreesAt c v ↔ (stored.cell c).Same v.bound

/-- Both steps look for the key of the record with one clause, whatever its length and whatever values are NULL or
missing. -/
theorem RecordType.targetsKey {registry : Registry} {type : RecordType} {table : TableDefinition} {record : Datum}
    {row : Row} (hdefinition : type.definition registry = .ok table) (hkey : table.primaryKey ≠ [])
    (hkeys : table.primaryKey.Nodup) (hrow : record.encodeWith table = .ok row)
    (hknown : ∀ n ∈ row.names, n ∈ table.columnNames) : TargetsKey registry type table record row := by
  obtain ⟨p, hp⟩ := exists_keyCondition row hkey
  have hupdate := Session.perform_update hdefinition hrow hkeys hp hknown
  exact
    { update := fun db h => by rw [hupdate, if_neg h]
      idle := fun db h => by rw [hupdate, if_pos h]
      delete := Session.perform_delete hdefinition hrow hp
      updateIssues := fun db h c hlive => by
        rw [hupdate, if_neg h]
        exact Session.issued_execute hlive _
      deleteIssues := fun db c hlive => by
        rw [Session.perform_delete hdefinition hrow hp]
        exact Session.issued_execute hlive _
      updated := fun stored h => hp.selected_iff stored (Sql.conditionTokens_update (hp.update?_eq h))
      deleted := fun stored => hp.selected_iff stored (hp.delete_eq ▸ Sql.conditionTokens_delete table.name p)
      agrees := fun _ _ _ _ => StoredRow.agreesAt_iff_same }

/-- The table of memberships, with a key that may be NULL in part. -/
def membershipTable : TableDefinition where
  name := "memberships"
  columns := [("group", ⟨.text, false⟩), ("level", ⟨.integer, false⟩), ("member", ⟨.text, true⟩)]
  primaryKey := ["group", "member"]
  indexes := []
  columns_ascending := by decide +kernel
  indexes_ascending := List.Pairwise.nil
  key_known := by decide
  indexes_known := by decide

theorem definition_membership : (Gallery.membership "gallery").definition .empty = .ok membershipTable := by
  have hnames : ∀ name, Field.names { name } = [name] := fun _ => Field.names_of_unaliased rfl rfl
  have hprobe : Shape.probeRecord .empty (Gallery.membership "gallery").shape =
      .ok (.record [("group", .text "probe"), ("member", .present (.text "probe")), ("level", .int ⟨true, 32⟩ 1)],
        [("group", ⟨.text, false⟩), ("member", ⟨.text, true⟩), ("level", ⟨.integer, false⟩)]) := by
    show Shape.probeRecord _ (.record _ _ (Gallery.fields _)) = _
    simp only [Gallery.fields, List.map, Shape.probeRecord, Shape.probeFields, Shape.settleShape, Shape.settle, hnames]
    simp only [Shape.probe]
    rfl
  exact Outcome.bind_eq_ok.2 ⟨_, hprobe,
    @TableDefinition.make_of_sorted membershipTable _ _ (by decide +kernel) List.mergeSort_nil⟩

/-- A group that has a level and no member. -/
def memberless : Datum := .record [("group", .text "a"), ("member", .absent), ("level", .int ⟨true, 32⟩ 7)]

theorem RecordType.targetsKey_memberless : ∃ row, memberless.encodeWith membershipTable = .ok row ∧
    (membershipTable.updateByKey row).text =
      "UPDATE \"memberships\" SET \"level\" = ? WHERE \"group\" = ? AND \"member\" IS NULL" ∧
    membershipTable.primaryKey ≠ [] ∧ membershipTable.primaryKey.Nodup ∧
    (∀ n ∈ row.names, n ∈ membershipTable.columnNames) ∧
    TargetsKey .empty (Gallery.membership "gallery") membershipTable memberless row :=
  ⟨_, rfl, by decide +kernel, by decide, by decide, by decide +kernel,
    targetsKey definition_membership (by decide) (by decide) rfl (by decide +kernel)⟩

end RecordTables
