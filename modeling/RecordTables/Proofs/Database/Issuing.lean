import RecordTables.Proofs.Database.Sessions
import RecordTables.Proofs.Schema.Columns
import RecordTables.Proofs.Sql.Command

/-!
# What a step hands to the engine

A step on the records of a type first decides what to ask for, and only then turns to the engine.  Whatever keeps it from
asking leaves the database as it is, and what it asks for is one statement.
-/

namespace RecordTables

open Session (perform perform_bind perform_bind_error perform_liftM perform_liftM_bind)
open Sql (Command Predicate Query)
open Engine (Token)

/-- A step on the records of a type. -/
inductive RecordStep where
  | insert (record : Datum)
  | update (record : Datum)
  | delete (record : Datum)
  | select (query : Query)
  | updateWhere (values : Row) (filter : Option Predicate)
  | deleteWhere (filter : Option Predicate)

/-- What a step answers. -/
inductive Answer where
  | count (rows : Nat)
  | records (found : List Datum)

namespace RecordStep

section

variable (registry : Registry) (type : RecordType)

/-- Carries out a step. -/
def run : RecordStep → Session Answer
  | .insert record => return .count (← Session.insert registry type record)
  | .update record => return .count (← Session.update registry type record)
  | .delete record => return .count (← Session.delete registry type record)
  | .select query => return .records (← Session.select registry type query)
  | .updateWhere values filter => return .count (← Session.updateWhere registry type values filter)
  | .deleteWhere filter => return .count (← Session.deleteWhere registry type filter)

/-! ## Decisions -/

/-- What an assignment asks for: nothing if there is nothing to assign. -/
def planUpdate (values : Row) (filter : Option Predicate) : Outcome (Option Command) :=
  if values.isEmpty then return none
  else do
    let table ← type.definition registry
    table.validate (values.names ++ Session.filterColumns filter)
    return some (.update table.name values filter)

def planDelete (filter : Option Predicate) : Outcome (Option Command) := do
  let table ← type.definition registry
  table.validate (Session.filterColumns filter)
  return some (.delete table.name filter)

/-- What a step asks for, as far as the database has no say in it. -/
def plan : RecordStep → Outcome (Option Command)
  | .insert record => do
      let table ← type.definition registry
      let row ← record.encodeWith table
      return some (.insert table.name row)
  | .update record => do
      let table ← type.definition registry
      let row ← record.encodeWith table
      let key ← Session.keyPredicate table (Session.takeKey table.primaryKey row).1
      planUpdate registry type (Session.takeKey table.primaryKey row).2 (some key)
  | .delete record => do
      let table ← type.definition registry
      let row ← record.encodeWith table
      let key ← Session.keyPredicate table (table.primaryKey.map fun c => Session.keyTerm c (row.get? c))
      planDelete registry type (some key)
  | .select query => do
      let table ← type.definition registry
      table.validate query.columns
      return some (.select table.name query)
  | .updateWhere values filter => planUpdate registry type values filter
  | .deleteWhere filter => planDelete registry type filter

/-- Asks the engine for what was decided. -/
def ask : Option Command → Session Answer
  | none => return .count 0
  | some c =>
      match c.statement? with
      | none => return .count 0
      | some s =>
          match c with
          | .select _ _ => return .records (← Session.query type s.text s.params)
          | _ => return .count (← Session.execute s)

end

variable {registry : Registry} {type : RecordType}

theorem ask_update (table : String) (values : Row) (filter : Option Predicate) :
    ask type (some (.update table values filter)) =
      Answer.count <$> (match Sql.Statement.update? table values filter with
        | some s => Session.execute s
        | none => pure 0) := by
  cases h : Sql.Statement.update? table values filter <;> simp [ask, Command.statement?, h]

theorem updateWhere_eq (values : Row) (filter : Option Predicate) :
    Answer.count <$> Session.updateWhere registry type values filter =
      liftM (planUpdate registry type values filter) >>= ask type := by
  unfold Session.updateWhere planUpdate Session.definition
  split
  · rfl
  · simp only [liftM_bind, liftM_pure, bind_assoc, map_bind, pure_bind]
    exact bind_congr fun table => bind_congr fun _ => (ask_update table.name values filter).symm

theorem deleteWhere_eq (filter : Option Predicate) :
    Answer.count <$> Session.deleteWhere registry type filter =
      liftM (planDelete registry type filter) >>= ask type := by
  simp [Session.deleteWhere, planDelete, Session.definition, ask, Command.statement?]

/-- A step asks for what it has decided on. -/
theorem run_eq (step : RecordStep) :
    step.run registry type = liftM (step.plan registry type) >>= ask type := by
  cases step with
  | insert record => simp [run, plan, Session.insert, Session.definition, ask, Command.statement?]
  | select query => simp [run, plan, Session.select, Session.definition, ask, Command.statement?]
  | updateWhere values filter => simp [run, plan, updateWhere_eq]
  | deleteWhere filter => simp [run, plan, deleteWhere_eq]
  | update record => simp [run, plan, Session.update, Session.definition, updateWhere_eq]
  | delete record => simp [run, plan, Session.delete, Session.definition, deleteWhere_eq]

/-- Without a connection nothing is asked. -/
theorem perform_ask_unopened {c : Command} {s : Sql.Statement} {db : Database} {f : Engine.Failure}
    (hs : c.statement? = some s) (hlive : db.live = .error f) :
    perform (ask type (some c)) db = (.error (Session.engineError "" f), db) := by
  have hexec : ∀ s : Sql.Statement, perform (Session.execute s) db = (.error (Session.engineError "" f), db) :=
    fun s => perform_bind_error (Session.perform_run_unopened hlive)
  have hquery : ∀ s : Sql.Statement,
      perform (Session.query type s.text s.params) db = (.error (Session.engineError "" f), db) :=
    fun s => perform_bind_error (perform_bind_error (Session.perform_run_unopened hlive))
  cases c with
  | select table q => exact perform_bind_error (hquery _)
  | insert | update | delete =>
      simp only [ask, hs]
      exact perform_bind_error (hexec _)

/-- What is asked is one statement, whatever becomes of it. -/
theorem issued_ask {c : Command} {s : Sql.Statement} {db : Database} {opened : Engine.Connection}
    (hs : c.statement? = some s) (hlive : db.live = .ok opened) :
    ∃ purpose, (perform (ask type (some c)) db).2.issued = db.issued ++ [⟨purpose, s.text, s.params.length⟩] := by
  have hexec : (perform (Session.execute s) db).2.issued = db.issued ++ [⟨.exec, s.text, s.params.length⟩] := by
    unfold Session.execute Session.exec
    rw [Session.perform_bind_snd fun _ _ => rfl]
    exact Session.issued_run hlive
  have hquery : (perform (Session.query type s.text s.params) db).2.issued =
      db.issued ++ [⟨.query, s.text, s.params.length⟩] := by
    unfold Session.query Session.rows
    rw [Session.perform_bind_snd fun rows _ => by rw [Session.perform_mapM], Session.perform_bind_snd fun _ _ => rfl]
    exact Session.issued_run hlive
  cases c with
  | select table q =>
      cases hs
      exact ⟨.query, (congrArg Database.issued (Session.perform_bind_snd fun _ _ => rfl)).trans hquery⟩
  | insert | update | delete =>
      refine ⟨.exec, ?_⟩
      simp only [ask, hs]
      rw [Session.perform_bind_snd fun _ _ => rfl]
      exact hexec

/-! ## What keeps a step from asking -/

/-- The record that a step writes. -/
def record? : RecordStep → Option Datum
  | .insert record => some record
  | .update record => some record
  | .delete record => some record
  | _ => none

/-- Whether a step finds its row by the key. -/
def byKey : RecordStep → Bool
  | .update _ => true
  | .delete _ => true
  | _ => false

/-- The row that a step assigns in a table: for a record, all of it but the key. -/
def assigned? (table : TableDefinition) : RecordStep → Option Row
  | .update record =>
      match record.encodeWith table with
      | .ok row => some (Session.takeKey table.primaryKey row).2
      | .error _ => none
  | .updateWhere values _ => some values
  | _ => none

/-- The columns that the condition and the ordering of a step name. -/
def filtered (table : TableDefinition) : RecordStep → List String
  | .insert _ => []
  | .update _ => table.primaryKey
  | .delete _ => table.primaryKey
  | .select query => query.columns
  | .updateWhere _ filter => Session.filterColumns filter
  | .deleteWhere filter => Session.filterColumns filter

/-- The columns that a step names, those that it assigns first. -/
def named (table : TableDefinition) (step : RecordStep) : List String :=
  ((step.assigned? table).map Row.names).getD [] ++ step.filtered table

/-- What keeps a step from asking the engine for anything, whatever the database is. -/
inductive Withheld (registry : Registry) (type : RecordType) (step : RecordStep) : Prop where
  | undefined {e : Error} (h : type.definition registry = .error e)
  | unwritten {table : TableDefinition} {record : Datum} {e : Error} (h : type.definition registry = .ok table)
      (hrecord : step.record? = some record) (hwritten : record.encodeWith table = .error e)
  | keyless {table : TableDefinition} (h : type.definition registry = .ok table) (hkey : step.byKey = true)
      (hnone : table.primaryKey = [])
  | unknown {table : TableDefinition} {name : String} (h : type.definition registry = .ok table)
      (hname : name ∈ step.named table) (hunknown : name ∉ table.columnNames)
  | idle {table : TableDefinition} {row : Row} (h : type.definition registry = .ok table)
      (hrow : step.assigned? table = some row) (hempty : row.isEmpty = true)

/-- Whether the row that a step assigns is empty. -/
def isIdle (table : TableDefinition) (step : RecordStep) : Bool := (step.assigned? table).any Row.isEmpty

/-! ## Conditions on the key -/

theorem columns_keyTerm (column : String) (value : Option Value) : (Session.keyTerm column value).columns = [column] := by
  unfold Session.keyTerm
  split
  · split <;> rfl
  · rfl

theorem flatMap_columns_keyTerm (key : List String) (value : String → Option Value) :
    (key.map fun c => Session.keyTerm c (value c)).flatMap Predicate.columns = key := by
  rw [List.flatMap_map]
  simp only [columns_keyTerm]
  exact List.flatMap_singleton' key

theorem flatMap_columns_takeKey (key : List String) (row : Row) :
    (Session.takeKey key row).1.flatMap Predicate.columns = key := by
  induction key generalizing row with
  | nil => rfl
  | cons c rest ih =>
      rw [Session.takeKey, List.flatMap_cons, columns_keyTerm, ih]
      rfl

/-- A key that is there gives a condition on its columns. -/
theorem keyPredicate_ok {table : TableDefinition} {terms : List Predicate} (hkey : table.primaryKey ≠ [])
    (hterms : terms.flatMap Predicate.columns = table.primaryKey) :
    ∃ p, Session.keyPredicate table terms = .ok p ∧ p.columns = table.primaryKey := by
  unfold Session.keyPredicate
  cases hall : Predicate.all? terms with
  | none =>
      cases terms with
      | nil => exact absurd hterms.symm hkey
      | cons => cases hall
  | some p => exact ⟨p, rfl, (Predicate.columns_of_all? hall).trans hterms⟩

/-! ## Steps that ask -/

section

variable {table : TableDefinition}

/-- A step with all that it needs before it names a column: its record is written, and there is a key if it looks one
up. -/
structure Prepared (table : TableDefinition) (step : RecordStep) : Prop where
  written : ∀ record, step.record? = some record → ∃ row, record.encodeWith table = .ok row
  keyed : step.byKey = true → table.primaryKey ≠ []

/-- What a step decides: nothing if it assigns nothing, and else a command, unless it names an unknown column. -/
structure Decides (registry : Registry) (type : RecordType) (table : TableDefinition) (step : RecordStep) (c : Command) :
    Prop where
  plan : step.plan registry type =
    if step.isIdle table then .ok none else table.validate (step.named table) >>= fun _ => .ok (some c)
  statement : step.isIdle table = false → (c.statement?).isSome = true
  /-- An insertion names the columns of its row, which come from the definition and not from the step. -/
  names : (∀ record, step ≠ .insert record) → c.names = table.name :: step.named table

/-- Steps with the same plan that assign the same row under conditions on the same columns decide alike. -/
theorem Decides.of_same {step other : RecordStep} {c : Command} (hother : other.Decides registry type table c)
    (hinsert : ∀ record, other ≠ .insert record) (hplan : step.plan registry type = other.plan registry type)
    (hassigned : step.assigned? table = other.assigned? table) (hfiltered : step.filtered table = other.filtered table) :
    step.Decides registry type table c := by
  have hidle : step.isIdle table = other.isIdle table := by rw [isIdle, isIdle, hassigned]
  have hnamed : step.named table = other.named table := by rw [named, named, hassigned, hfiltered]
  refine ⟨?_, ?_, fun _ => ?_⟩
  · rw [hplan, hidle, hnamed]
    exact hother.plan
  · rw [hidle]
    exact hother.statement
  · rw [hnamed]
    exact hother.names hinsert

theorem Decides.plan_some {step : RecordStep} {c : Command} (h : step.Decides registry type table c)
    (hidle : step.isIdle table = false) (hknown : ∀ n ∈ step.named table, n ∈ table.columnNames) :
    step.plan registry type = .ok (some c) := by
  rw [h.plan, hidle, table.validate_ok.2 hknown]
  rfl

theorem decides_updateWhere (h : type.definition registry = .ok table) (values : Row) (filter : Option Predicate) :
    (RecordStep.updateWhere values filter).Decides registry type table (.update table.name values filter) := by
  refine ⟨?_, ?_, fun _ => rfl⟩
  · rw [plan, planUpdate, h]
    rfl
  · intro hvalues
    have hfull : values.isEmpty = false := hvalues
    simp [Command.statement?, Sql.Statement.update?, hfull]

theorem decides_deleteWhere (h : type.definition registry = .ok table) (filter : Option Predicate) :
    (RecordStep.deleteWhere filter).Decides registry type table (.delete table.name filter) := by
  refine ⟨?_, fun _ => rfl, fun _ => rfl⟩
  rw [plan, planDelete, h]
  rfl

theorem decides_select (h : type.definition registry = .ok table) (query : Query) :
    (RecordStep.select query).Decides registry type table (.select table.name query) := by
  refine ⟨?_, fun _ => rfl, fun _ => rfl⟩
  rw [plan, h]
  rfl

theorem decides_insert {record : Datum} {row : Row} (h : type.definition registry = .ok table)
    (hrow : record.encodeWith table = .ok row) :
    (RecordStep.insert record).Decides registry type table (.insert table.name row) := by
  have hvalid : table.validate [] = .ok () := table.validate_ok.2 (by simp)
  refine ⟨?_, fun _ => rfl, fun hnot => absurd rfl (hnot record)⟩
  show _ = (table.validate [] >>= _)
  rw [plan, h, hvalid]
  show (record.encodeWith table >>= _) = _
  rw [hrow]
  rfl

/-- A record is updated by assigning its other columns where its key is. -/
theorem plan_update_eq {record : Datum} {row : Row} {key : Predicate} (h : type.definition registry = .ok table)
    (hrow : record.encodeWith table = .ok row)
    (hkey : Session.keyPredicate table (Session.takeKey table.primaryKey row).1 = .ok key) :
    (RecordStep.update record).plan registry type =
      (RecordStep.updateWhere (Session.takeKey table.primaryKey row).2 (some key)).plan registry type := by
  rw [plan, h]
  show (record.encodeWith table >>= _) = _
  rw [hrow]
  show (Session.keyPredicate table _ >>= _) = _
  rw [hkey]
  rfl

/-- A record is deleted where its key is. -/
theorem plan_delete_eq {record : Datum} {row : Row} {key : Predicate} (h : type.definition registry = .ok table)
    (hrow : record.encodeWith table = .ok row)
    (hkey : Session.keyPredicate table (table.primaryKey.map fun c => Session.keyTerm c (row.get? c)) = .ok key) :
    (RecordStep.delete record).plan registry type = (RecordStep.deleteWhere (some key)).plan registry type := by
  rw [plan, h]
  show (record.encodeWith table >>= _) = _
  rw [hrow]
  show (Session.keyPredicate table _ >>= _) = _
  rw [hkey]
  rfl

theorem decides_of_prepared {step : RecordStep} (h : type.definition registry = .ok table)
    (hprepared : step.Prepared table) : ∃ c, step.Decides registry type table c := by
  cases step with
  | insert record =>
      obtain ⟨row, hrow⟩ := hprepared.written record rfl
      exact ⟨_, decides_insert h hrow⟩
  | update record =>
      obtain ⟨row, hrow⟩ := hprepared.written record rfl
      obtain ⟨key, hkey, hcolumns⟩ :=
        keyPredicate_ok (hprepared.keyed rfl) (flatMap_columns_takeKey table.primaryKey row)
      refine ⟨_, (decides_updateWhere h _ _).of_same (fun _ hinsert => by cases hinsert) (plan_update_eq h hrow hkey) ?_
        hcolumns.symm⟩
      rw [assigned?, hrow]
      rfl
  | delete record =>
      obtain ⟨row, hrow⟩ := hprepared.written record rfl
      obtain ⟨key, hkey, hcolumns⟩ := keyPredicate_ok (hprepared.keyed rfl)
        (flatMap_columns_keyTerm table.primaryKey fun c => row.get? c)
      exact ⟨_, (decides_deleteWhere h _).of_same (fun _ hinsert => by cases hinsert) (plan_delete_eq h hrow hkey) rfl
        hcolumns.symm⟩
  | select query => exact ⟨_, decides_select h query⟩
  | updateWhere values filter => exact ⟨_, decides_updateWhere h values filter⟩
  | deleteWhere filter => exact ⟨_, decides_deleteWhere h filter⟩

theorem plan_unwritten {step : RecordStep} {record : Datum} {e : Error} (h : type.definition registry = .ok table)
    (hrecord : step.record? = some record) (hwritten : record.encodeWith table = .error e) :
    step.plan registry type = .error e := by
  cases step with
  | select | updateWhere | deleteWhere => cases hrecord
  | insert | update | delete =>
      cases hrecord
      rw [plan, h]
      show (Datum.encodeWith table _ >>= _) = _
      rw [hwritten]
      rfl

theorem plan_keyless {step : RecordStep} (h : type.definition registry = .ok table) (hkey : step.byKey = true)
    (hwritten : ∀ record, step.record? = some record → ∃ row, record.encodeWith table = .ok row)
    (hnone : table.primaryKey = []) : step.plan registry type = .error (.noPrimaryKey table.name) := by
  cases step with
  | insert | select | updateWhere | deleteWhere => cases hkey
  | update record | delete record =>
      obtain ⟨row, hrow⟩ := hwritten record rfl
      rw [plan, h]
      show (record.encodeWith table >>= _) = _
      rw [hrow]
      show (Session.keyPredicate table _ >>= _) = _
      rw [hnone]
      rfl

/-- A type without a definition asks for nothing. -/
theorem plan_undefined {step : RecordStep} {e : Error} (h : type.definition registry = .error e) (c : Command) :
    step.plan registry type ≠ .ok (some c) := by
  have hupdate : ∀ (values : Row) (filter : Option Predicate), planUpdate registry type values filter ≠ .ok (some c) := by
    intro values filter
    unfold planUpdate
    split
    · exact fun hplan => by cases hplan
    · rw [h]
      exact fun hplan => by cases hplan
  cases step with
  | updateWhere values filter => exact hupdate values filter
  | deleteWhere filter =>
      rw [plan, planDelete, h]
      exact fun hplan => by cases hplan
  | insert | update | delete | select =>
      rw [plan, h]
      exact fun hplan => by cases hplan

/-- Once a type has a definition, either its step fails before it names any column, or all is there that it needs. -/
theorem fails_or_prepared (step : RecordStep) (h : type.definition registry = .ok table) :
    (Withheld registry type step ∧ ∃ e, step.plan registry type = .error e) ∨ step.Prepared table := by
  by_cases hwritten : ∀ record, step.record? = some record → ∃ row, record.encodeWith table = .ok row
  · by_cases hkeyless : step.byKey = true ∧ table.primaryKey = []
    · exact .inl ⟨.keyless h hkeyless.1 hkeyless.2, _, plan_keyless h hkeyless.1 hwritten hkeyless.2⟩
    · exact .inr ⟨hwritten, fun hkey hnone => hkeyless ⟨hkey, hnone⟩⟩
  · push Not at hwritten
    obtain ⟨record, hrecord, hno⟩ := hwritten
    cases hrow : record.encodeWith table with
    | ok row => exact absurd hrow (hno row)
    | error e => exact .inl ⟨.unwritten h hrecord hrow, e, plan_unwritten h hrecord hrow⟩

/-- A step asks for a command exactly if nothing keeps it from asking. -/
theorem withheld_iff {step : RecordStep} :
    Withheld registry type step ↔ ∀ c, step.plan registry type ≠ .ok (some c) := by
  cases h : type.definition registry with
  | error e => exact iff_of_true (.undefined h) (plan_undefined h)
  | ok table =>
      obtain ⟨hwithheld, e, he⟩ | hprepared := fails_or_prepared step h
      · exact iff_of_true hwithheld fun c hplan => by rw [he] at hplan; cases hplan
      · obtain ⟨c, hdecides⟩ := decides_of_prepared h hprepared
        constructor
        · rintro hwithheld c' hc'
          rw [hdecides.plan] at hc'
          cases hwithheld with
          | undefined h' => cases h.symm.trans h'
          | unwritten h' hrecord hwritten =>
              cases h.symm.trans h'
              obtain ⟨row, hrow⟩ := hprepared.written _ hrecord
              cases hwritten.symm.trans hrow
          | keyless h' hkey hnone =>
              cases h.symm.trans h'
              exact hprepared.keyed hkey hnone
          | unknown h' hname hunknown =>
              cases h.symm.trans h'
              rw [table.validate_error hname hunknown] at hc'
              split at hc' <;> cases hc'
          | idle h' hrow hempty =>
              cases h.symm.trans h'
              rw [if_pos (by rw [isIdle, hrow]; exact hempty)] at hc'
              cases hc'
        · intro hnone
          by_cases hidle : step.isIdle table = true
          · obtain ⟨row, hrow, hempty⟩ := (Option.any_eq_true ..).1 hidle
            exact .idle h hrow hempty
          · by_cases hknown : ∀ n ∈ step.named table, n ∈ table.columnNames
            · exact absurd (hdecides.plan_some (Bool.not_eq_true _ ▸ hidle) hknown) (hnone c)
            · push Not at hknown
              obtain ⟨n, hname, hunknown⟩ := hknown
              exact .unknown h hname hunknown

theorem name_of_definition (h : type.definition registry = .ok table) : table.name = type.table := by
  unfold RecordType.definition at h
  cases hprobe : type.shape.probeRecord registry with
  | error e => rw [hprobe] at h; cases h
  | ok probed =>
      rw [hprobe] at h
      exact TableDefinition.name_of_make h

/-- A command that is decided on has a statement; unless it is an insertion, it names the table and columns of it. -/
theorem of_plan_some {step : RecordStep} {c : Command} (hplan : step.plan registry type = .ok (some c)) :
    (∃ s, c.statement? = some s) ∧ ((∀ record, step ≠ .insert record) →
      ∃ table, type.definition registry = .ok table ∧ ∀ n ∈ c.names, n = type.table ∨ n ∈ table.columnNames) := by
  have hasks : ¬ Withheld registry type step := fun h => withheld_iff.1 h c hplan
  cases h : type.definition registry with
  | error e => exact absurd (.undefined h) hasks
  | ok table =>
      obtain ⟨hwithheld, -⟩ | hprepared := fails_or_prepared step h
      · exact absurd hwithheld hasks
      · obtain ⟨c', hdecides⟩ := decides_of_prepared h hprepared
        have hidle : step.isIdle table = false := by
          by_contra hidle
          obtain ⟨row, hrow, hempty⟩ := (Option.any_eq_true ..).1 (Bool.of_not_eq_false hidle)
          exact hasks (.idle h hrow hempty)
        have hknown : ∀ n ∈ step.named table, n ∈ table.columnNames := fun n hn => by
          by_contra hunknown
          exact hasks (.unknown h hn hunknown)
        cases hplan.symm.trans (hdecides.plan_some hidle hknown)
        refine ⟨Option.isSome_iff_exists.1 (hdecides.statement hidle), fun hnot => ⟨table, rfl, fun n hn => ?_⟩⟩
        rw [hdecides.names hnot, List.mem_cons, name_of_definition h] at hn
        exact hn.imp_right (hknown n)

/-! ## What a step leaves behind -/

/-- A step that is kept from asking leaves the database as it was. -/
theorem perform_withheld {step : RecordStep} {db : Database} (hwithheld : Withheld registry type step) :
    (perform (liftM (step.plan registry type) >>= ask type) db).2 = db := by
  cases hplan : step.plan registry type with
  | error e => exact congrArg Prod.snd (perform_bind_error (perform_liftM _))
  | ok decided =>
      rw [perform_bind (perform_liftM _)]
      cases decided with
      | none => rfl
      | some c => exact absurd hplan (withheld_iff.1 hwithheld c)

/-- A step hands over nothing if it is kept from asking or there is no connection, and else the statement of its
command. -/
theorem issued_step (step : RecordStep) (db : Database) :
    ((Withheld registry type step ∨ ∃ f, db.live = .error f) ∧
      (perform (liftM (step.plan registry type) >>= ask type) db).2.issued = db.issued) ∨
    (¬ (Withheld registry type step ∨ ∃ f, db.live = .error f) ∧
      ∃ c s purpose, step.plan registry type = .ok (some c) ∧ c.statement? = some s ∧
        (perform (liftM (step.plan registry type) >>= ask type) db).2.issued =
          db.issued ++ [⟨purpose, s.text, s.params.length⟩]) := by
  by_cases hwithheld : Withheld registry type step
  · exact .inl ⟨.inl hwithheld, congrArg Database.issued (perform_withheld hwithheld)⟩
  · have hasks := hwithheld
    rw [withheld_iff] at hasks
    push Not at hasks
    obtain ⟨c, hplan⟩ := hasks
    obtain ⟨⟨s, hs⟩, -⟩ := of_plan_some hplan
    rw [perform_liftM_bind hplan]
    cases hlive : db.live with
    | error f => exact .inl ⟨.inr ⟨f, rfl⟩, congrArg (Database.issued ∘ Prod.snd) (perform_ask_unopened hs hlive)⟩
    | ok opened =>
        obtain ⟨purpose, hissued⟩ := @issued_ask type _ _ _ _ hs hlive
        refine .inr ⟨?_, c, s, purpose, hplan, hs, hissued⟩
        rintro (h | ⟨f, hf⟩)
        · exact hwithheld h
        · cases hf

/-- What is sure of a step that was carried out on a database, whatever its answer is. -/
structure Accounted (registry : Registry) (type : RecordType) (step : RecordStep) (db : Database) (answer : Outcome Answer)
    (after : Database) : Prop where
  /-- It hands over one statement at most; apart from an insertion, the statement quotes no names but that of the table
  and those of its columns. -/
  atMostOne : after.issued = db.issued ∨
    ∃ i, after.issued = db.issued ++ [i] ∧ ((∀ record, step ≠ .insert record) →
      ∃ table, type.definition registry = .ok table ∧
        ∀ n ∈ (Token.ofChars i.text.toList).filterMap Token.name?, n = type.table ∨ n ∈ table.columnNames)
  none_iff : after.issued = db.issued ↔ Withheld registry type step ∨ ∃ f, db.live = .error f
  unchanged : Withheld registry type step → after = db
  /-- If unknown columns are the reason, they are all named, each of them once and in ascending order. -/
  unknown : ∀ table, type.definition registry = .ok table → step.Prepared table → step.isIdle table = false →
    (∃ n ∈ step.named table, n ∉ table.columnNames) →
    ∃ names, answer = .error (.invalidColumns names) ∧ names.Pairwise (· < ·) ∧
      ∀ n, n ∈ names ↔ n ∈ step.named table ∧ n ∉ table.columnNames
  /-- With nothing to assign, the answer is that nothing changed. -/
  idle : ∀ table, type.definition registry = .ok table → step.Prepared table → step.isIdle table = true →
    answer = .ok (.count 0)
  empty : ∀ values filter, step = .updateWhere values filter → values.isEmpty = true → answer = .ok (.count 0)

/-- Every step on the records of a type is accounted for, on every database. -/
theorem accounted (registry : Registry) (type : RecordType) (step : RecordStep) (db : Database) :
    Accounted registry type step db (perform (step.run registry type) db).1 (perform (step.run registry type) db).2 := by
  rw [run_eq]
  refine
    { atMostOne := ?_
      none_iff := ?_
      unchanged := fun hwithheld => perform_withheld hwithheld
      unknown := fun table htable hprepared hidle hunknown => ?_
      idle := fun table htable hprepared hidle => ?_
      empty := ?_ }
  · obtain ⟨-, hnone⟩ | ⟨-, c, s, purpose, hplan, hs, hissued⟩ := @issued_step registry type step db
    · exact .inl hnone
    · refine .inr ⟨_, hissued, fun hnot => ?_⟩
      rw [Command.ofChars_text hs, Command.filterMap_name_parts]
      exact (of_plan_some hplan).2 hnot
  · obtain ⟨hkept, hnone⟩ | ⟨hasks, c, s, purpose, -, -, hissued⟩ := @issued_step registry type step db
    · exact iff_of_true hnone hkept
    · exact iff_of_false (by rw [hissued]; simp) hasks
  · obtain ⟨n, hname, hno⟩ := hunknown
    obtain ⟨c, hdecides⟩ := decides_of_prepared htable hprepared
    have hplan := hdecides.plan
    rw [if_neg (by simp [hidle]), table.validate_error hname hno] at hplan
    exact ⟨_, congrArg Prod.fst (Session.perform_liftM_bind_error hplan), table.pairwise_unknownColumns _,
      fun _ => table.mem_unknownColumns⟩
  · obtain ⟨c, hdecides⟩ := decides_of_prepared htable hprepared
    have hplan := hdecides.plan
    rw [if_pos hidle] at hplan
    rw [perform_liftM_bind hplan]
    rfl
  · rintro values filter rfl hempty
    have hplan : (RecordStep.updateWhere values filter).plan registry type = .ok none := if_pos hempty
    rw [perform_liftM_bind hplan]
    rfl

end

end RecordStep

end RecordTables
