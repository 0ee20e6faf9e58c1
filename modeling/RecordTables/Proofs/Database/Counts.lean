import RecordTables.Proofs.Database.Connections
import RecordTables.Proofs.Engine.Accepted
import RecordTables.Proofs.Engine.Tallies

/-!
# Counts that are answered

The count of a step is told from two counters that outlive it.  It is the number of rows that the statement of the step
wrote itself: what triggers write is left out, and what earlier steps have written does not show in it.
-/

namespace RecordTables

open Engine (Connection Failure PlannedChange Plan WrittenRow)
open Session (perform perform_bind perform_bind_error perform_liftM_bind)
open Sql (Command)

namespace Engine.Connection

/-- A number counts the rows that a statement writes itself. -/
structure CountsOwn (c : Connection) (text : String) (parameters : List StoredValue) (n : Nat) : Prop where
  written : ∃ own others, c.Wrote text parameters own others
  count : ∀ own others, c.Wrote text parameters own others → n = own.length
  inserted : ∀ name rows, c.planOf text parameters = .ok (.change (.insert name rows)) → n = rows.length
  /-- In particular, if there are no rows to change, none is counted. -/
  found : ∀ change found, c.planOf text parameters = .ok (.change change) →
    change.Finds c.store parameters.toArray found → n ≤ found
  /-- Declarations and queries count nothing. -/
  other : ∀ plan, c.planOf text parameters = .ok plan → (∀ change, plan ≠ .change change) → n = 0

variable {c after : Connection} {text : String} {parameters : List StoredValue}

/-- What is told from the counters counts the rows of the statement. -/
theorem countsOwn_run {result : Result} (h : c.run text parameters = (.ok result, after)) :
    c.CountsOwn text parameters (changedBetween c after) := by
  have hcount : ∀ own others, c.Wrote text parameters own others → changedBetween c after = own.length :=
    fun own others hwrote => changedBetween_run h hwrote
  obtain ⟨own, others, hwrote⟩ := exists_wrote h
  refine ⟨⟨own, others, hwrote⟩, hcount, fun name rows hplan => ?_, fun change found hplan hfound => ?_,
    fun plan hplan hother => hcount [] [] (.other hplan hother)⟩
  all_goals
    rw [hcount own others hwrote]
    cases hwrote with
    | other hplan' hother =>
        cases hplan.symm.trans hplan'
        exact absurd rfl (hother _)
    | change hplan' hperforms =>
        cases hplan.symm.trans hplan'
        first
          | exact hperforms.length_insert
          | exact hperforms.length_le hfound

end Engine.Connection

/-! ## Answers -/

/-- What is answered when a statement is executed for its count. -/
inductive Counted (db : Database) (text : String) (params : List Value) : Outcome Nat → Prop where
  | unopened {f : Failure} (hlive : db.live = .error f) : Counted db text params (.error (Session.engineError "" f))
  | failed {c : Connection} {f : Failure} (hlive : db.live = .ok c)
      (hrun : (c.run text (params.map Value.bound)).1 = .error f) :
      Counted db text params (.error (Session.engineError text f))
  | counted {c : Connection} {result : Engine.Result} {n : Nat} (hlive : db.live = .ok c)
      (hrun : (c.run text (params.map Value.bound)).1 = .ok result)
      (hcounts : c.CountsOwn text (params.map Value.bound) n) : Counted db text params (.ok n)

theorem Session.counted_exec (db : Database) (text : String) (params : List Value) :
    Counted db text params (perform (exec text params) db).1 := by
  cases hlive : db.live with
  | error f =>
      have hexec : perform (exec text params) db = (.error (engineError "" f), db) :=
        perform_bind_error (perform_run_unopened hlive)
      rw [hexec]
      exact .unopened hlive
  | ok c =>
      rcases hrun : c.run text (params.map Value.bound) with ⟨outcome, after⟩
      cases outcome with
      | error f =>
          rw [perform_exec_error hlive hrun]
          exact .failed hlive (congrArg Prod.fst hrun)
      | ok result =>
          rw [perform_exec hlive hrun]
          exact .counted hlive (congrArg Prod.fst hrun) (Connection.countsOwn_run hrun)

/-- What a step on the records of a type answers: nothing is counted that is no row of its own statement. -/
inductive RecordStep.StepCounted (registry : Registry) (type : RecordType) (step : RecordStep) (db : Database) :
    Outcome Answer → Prop where
  | withheld {e : Error} (hplan : step.plan registry type = .error e) : StepCounted registry type step db (.error e)
  /-- There is nothing to assign. -/
  | idle (hplan : step.plan registry type = .ok none) : StepCounted registry type step db (.ok (.count 0))
  | selected {table : String} {query : Sql.Query} {answer : Outcome Answer}
      (hplan : step.plan registry type = .ok (some (.select table query))) (hanswer : ∀ n, answer ≠ .ok (.count n)) :
      StepCounted registry type step db answer
  | counted {command : Command} {s : Sql.Statement} {count : Outcome Nat}
      (hplan : step.plan registry type = .ok (some command)) (hs : command.statement? = some s)
      (h : Counted db s.text s.params count) : StepCounted registry type step db (Answer.count <$> count)

/-- A command is asked for as rows or as a count. -/
theorem RecordStep.ask_eq {type : RecordType} {command : Command} {s : Sql.Statement}
    (hs : command.statement? = some s) :
    (∃ table query, command = .select table query ∧
        ask type (some command) = Answer.records <$> Session.query type s.text s.params) ∨
      ask type (some command) = Answer.count <$> Session.execute s := by
  cases command with
  | select table query =>
      refine .inl ⟨table, query, rfl, ?_⟩
      cases hs
      rw [map_eq_pure_bind]
      rfl
  | insert | update | delete =>
      refine .inr ?_
      rw [map_eq_pure_bind]
      simp only [ask, hs]

theorem RecordStep.stepCounted (registry : Registry) (type : RecordType) (step : RecordStep) (db : Database) :
    StepCounted registry type step db (perform (step.run registry type) db).1 := by
  rw [run_eq]
  cases hplan : step.plan registry type with
  | error e =>
      rw [Session.perform_liftM_bind_error rfl]
      exact .withheld hplan
  | ok decided =>
      rw [perform_liftM_bind rfl]
      cases decided with
      | none => exact .idle hplan
      | some command =>
          obtain ⟨⟨s, hs⟩, -⟩ := of_plan_some hplan
          obtain ⟨table, query, rfl, hask⟩ | hask := @ask_eq type _ _ hs
          · rw [hask, Session.perform_map]
            refine .selected hplan fun n hanswer => ?_
            generalize (perform (Session.query type s.text s.params) db).1 = found at hanswer
            cases found <;> cases hanswer
          · rw [hask, Session.perform_map]
            exact .counted hplan hs (Session.counted_exec ..)

/-! ## Declarations -/

theorem TableDefinition.exists_createText (table : TableDefinition) :
    ∃ rest, table.createText.toList = "CREATE ".toList ++ rest := by
  rw [createText]
  simp only [String.toList_append, List.append_assoc]
  exact ⟨_, List.append_assoc "CREATE ".toList "TABLE ".toList _⟩

theorem Index.exists_createText (index : Index) (table : String) :
    ∃ rest, (index.createText table).toList = "CREATE ".toList ++ rest := by
  rw [createText]
  simp only [String.toList_append, List.append_assoc]
  exact ⟨_, rfl⟩

/-- A table that is created, with its indexes, counts no rows. -/
theorem Session.count_create {table : TableDefinition} {db : Database} {n : Nat}
    (h : (perform (create table) db).1 = .ok n) : n = 0 := by
  have hexec : ∀ {text : String} {db : Database} {n : Nat}, (∃ rest, text.toList = "CREATE ".toList ++ rest) →
      (perform (exec text []) db).1 = .ok n → n = 0 := by
    rintro text db n ⟨rest, htext⟩ hn
    have hcounted := counted_exec db text []
    rw [hn] at hcounted
    cases hcounted with
    | counted hlive hrun hcounts =>
        obtain ⟨own, others, hwrote⟩ := hcounts.written
        cases hwrote with
        | change hplan _ => exact absurd hplan (Engine.planOf_ne_change_of_create htext _)
        | other hplan hother => exact hcounts.other _ hplan hother
  have hall : ∀ (texts : List String), (∀ text ∈ texts, ∃ rest, text.toList = "CREATE ".toList ++ rest) →
      ∀ {db : Database} {n : Nat}, (perform (execAll texts) db).1 = .ok n → n = 0 := by
    intro texts htexts
    induction texts with
    | nil =>
        intro db n hn
        cases hn
        rfl
    | cons text rest ih =>
        intro db n hn
        rw [List.forall_mem_cons] at htexts
        obtain ⟨first, between, hfirst, hn⟩ := of_perform_bind (Prod.ext hn rfl)
        obtain ⟨others, after, hothers, hn⟩ := of_perform_bind hn
        cases hn
        rw [hexec htexts.1 (congrArg Prod.fst hfirst), ih htexts.2 (congrArg Prod.fst hothers)]
  refine hall _ (fun text htext => ?_) h
  rcases List.mem_cons.1 htext with rfl | htext
  · exact table.exists_createText
  · obtain ⟨index, -, rfl⟩ := List.mem_map.1 htext
    exact index.exists_createText table.name

/-! ## Any steps -/

namespace SessionStep

variable {registry : Registry}

/-- Steps that neither open nor close the connection hand statements to it. -/
theorem reaches_after {steps : List SessionStep} (h : ∀ step ∈ steps, step.isConnection = false) (db : Database) :
    Database.Reaches (fun _ => True) db (after registry steps db) := by
  induction steps generalizing db with
  | nil => exact .refl db
  | cons step rest ih =>
      rw [List.forall_mem_cons] at h
      exact ((scripted registry h.1).reaches db).trans (ih h.2 _)

/-- What is sure of the counters behind any steps, and of each count that is answered then. -/
structure Counts (registry : Registry) (start : Database) (steps : List SessionStep) : Prop where
  /-- On one connection, the total has grown by all rows that the statements of the steps wrote, and the other counter is
  where the last change has left it. -/
  counters : ∀ c, start.live = .ok c → (∀ step ∈ steps, step.isConnection = false) →
    ∃ (statements : List (Purpose × String × List Value)) (log : List (List WrittenRow × List WrittenRow))
      (now : Connection),
      (after registry steps start).issued = start.issued ++ statements.map (fun s => ⟨s.1, s.2.1, s.2.2.length⟩) ∧
      c.Log (statements.map fun s => (s.2.1, s.2.2.map Value.bound)) log ∧
      (after registry steps start).live = .ok now ∧
      now.totalChanges = c.totalChanges + (log.map fun e => e.1.length + e.2.length).sum ∧
      now.changes = (log.getLast?.map fun e => e.1.length).getD c.changes
  exec : ∀ text params, Counted (after registry steps start) text params
    (perform (Session.exec text params) (after registry steps start)).1
  record : ∀ type step, RecordStep.StepCounted registry type step (after registry steps start)
    (perform (step.run registry type) (after registry steps start)).1
  create : ∀ table n, (perform (Session.create table) (after registry steps start)).1 = .ok n → n = 0

end SessionStep

end RecordTables
