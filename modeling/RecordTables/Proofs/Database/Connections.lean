import RecordTables.Proofs.Database.Scripts

/-!
# Connections of a database

A database is connected from the first step that needs its engine until it is closed, whatever else goes wrong.  In
memory a closed database starts anew; what is in a file is there for every connection.
-/

namespace RecordTables

open Engine (Connection Failure Store)
open Session (perform perform_bind perform_bind_error perform_get perform_set perform_modify Scripted Asking)

/-! ## Steps of a session -/

/-- A step of a session on one database. -/
inductive SessionStep where
  | connect
  | close
  | exec (text : String) (params : List Value)
  | query (type : RecordType) (text : String) (params : List Value)
  | create (table : TableDefinition)
  | introspect (name : String)
  | table (type : RecordType)
  | ensure (type : RecordType)
  | record (type : RecordType) (step : RecordStep)

/-- What a step of a session answers. -/
inductive Reply where
  | done
  | count (rows : Nat)
  | records (found : List Datum)
  | created (new : Bool)
  | found (table : Option TableDefinition)
  | answer (a : Answer)

namespace SessionStep

/-- Whether a step does nothing but open or close the connection. -/
def isConnection : SessionStep → Bool
  | .connect => true
  | .close => true
  | _ => false

variable (registry : Registry)

/-- Carries out a step. -/
def run : SessionStep → Session Reply
  | .connect => (fun _ => Reply.done) <$> Session.connect
  | .close => (fun _ => Reply.done) <$> Session.close
  | .exec text params => Reply.count <$> Session.exec text params
  | .query type text params => Reply.records <$> Session.query type text params
  | .create t => Reply.count <$> Session.create t
  | .introspect name => Reply.found <$> Session.introspect name
  | .table type => Reply.found <$> Session.table type
  | .ensure type => Reply.created <$> Session.ensure registry type
  | .record type step => Reply.answer <$> step.run registry type

/-- Whether a step hands work to the engine: a step on records unless something keeps it from asking, and ensuring a
table if the type has one. -/
def Asks : SessionStep → Prop
  | .connect => False
  | .close => False
  | .ensure type => ∃ table, type.definition registry = .ok table
  | .record type step => ¬ RecordStep.Withheld registry type step
  | _ => True

/-- The database after several steps, whatever they answered. -/
def after : List SessionStep → Database → Database
  | [], db => db
  | step :: rest, db => after rest (perform (step.run registry) db).2

variable {registry} {step : SessionStep} {db db' : Database}

theorem after_append (before since : List SessionStep) (db : Database) :
    after registry (before ++ since) db = after registry since (after registry before db) := by
  induction before generalizing db with
  | nil => rfl
  | cons step before ih => exact ih _

theorem scripted (registry : Registry) (h : step.isConnection = false) :
    Scripted (fun _ => True) (step.run registry) := by
  cases step with
  | connect | close => cases h
  | exec text params => exact (Scripted.exec trivial).map _
  | query type text params => exact (Scripted.query type text params).map _
  | create t => exact (Scripted.create t).map _
  | introspect name => exact ((Scripted.introspect name).mono fun _ _ => trivial).map _
  | table type => exact ((Scripted.introspect type.table).mono fun _ _ => trivial).map _
  | ensure type => exact (Scripted.ensure registry type).map _
  | record type step => exact (Scripted.step registry type step).map _

theorem asking (h : step.Asks registry) : Asking (step.run registry) := by
  cases step with
  | connect | close => exact h.elim
  | exec text params => exact (Asking.exec text params).map _
  | query type text params => exact (Asking.query type text params).map _
  | create t => exact (Asking.create t).map _
  | introspect name => exact (Asking.introspect name).map _
  | table type => exact (Asking.introspect type.table).map _
  | ensure type =>
      obtain ⟨table, htable⟩ := h
      exact (Asking.ensure htable).map _
  | record type step =>
      have hplan : ∃ c, step.plan registry type = .ok (some c) := by
        have hasks : ¬ RecordStep.Withheld registry type step := h
        rw [RecordStep.withheld_iff] at hasks
        push Not at hasks
        exact hasks
      obtain ⟨c, hplan⟩ := hplan
      obtain ⟨⟨s, hs⟩, -⟩ := RecordStep.of_plan_some hplan
      refine Asking.map ?_ _
      rw [RecordStep.run_eq]
      exact Asking.lift_bind hplan (Asking.ask hs)

/-- A step that asks for nothing leaves the database as it is. -/
theorem perform_idle (hconnection : step.isConnection = false) (h : ¬ step.Asks registry) :
    (perform (step.run registry) db).2 = db := by
  cases step with
  | connect | close => cases hconnection
  | exec | query | create | introspect | table => exact absurd trivial h
  | ensure type =>
      cases hdefinition : type.definition registry with
      | ok table => exact absurd ⟨table, hdefinition⟩ h
      | error e =>
          have hensure : perform (Session.ensure registry type) db = (.error e, db) :=
            Session.perform_liftM_bind_error hdefinition
          rw [run, map_eq_pure_bind, perform_bind_error hensure]
  | record type step =>
      rw [run, map_eq_pure_bind, RecordStep.run_eq, Session.perform_bind_snd fun _ _ => rfl]
      exact RecordStep.perform_withheld (Classical.not_not.1 h)

end SessionStep

/-! ## Opening and closing -/

namespace Database

variable {db db' : Database} {c after : Connection}

/-- A database whose connection was closed. -/
def closed (db : Database) : Database := { db with connection := none }

/-- The tables that the next step sees. -/
def visible (db : Database) : Except Failure Store := db.live.map Connection.store

/-- Whether the connections of a database undo the changes of a statement that fails. -/
def undoes (db : Database) : Bool := decide (db.location ≠ .memory) || db.options.journalMode != some .off

theorem live_of_closed (h : db.isConnected = false) : db.live = db.openConnection := by
  rw [isConnected, Option.isSome_eq_false_iff, Option.isNone_iff_eq_none] at h
  rw [live, h]

theorem connected_or_opens (h : db.live = .ok c) : db.isConnected = true ∨ ∃ c, db.openConnection = .ok c := by
  cases hconnected : db.isConnected with
  | true => exact .inl rfl
  | false => exact .inr ⟨c, (live_of_closed hconnected).symm.trans h⟩

theorem not_connected_of_live_error {f : Failure} (h : db.live = .error f) : db.isConnected = false := by
  unfold live at h
  unfold isConnected
  split at h
  · cases h
  · rename_i hnone
    rw [hnone]
    rfl

theorem closed_of_not_connected (h : db.isConnected = false) : db.closed = db := by
  rw [isConnected, Option.isSome_eq_false_iff, Option.isNone_iff_eq_none] at h
  rw [closed, ← h]

/-- In memory a connection is opened to nothing, whatever there was. -/
theorem openConnection_of_memory (h : db.location = .memory) :
    db.openConnection = .ok (.ofStore .empty db.options.readOnly (db.options.journalMode != some .off)) := by
  rw [openConnection, h]

theorem seen_closed_of_memory (h : db.location = .memory) :
    db.closed.seen = .ok (.ofStore .empty db.options.readOnly (db.options.journalMode != some .off)) :=
  seen_ok (show db.closed.live = _ from @openConnection_of_memory db.closed h)

/-- The location and the options say how a connection is opened. -/
theorem of_openConnection (h : db.openConnection = .ok c) : c = .ofStore c.store db.options.readOnly db.undoes := by
  unfold openConnection at h
  unfold undoes
  cases hlocation : db.location with
  | memory =>
      rw [hlocation] at h
      cases h
      rfl
  | unreachable path => rw [hlocation] at h; cases h
  | file path =>
      rw [hlocation] at h
      cases hfile : db.file with
      | some store =>
          simp only [hfile] at h
          cases h
          rfl
      | none =>
          simp only [hfile] at h
          split at h
          · rename_i hoptions
            cases h
            rw [(show db.options.readOnly = false by simpa using (Bool.and_eq_true_iff.1 hoptions).2)]
            rfl
          · cases h

/-- What is sure of a database in use: its connection was opened as its options say, and apart from what is in memory,
what the connection sees is in the file. -/
structure Steady (db : Database) : Prop where
  mode : ∀ {c}, db.live = .ok c → c.reset = .ofStore c.store db.options.readOnly db.undoes
  durable : db.location ≠ .memory → db.closed.seen = db.seen

namespace Steady

theorem of_not_connected (h : db.isConnected = false) : Steady db where
  mode hlive := by
    rw [live_of_closed h] at hlive
    exact congrArg Connection.reset (of_openConnection hlive)
  durable _ := by rw [closed_of_not_connected h]

theorem closed (db : Database) : Steady db.closed := of_not_connected rfl

/-- What the engine made of the connection is kept in the file. -/
theorem keep (h : Steady db) (hlive : db.live = .ok c) (hreads : after.readOnly = c.readOnly)
    (hundoes : after.undoes = c.undoes) : Steady (db.keep after) := by
  have hmode : after.reset = .ofStore after.store db.options.readOnly db.undoes := by
    have hbefore := h.mode hlive
    simp only [Connection.reset, Connection.ofStore, Connection.mk.injEq, and_true, true_and] at hbefore ⊢
    rw [hreads, hundoes]
    exact hbefore
  refine ⟨fun hafter => ?_, fun hlocation => ?_⟩
  · rw [live_keep] at hafter
    cases hafter
    exact hmode
  · have hdurable := h.durable hlocation
    rw [seen_ok (live_keep ..), hmode]
    rw [seen_ok hlive] at hdurable
    unfold undoes
    cases hplace : db.location with
    | memory => exact absurd hplace hlocation
    | unreachable path =>
        have hopen : db.closed.live = .error (.cannotOpen path) := by
          show db.closed.openConnection = _
          rw [openConnection, show db.closed.location = db.location from rfl, hplace]
        rw [seen_error hopen] at hdurable
        cases hdurable
    | file path =>
        have hopen : (db.keep after).closed.live = .ok (.ofStore after.store db.options.readOnly true) := by
          show (db.keep after).closed.openConnection = _
          unfold openConnection Database.closed Database.keep
          simp only [hplace]
        rw [seen_ok hopen]
        rfl

/-- A database that was connected can be connected again. -/
theorem reopens (h : Steady db) (hconnected : db.isConnected = true) : ∃ c, db.closed.openConnection = .ok c := by
  by_cases hlocation : db.location = .memory
  · exact ⟨_, @openConnection_of_memory db.closed hlocation⟩
  · obtain ⟨c, hc⟩ := Option.isSome_iff_exists.1 hconnected
    have hlive : db.live = .ok c := by rw [live, hc]
    obtain ⟨f, _, hopen⟩ | ⟨c', _, hopen, _⟩ := live_of_seen_eq (h.durable hlocation)
    · rw [hlive] at hopen
      cases hopen
    · exact ⟨c', hopen⟩

theorem note (h : Steady db) (issued : List Issued) : Steady { db with issued } := ⟨h.mode, h.durable⟩

theorem noted (h : Steady db) (hlive : db.live = .ok c) (issued : Issued) (text : String)
    (parameters : List StoredValue) : Steady (db.noted issued (c.run text parameters).2) := by
  obtain ⟨hreads, hundoes⟩ := c.run_mode text parameters
  exact (h.keep hlive hreads hundoes).note _

/-- What a database in use shows is its tables. -/
theorem seen_eq_of_visible_eq (h : Steady db) (h' : Steady db') (hlocation : db.location = db'.location)
    (hoptions : db.options = db'.options) (hvisible : db.visible = db'.visible) : db.seen = db'.seen := by
  have hundoes : db.undoes = db'.undoes := by rw [undoes, undoes, hlocation, hoptions]
  unfold visible at hvisible
  cases hlive : db.live with
  | error f =>
      cases hlive' : db'.live with
      | error f' =>
          rw [hlive, hlive'] at hvisible
          cases hvisible
          rw [seen_error hlive, seen_error hlive']
      | ok c' => rw [hlive, hlive'] at hvisible; cases hvisible
  | ok c =>
      cases hlive' : db'.live with
      | error f' => rw [hlive, hlive'] at hvisible; cases hvisible
      | ok c' =>
          rw [hlive, hlive'] at hvisible
          have hstore : c.store = c'.store := Except.ok.inj hvisible
          rw [seen_ok hlive, seen_ok hlive', h.mode hlive, h'.mode hlive', hstore, hoptions, hundoes]

end Steady

theorem visible_of_seen (h : db.seen = .ok c) : db.visible = .ok c.store := by
  unfold visible
  cases hlive : db.live with
  | error f => rw [seen_error hlive] at h; cases h
  | ok c' =>
      rw [seen_ok hlive] at h
      cases h
      rfl

theorem visible_eq_of_seen_eq (h : db.seen = db'.seen) : db.visible = db'.visible := by
  unfold visible
  obtain ⟨f, hlive, hlive'⟩ | ⟨c, c', hlive, hlive', hreset⟩ := live_of_seen_eq h
  · rw [hlive, hlive']
  · rw [hlive, hlive']
    exact congrArg Except.ok (Connection.reset_eq_iff.1 hreset).1

end Database

namespace Session

variable {db : Database} {c : Connection} {f : Failure}

/-- Connecting opens a connection unless there is one. -/
theorem perform_connect (hlive : db.live = .ok c) :
    perform connect db = (.ok (), if db.isConnected then db else db.keep c) := by
  unfold Database.live at hlive
  unfold Database.isConnected
  cases hconnection : db.connection with
  | some kept =>
      have hfound : perform connection db = (.ok kept, db) := by
        unfold connection
        rw [perform_bind perform_get, hconnection]
        rfl
      exact perform_bind hfound
  | none =>
      rw [hconnection] at hlive
      have hopened : perform connection db = (.ok c, db.keep c) := by
        unfold connection
        rw [perform_bind perform_get, hconnection]
        simp only [hlive]
        exact perform_bind perform_set
      exact perform_bind hopened

theorem perform_connect_error (hlive : db.live = .error f) :
    perform connect db = (.error (engineError "" f), db) := by
  have hconnection : db.connection = none := by
    unfold Database.live at hlive
    split at hlive
    · cases hlive
    · assumption
  rw [Database.live, hconnection] at hlive
  have hfails : perform connection db = (.error (engineError "" f), db) := by
    unfold connection
    rw [perform_bind perform_get, hconnection]
    simp only [hlive]
    rfl
  exact perform_bind_error hfails

end Session

namespace SessionStep

open Database (Steady)

variable {registry : Registry} {step : SessionStep} {db db' : Database} {c : Connection}

/-! ## One step -/

theorem perform_run_connect (hlive : db.live = .ok c) :
    perform (run registry .connect) db = (.ok .done, if db.isConnected then db else db.keep c) := by
  rw [run, map_eq_pure_bind, perform_bind (Session.perform_connect hlive)]
  rfl

theorem perform_run_connect_error {f : Failure} (hlive : db.live = .error f) :
    perform (run registry .connect) db = (.error (Session.engineError "" f), db) := by
  rw [run, map_eq_pure_bind, perform_bind_error (Session.perform_connect_error hlive)]

theorem perform_run_close : perform (run registry .close) db = (.ok .done, db.closed) := rfl

/-- A step leaves a database where it is, and in order. -/
theorem steady_run (h : Steady db) (registry : Registry) (step : SessionStep) :
    Steady (perform (step.run registry) db).2 ∧ (perform (step.run registry) db).2.location = db.location ∧
      (perform (step.run registry) db).2.options = db.options := by
  by_cases hconnection : step.isConnection = false
  · have hreaches := (scripted registry hconnection).reaches db
    exact ⟨hreaches.keeps (fun hlive _ h => h.noted hlive _ _ _) h, hreaches.place⟩
  · cases step with
    | close => exact ⟨.closed db, rfl, rfl⟩
    | connect =>
        cases hlive : db.live with
        | error f =>
            rw [perform_run_connect_error hlive]
            exact ⟨h, rfl, rfl⟩
        | ok c =>
            rw [perform_run_connect hlive]
            split
            · exact ⟨h, rfl, rfl⟩
            · exact ⟨h.keep hlive rfl rfl, rfl, rfl⟩
    | _ => exact absurd rfl hconnection

/-- Connecting changes nothing that can be seen. -/
theorem seen_run_connect (registry : Registry) (db : Database) :
    (perform (run registry .connect) db).2.seen = db.seen := by
  cases hlive : db.live with
  | error f => rw [perform_run_connect_error hlive]
  | ok c =>
      rw [perform_run_connect hlive]
      split
      · rfl
      · rw [Database.seen_ok (Database.live_keep ..), Database.seen_ok hlive]

/-- Databases at one place that look alike answer a step alike, and look alike after it. -/
theorem alike_run (registry : Registry) (step : SessionStep) (h : Steady db) (h' : Steady db')
    (hlocation : db.location = db'.location) (hoptions : db.options = db'.options) (hseen : db.seen = db'.seen) :
    (perform (step.run registry) db).1 = (perform (step.run registry) db').1 ∧
      (perform (step.run registry) db).2.seen = (perform (step.run registry) db').2.seen := by
  by_cases hconnection : step.isConnection = false
  · exact (scripted registry hconnection).alike hseen
  · cases step with
    | close =>
        rw [perform_run_close, perform_run_close]
        refine ⟨rfl, ?_⟩
        show db.closed.seen = db'.closed.seen
        by_cases hmemory : db.location = .memory
        · rw [Database.seen_closed_of_memory hmemory, Database.seen_closed_of_memory (hlocation ▸ hmemory), hoptions]
        · rw [h.durable hmemory, h'.durable (hlocation ▸ hmemory)]
          exact hseen
    | connect =>
        refine ⟨?_, by rw [seen_run_connect, seen_run_connect, hseen]⟩
        obtain ⟨f, hlive, hlive'⟩ | ⟨c, c', hlive, hlive', -⟩ := Database.live_of_seen_eq hseen
        · rw [perform_run_connect_error hlive, perform_run_connect_error hlive']
        · rw [perform_run_connect hlive, perform_run_connect hlive']
    | _ => exact absurd rfl hconnection

/-- Apart from what is in memory, connecting and closing change nothing that can be seen. -/
theorem seen_run_connection (registry : Registry) (h : Steady db) (hlocation : db.location ≠ .memory)
    (hconnection : step.isConnection = true) :
    (perform (step.run registry) db).2.seen = db.seen := by
  cases step with
  | close => exact h.durable hlocation
  | connect => exact seen_run_connect registry db
  | _ => cases hconnection

/-! ## What a step does to the connection -/

/-- What is sure of a step that was carried out on a database, whatever its reply is. -/
structure Follows (registry : Registry) (step : SessionStep) (db : Database) (reply : Outcome Reply)
    (after : Database) : Prop where
  connected_iff : after.isConnected = true ↔ step ≠ .close ∧
    (db.isConnected = true ∨ ((step = .connect ∨ step.Asks registry) ∧ ∃ c, db.openConnection = .ok c))
  /-- Work is handed over by the steps that ask, if there is a connection for it. -/
  handed_iff : db.issued.length < after.issued.length ↔ step.Asks registry ∧ ∃ c, db.live = .ok c
  /-- If no connection can be opened, nothing is left of the attempt. -/
  unopened : ∀ f, db.isConnected = false → db.openConnection = .error f → step = .connect ∨ step.Asks registry →
    reply = .error (Session.engineError "" f) ∧ after = db
  connect : step = .connect → db.isConnected = true → reply = .ok .done ∧ after = db
  close : step = .close → reply = .ok .done ∧ (db.isConnected = false → after = db)
  reopens : step = .close → db.isConnected = true → ∃ c, after.openConnection = .ok c
  /-- The tables after a step are those that its statements made of the tables before. -/
  left : ∀ c, step.isConnection = false → db.live = .ok c → ∃ statements : List (Purpose × String × List Value),
    after.issued = db.issued ++ statements.map (fun s => ⟨s.1, s.2.1, s.2.2.length⟩) ∧
      after.visible = .ok (c.runAll (statements.map fun s => (s.2.1, s.2.2.map Value.bound))).store

theorem connected_run (hasks : step.Asks registry) : (perform (step.run registry) db).2.isConnected = true ↔
    db.isConnected = true ∨ ∃ c, db.openConnection = .ok c := by
  have hconnection : step.isConnection = false := by
    cases step with
    | connect | close => exact hasks.elim
    | _ => rfl
  cases hlive : db.live with
  | error f =>
      have hclosed : db.isConnected = false := Database.not_connected_of_live_error hlive
      rw [(asking hasks).unopened hlive]
      rw [Database.live_of_closed hclosed] at hlive
      refine ⟨.inl, ?_⟩
      rintro (h | ⟨c, hc⟩)
      · exact h
      · rw [hlive] at hc; cases hc
  | ok c =>
      have hgrown := (asking hasks).handed hlive
      refine iff_of_true ?_ (Database.connected_or_opens hlive)
      rcases ((scripted registry hconnection).reaches db).eq_or_connected with heq | ⟨hconnected, -⟩
      · rw [heq] at hgrown
        exact absurd hgrown (Nat.lt_irrefl _)
      · exact hconnected

theorem follows_connect (registry : Registry) (db : Database) : Follows registry .connect db
    (perform (run registry .connect) db).1 (perform (run registry .connect) db).2 := by
  have hasks : ¬ Asks registry .connect := id
  refine
    { connected_iff := ?_
      handed_iff := iff_of_false ?_ fun h => hasks h.1
      unopened := ?_
      connect := ?_
      close := fun heq => by cases heq
      reopens := fun heq => by cases heq
      left := fun _ heq => by cases heq }
  · cases hlive : db.live with
    | error f =>
        have hnot := Database.not_connected_of_live_error hlive
        rw [perform_run_connect_error hlive, Database.live_of_closed hnot] at *
        simp [hnot, hlive]
    | ok c =>
        rw [perform_run_connect hlive]
        refine iff_of_true ?_ ⟨by simp, (Database.connected_or_opens hlive).imp_right fun hopen => ⟨.inl rfl, hopen⟩⟩
        split
        · assumption
        · rfl
  · cases hlive : db.live with
    | error f =>
        rw [perform_run_connect_error hlive]
        exact Nat.lt_irrefl _
    | ok c =>
        rw [perform_run_connect hlive]
        split <;> exact Nat.lt_irrefl _
  · intro f hnot hopen _
    rw [← Database.live_of_closed hnot] at hopen
    rw [perform_run_connect_error hopen]
    exact ⟨rfl, rfl⟩
  · intro _ hconnected
    cases hlive : db.live with
    | error f =>
        rw [Database.not_connected_of_live_error hlive] at hconnected
        cases hconnected
    | ok c =>
        rw [perform_run_connect hlive, if_pos hconnected]
        exact ⟨rfl, rfl⟩

theorem follows_close (h : Steady db) : Follows registry .close db (perform (run registry .close) db).1
    (perform (run registry .close) db).2 where
  connected_iff := iff_of_false (by simp [perform_run_close, Database.closed, Database.isConnected]) fun h => h.1 rfl
  handed_iff := iff_of_false (Nat.lt_irrefl _) fun h => h.1
  unopened := fun _ _ _ hstep => by
    rcases hstep with heq | hasks
    · cases heq
    · exact hasks.elim
  connect := fun heq => by cases heq
  close := fun _ => ⟨rfl, Database.closed_of_not_connected⟩
  reopens := fun _ hconnected => h.reopens hconnected
  left := fun _ heq => by cases heq

theorem follows_engine (db : Database) (hconnection : step.isConnection = false) :
    Follows registry step db (perform (step.run registry) db).1 (perform (step.run registry) db).2 := by
  have hscripted := (scripted registry hconnection).reaches db
  have hnone : step ≠ .connect ∧ step ≠ .close := by
    constructor <;> rintro rfl <;> cases hconnection
  by_cases hasks : step.Asks registry
  · refine
      { connected_iff := (connected_run hasks).trans ?_
        handed_iff := ?_
        unopened := fun f hnot hopen _ => ?_
        connect := fun heq => absurd heq hnone.1
        close := fun heq => absurd heq hnone.2
        reopens := fun heq => absurd heq hnone.2
        left := fun c _ hlive => ?_ }
    · simp [hnone, hasks]
    · cases hlive : db.live with
      | error f =>
          rw [(asking hasks).unopened hlive]
          exact iff_of_false (Nat.lt_irrefl _) (by simp)
      | ok c => exact iff_of_true ((asking hasks).handed hlive) ⟨hasks, c, rfl⟩
    · rw [← Database.live_of_closed hnot] at hopen
      rw [(asking hasks).unopened hopen]
      exact ⟨rfl, rfl⟩
    · obtain ⟨statements, hissued, hafter⟩ := hscripted.runAll hlive
      exact ⟨statements, hissued, by rw [Database.visible, hafter]; rfl⟩
  · rw [show (perform (step.run registry) db).2 = db from perform_idle hconnection hasks]
    exact
      { connected_iff := by simp [hnone, hasks]
        handed_iff := iff_of_false (Nat.lt_irrefl _) fun h => hasks h.1
        unopened := fun _ _ _ hstep => (hstep.elim hnone.1 hasks).elim
        connect := fun heq => absurd heq hnone.1
        close := fun heq => absurd heq hnone.2
        reopens := fun heq => absurd heq hnone.2
        left := fun c _ hlive => ⟨[], (List.append_nil _).symm, by rw [Database.visible, hlive]; rfl⟩ }

/-- Every step on a database in use is followed, whatever it is. -/
theorem follows (h : Steady db) (step : SessionStep) : Follows registry step db (perform (step.run registry) db).1
    (perform (step.run registry) db).2 := by
  cases step with
  | connect => exact follows_connect registry db
  | close => exact follows_close h
  | _ => exact follows_engine db rfl

/-! ## Many steps -/

theorem steady_after (h : Steady db) (registry : Registry) (steps : List SessionStep) :
    Steady (after registry steps db) ∧ (after registry steps db).location = db.location ∧
      (after registry steps db).options = db.options := by
  induction steps generalizing db with
  | nil => exact ⟨h, rfl, rfl⟩
  | cons step rest ih =>
      obtain ⟨hstep, hlocation, hoptions⟩ := steady_run h registry step
      obtain ⟨hrest, hlocation', hoptions'⟩ := ih hstep
      exact ⟨hrest, hlocation'.trans hlocation, hoptions'.trans hoptions⟩

/-- What looks alike at the beginning looks alike after the same steps. -/
theorem seen_after (h : Steady db) (h' : Steady db') (hlocation : db.location = db'.location)
    (hoptions : db.options = db'.options) (hseen : db.seen = db'.seen) (steps : List SessionStep) :
    (after registry steps db).seen = (after registry steps db').seen := by
  induction steps generalizing db db' with
  | nil => exact hseen
  | cons step rest ih =>
      obtain ⟨hstep, hplace, hset⟩ := steady_run h registry step
      obtain ⟨hstep', hplace', hset'⟩ := steady_run h' registry step
      exact ih hstep hstep' (by rw [hplace, hplace', hlocation]) (by rw [hset, hset', hoptions])
        (alike_run registry step h h' hlocation hoptions hseen).2

/-- What several steps answered, each with its reply. -/
def transcript (registry : Registry) : List SessionStep → Database → List (SessionStep × Outcome Reply)
  | [], _ => []
  | step :: rest, db =>
      (step, (perform (step.run registry) db).1) :: transcript registry rest (perform (step.run registry) db).2

/-- Apart from what is in memory, the other steps are answered as if the connection had never been touched. -/
theorem transcript_filter (registry : Registry) (h : Steady db) (h' : Steady db') (hmemory : db.location ≠ .memory)
    (hlocation : db.location = db'.location) (hoptions : db.options = db'.options) (hseen : db.seen = db'.seen)
    (steps : List SessionStep) :
    (transcript registry steps db).filter (fun e => !e.1.isConnection) =
        transcript registry (steps.filter fun s => !s.isConnection) db' ∧
      (after registry steps db).seen = (after registry (steps.filter fun s => !s.isConnection) db').seen := by
  induction steps generalizing db db' with
  | nil => exact ⟨rfl, hseen⟩
  | cons step rest ih =>
      obtain ⟨hstep, hplace, hset⟩ := steady_run h registry step
      have hmemory' : (perform (step.run registry) db).2.location ≠ .memory := hplace ▸ hmemory
      cases hconnection : step.isConnection with
      | true =>
          have hkept := seen_run_connection registry h hmemory hconnection
          have hrest := ih hstep h' hmemory' (hplace.trans hlocation) (hset.trans hoptions) (hkept.trans hseen)
          simpa only [transcript, after, List.filter_cons, hconnection, Bool.not_true, Bool.false_eq_true, if_false]
            using hrest
      | false =>
          obtain ⟨hstep', hplace', hset'⟩ := steady_run h' registry step
          obtain ⟨hreply, hlook⟩ := alike_run registry step h h' hlocation hoptions hseen
          have hrest := ih hstep hstep' hmemory' (by rw [hplace, hplace', hlocation])
            (by rw [hset, hset', hoptions]) hlook
          simp only [transcript, after, List.filter_cons, hconnection, Bool.not_false, if_true, hreply, hrest.1]
          exact ⟨trivial, hrest.2⟩

/-- What is sure of a database on which several steps were carried out. -/
structure Used (registry : Registry) (start : Database) (steps : List SessionStep) : Prop where
  /-- Any step may be the next one. -/
  follows : ∀ step, Follows registry step (after registry steps start)
    (perform (step.run registry) (after registry steps start)).1
    (perform (step.run registry) (after registry steps start)).2
  /-- A step is answered, and leaves tables, by the tables that it sees. -/
  sees : ∀ others step, (after registry steps start).visible = (after registry others start).visible →
    (perform (step.run registry) (after registry steps start)).1 =
        (perform (step.run registry) (after registry others start)).1 ∧
      (after registry (steps ++ [step]) start).visible = (after registry (others ++ [step]) start).visible
  emptied : start.location = .memory → (after registry (steps ++ [.close]) start).visible = .ok .empty
  /-- In memory only the steps since the last one that closed matter. -/
  forgotten : start.location = .memory → ∀ before since, steps = before ++ .close :: since →
    (after registry steps start).visible = (after registry since start).visible
  /-- In a file all steps matter but those that open or close. -/
  kept : start.location ≠ .memory →
    (after registry steps start).visible = (after registry (steps.filter fun s => !s.isConnection) start).visible

end SessionStep

end RecordTables
