import RecordTables.Proofs.Database.Issuing
import RecordTables.Proofs.Engine.Counters

/-!
# Scripts

Every step of a session is a script: it reads rows and executes statements, one after the other, and what it hands over
next depends on the answers alone.  So what it does to a database is what the statements make of its connection, and two
databases that show the same tables cannot be told apart by it.
-/

namespace RecordTables

open Engine (Connection Failure)

namespace Database

variable {P : Issued → Prop} {db db' after : Database} {c : Connection}

/-- What a script can see of a database: the connection that there is for it, whatever its counters are. -/
def seen (db : Database) : Except Failure Connection := db.live.map Connection.reset

theorem seen_ok (h : db.live = .ok c) : db.seen = .ok c.reset := by
  rw [seen, h]
  rfl

theorem seen_error {f : Failure} (h : db.live = .error f) : db.seen = .error f := by
  rw [seen, h]
  rfl

/-- Databases that look alike have connections that differ at most in the counters, or fail to open alike. -/
theorem live_of_seen_eq (h : db.seen = db'.seen) :
    (∃ f, db.live = .error f ∧ db'.live = .error f) ∨
      ∃ c c', db.live = .ok c ∧ db'.live = .ok c' ∧ c.reset = c'.reset := by
  cases hlive : db.live with
  | error f =>
      cases hlive' : db'.live with
      | error f' =>
          rw [seen_error hlive, seen_error hlive'] at h
          cases h
          exact .inl ⟨_, rfl, rfl⟩
      | ok c' => rw [seen_error hlive, seen_ok hlive'] at h; cases h
  | ok c =>
      cases hlive' : db'.live with
      | error f' => rw [seen_ok hlive, seen_error hlive'] at h; cases h
      | ok c' =>
          rw [seen_ok hlive, seen_ok hlive'] at h
          exact .inr ⟨c, c', rfl, rfl, Except.ok.inj h⟩

/-- A database after statements of a kind were handed over, one after the other, whatever became of them. -/
inductive Reaches (P : Issued → Prop) : Database → Database → Prop where
  | refl (db : Database) : Reaches P db db
  | step {db after : Database} {c : Connection} {purpose : Purpose} {text : String} {params : List Value}
      (hlive : db.live = .ok c) (hkind : P ⟨purpose, text, params.length⟩)
      (h : Reaches P (db.noted ⟨purpose, text, params.length⟩ (c.run text (params.map Value.bound)).2) after) :
      Reaches P db after

namespace Reaches

theorem trans (h : Reaches P db db') (h' : Reaches P db' after) : Reaches P db after := by
  induction h with
  | refl db => exact h'
  | step hlive hkind _ ih => exact .step hlive hkind (ih h')

/-- What is noted of a database is what was handed over, and nothing is forgotten. -/
theorem issued (h : Reaches P db after) : ∃ new, after.issued = db.issued ++ new ∧ ∀ i ∈ new, P i := by
  induction h with
  | refl db => exact ⟨[], (List.append_nil _).symm, List.forall_mem_nil _⟩
  | @step db after c purpose text params hlive hkind _ ih =>
      obtain ⟨new, hnew, hall⟩ := ih
      refine ⟨⟨purpose, text, params.length⟩ :: new, ?_, List.forall_mem_cons.2 ⟨hkind, hall⟩⟩
      rw [hnew]
      exact List.append_assoc ..

theorem length_issued (h : Reaches P db after) : db.issued.length ≤ after.issued.length := by
  obtain ⟨new, hnew, -⟩ := h.issued
  rw [hnew, List.length_append]
  exact Nat.le_add_right ..

/-- A database is what it was, or else a connection is open and something was noted. -/
theorem eq_or_connected (h : Reaches P db after) :
    after = db ∨ (after.isConnected = true ∧ db.issued.length < after.issued.length) := by
  induction h with
  | refl db => exact .inl rfl
  | @step db after c purpose text params hlive hkind hrest ih =>
      have hnoted : (db.noted ⟨purpose, text, params.length⟩
          (c.run text (params.map Value.bound)).2).issued.length = db.issued.length + 1 :=
        List.length_append ..
      have hgrown := hrest.length_issued
      refine .inr ⟨?_, by omega⟩
      rcases ih with rfl | ⟨hconnected, -⟩
      · rfl
      · exact hconnected

/-- What the connection has become is what the statements that were handed over made of it. -/
theorem runAll (h : Reaches P db after) (hlive : db.live = .ok c) : ∃ statements : List (Purpose × String × List Value),
    after.issued = db.issued ++ statements.map (fun s => ⟨s.1, s.2.1, s.2.2.length⟩) ∧
      after.live = .ok (c.runAll (statements.map fun s => (s.2.1, s.2.2.map Value.bound))) := by
  induction h generalizing c with
  | refl db => exact ⟨[], (List.append_nil _).symm, hlive⟩
  | @step db after c' purpose text params hlive' hkind _ ih =>
      obtain rfl := Except.ok.inj (hlive.symm.trans hlive')
      obtain ⟨statements, hissued, hafter⟩ := ih (live_noted ..)
      refine ⟨(purpose, text, params) :: statements, ?_, hafter⟩
      rw [hissued]
      exact List.append_assoc ..

theorem place (h : Reaches P db after) : after.location = db.location ∧ after.options = db.options := by
  induction h with
  | refl db => exact ⟨rfl, rfl⟩
  | step _ _ _ ih => exact ih

/-- What a handed-over statement keeps, a script keeps. -/
theorem keeps {Q : Database → Prop} (hstep : ∀ {db : Database} {c : Connection} {purpose : Purpose} {text : String}
      {params : List Value}, db.live = .ok c → P ⟨purpose, text, params.length⟩ → Q db →
        Q (db.noted ⟨purpose, text, params.length⟩ (c.run text (params.map Value.bound)).2))
    (h : Reaches P db after) (hdb : Q db) : Q after := by
  induction h with
  | refl db => exact hdb
  | step hlive hkind _ ih => exact ih (hstep hlive hkind hdb)

end Reaches

end Database

namespace Session

open Database (Reaches)

variable {P P' : Issued → Prop} {α β : Type} {db db' : Database}

/-- A computation that hands over statements of a kind, and learns nothing of the database but their answers. -/
inductive Scripted (P : Issued → Prop) : {α : Type} → Session α → Prop where
  | lift {α : Type} (x : Outcome α) : Scripted P (liftM x : Session α)
  | exec {text : String} {params : List Value} (hkind : P ⟨.exec, text, params.length⟩) : Scripted P (exec text params)
  | rows {text : String} {params : List Value} (hkind : P ⟨.query, text, params.length⟩) : Scripted P (rows text params)
  | bind {α β : Type} {x : Session α} {f : α → Session β} (hx : Scripted P x) (hf : ∀ a, Scripted P (f a)) :
      Scripted P (x >>= f)

/-- Whether a statement asks the catalog. -/
def IsCatalogQuery (i : Issued) : Prop :=
  i.purpose = .query ∧ i.text ∈ [Catalog.columnsText, Catalog.indexesText, Catalog.partsText]

/-! ## The steps of a session -/

namespace Scripted

theorem pure (a : α) : Scripted P (Pure.pure a : Session α) := .lift (.ok a)

theorem throw (e : Error) : Scripted P (MonadExcept.throw e : Session α) := .lift (.error e)

theorem mono (himp : ∀ i, P i → P' i) {x : Session α} (h : Scripted P x) : Scripted P' x := by
  induction h with
  | lift x => exact .lift x
  | exec hkind => exact .exec (himp _ hkind)
  | rows hkind => exact .rows (himp _ hkind)
  | bind _ _ ihx ihf => exact .bind ihx ihf

theorem map {x : Session α} (h : Scripted P x) (f : α → β) : Scripted P (f <$> x) := by
  rw [map_eq_pure_bind]
  exact h.bind fun a => pure _

theorem mapM_lift {f : α → Outcome β} (xs : List α) : Scripted P (xs.mapM fun x => (liftM (f x) : Session β)) := by
  induction xs with
  | nil => exact pure []
  | cons x xs ih =>
      rw [List.mapM_cons]
      exact (lift _).bind fun _ => ih.bind fun _ => pure _

theorem execAll {texts : List String} (h : ∀ text ∈ texts, P ⟨.exec, text, 0⟩) : Scripted P (execAll texts) := by
  induction texts with
  | nil => exact pure 0
  | cons text rest ih =>
      rw [List.forall_mem_cons] at h
      exact (exec h.1).bind fun _ => (ih h.2).bind fun _ => pure _

theorem indexParts (h : P ⟨.query, Catalog.partsText, 1⟩) (indexes : List CatalogIndex) :
    Scripted P (indexParts indexes) := by
  induction indexes with
  | nil => exact pure []
  | cons i rest ih => exact (rows h).bind fun _ => (mapM_lift _).bind fun _ => ih.bind fun _ => pure _

/-- Introspection asks for the columns first, and then does nothing but ask the catalog. -/
theorem introspect_eq_bind (name : String) :
    ∃ f, Session.introspect name = Session.rows Catalog.columnsText [.text name] >>= f ∧
      ∀ listed, Scripted IsCatalogQuery (f listed) := by
  have hkind : ∀ text ∈ [Catalog.columnsText, Catalog.indexesText, Catalog.partsText],
      IsCatalogQuery ⟨.query, text, 1⟩ := fun text htext => ⟨rfl, htext⟩
  refine ⟨_, rfl, fun listed => (mapM_lift _).bind fun columns => ?_⟩
  split
  · exact pure none
  · refine (rows (hkind _ (by simp))).bind fun _ => (mapM_lift _).bind fun _ => ?_
    exact (indexParts (hkind _ (by simp)) _).bind fun _ => (lift _).bind fun _ => pure _

theorem introspect (name : String) : Scripted IsCatalogQuery (introspect name) := by
  obtain ⟨f, heq, hrest⟩ := introspect_eq_bind name
  rw [heq]
  exact (rows ⟨rfl, by simp⟩).bind hrest

theorem create (table : TableDefinition) : Scripted (fun _ => True) (create table) := execAll fun _ _ => trivial

theorem query (type : RecordType) (text : String) (params : List Value) :
    Scripted (fun _ => True) (query type text params) :=
  (rows trivial).bind fun _ => mapM_lift _

/-- Once the definition of a type is known, its table is looked for first. -/
theorem ensure_eq_bind (registry : Registry) (type : RecordType) :
    ∃ f : TableDefinition → Option TableDefinition → Session Bool,
      Session.ensure registry type = liftM (type.definition registry) >>= (fun expected =>
        Session.introspect expected.name >>= f expected) ∧
      ∀ expected found, Scripted (fun _ => True) (f expected found) := by
  refine ⟨_, rfl, fun expected found => ?_⟩
  cases found with
  | none => exact (create expected).bind fun _ => pure true
  | some live =>
      dsimp only
      split
      · exact pure false
      · exact throw _

theorem ensure (registry : Registry) (type : RecordType) : Scripted (fun _ => True) (ensure registry type) := by
  obtain ⟨f, heq, hrest⟩ := ensure_eq_bind registry type
  rw [heq]
  exact (lift _).bind fun expected => ((introspect expected.name).mono fun _ _ => trivial).bind (hrest expected)

theorem ask (type : RecordType) (command : Option Sql.Command) :
    Scripted (fun _ => True) (RecordStep.ask type command) := by
  unfold RecordStep.ask
  split
  · exact pure _
  · split
    · exact pure _
    · split
      · exact (query ..).bind fun _ => pure _
      · exact (exec trivial).bind fun _ => pure _

theorem step (registry : Registry) (type : RecordType) (step : RecordStep) :
    Scripted (fun _ => True) (step.run registry type) := by
  rw [RecordStep.run_eq]
  exact (lift _).bind (ask type)

/-! ## What scripts do -/

/-- What a script leaves behind is what its statements make of the database. -/
theorem reaches {x : Session α} (h : Scripted P x) (db : Database) : Reaches P db (perform x db).2 := by
  -- What follows the statement itself looks at its answer only.
  have hrun : ∀ {purpose : Purpose} {text : String} {params : List Value} {γ : Type}
      {f : Connection × Engine.Result × Connection → Session γ}, P ⟨purpose, text, params.length⟩ →
      (∀ a db, (perform (f a) db).2 = db) → ∀ db, Reaches P db (perform (run purpose text params >>= f) db).2 := by
    intro purpose text params γ f hkind hrest db
    rw [perform_bind_snd hrest]
    cases hlive : db.live with
    | error e =>
        rw [perform_run_unopened hlive]
        exact .refl db
    | ok c =>
        refine .step hlive hkind ?_
        rcases hresult : c.run text (params.map Value.bound) with ⟨result, after⟩
        cases result with
        | error e =>
            rw [perform_run_error hlive hresult]
            exact .refl _
        | ok result =>
            rw [perform_run hlive hresult]
            exact .refl _
  induction h generalizing db with
  | lift x =>
      rw [perform_liftM]
      exact .refl db
  | exec hkind => exact hrun hkind (fun _ _ => rfl) db
  | rows hkind => exact hrun hkind (fun _ _ => rfl) db
  | @bind α β x f hx hf ihx ihf =>
      have hfirst := ihx db
      rcases hperform : perform x db with ⟨result, between⟩
      rw [hperform] at hfirst
      cases result with
      | error e =>
          rw [perform_bind_error hperform]
          exact hfirst
      | ok a =>
          rw [perform_bind hperform]
          exact hfirst.trans (ihf a between)

/-- Databases that look alike answer a statement alike, and look alike after it. -/
theorem alike_run {purpose : Purpose} {text : String} {params : List Value}
    (answer : Connection × Engine.Result × Connection → α)
    (hanswer : ∀ {c c' after after' : Connection} {result : Engine.Result},
      c.changedBetween after = c'.changedBetween after' → answer (c, result, after) = answer (c', result, after'))
    (hseen : db.seen = db'.seen) :
    (perform (run purpose text params >>= fun p => Pure.pure (answer p)) db).1 =
        (perform (run purpose text params >>= fun p => Pure.pure (answer p)) db').1 ∧
      (perform (run purpose text params >>= fun p => Pure.pure (answer p)) db).2.seen =
        (perform (run purpose text params >>= fun p => Pure.pure (answer p)) db').2.seen := by
  obtain ⟨f, hlive, hlive'⟩ | ⟨c, c', hlive, hlive', hreset⟩ := Database.live_of_seen_eq hseen
  · rw [perform_bind_error (perform_run_unopened hlive), perform_bind_error (perform_run_unopened hlive')]
    exact ⟨rfl, hseen⟩
  · obtain ⟨hresult, hafter, hcount⟩ := Connection.run_of_reset_eq hreset text (params.map Value.bound)
    rcases hrun : c.run text (params.map Value.bound) with ⟨result, after⟩
    rcases hrun' : c'.run text (params.map Value.bound) with ⟨result', after'⟩
    rw [hrun, hrun'] at hresult hafter hcount
    obtain rfl : result = result' := hresult
    have hlook : ∀ i, (db.noted i after).seen = (db'.noted i after').seen := by
      intro i
      rw [Database.seen_ok (Database.live_noted ..), Database.seen_ok (Database.live_noted ..)]
      exact congrArg _ hafter
    cases result with
    | error f =>
        rw [perform_bind_error (perform_run_error hlive hrun), perform_bind_error (perform_run_error hlive' hrun')]
        exact ⟨rfl, hlook _⟩
    | ok result =>
        rw [perform_bind (perform_run hlive hrun), perform_bind (perform_run hlive' hrun')]
        exact ⟨congrArg Except.ok (hanswer hcount), hlook _⟩

/-- Databases that look alike answer a script alike, and look alike after it. -/
theorem alike {x : Session α} (h : Scripted P x) (hseen : db.seen = db'.seen) :
    (perform x db).1 = (perform x db').1 ∧ (perform x db).2.seen = (perform x db').2.seen := by
  induction h generalizing db db' with
  | lift x =>
      rw [perform_liftM, perform_liftM]
      exact ⟨rfl, hseen⟩
  | exec hkind =>
      exact alike_run (fun p => p.1.changedBetween p.2.2) (fun hcount => hcount) hseen
  | rows hkind =>
      exact alike_run (fun p => records p.2.1) (fun _ => rfl) hseen
  | bind hx hf ihx ihf =>
      rename_i x f
      obtain ⟨hanswer, hbetween⟩ := ihx hseen
      rcases hperform : perform x db with ⟨result, between⟩
      rcases hperform' : perform x db' with ⟨result', between'⟩
      rw [hperform, hperform'] at hanswer hbetween
      obtain rfl : result = result' := hanswer
      cases result with
      | error e =>
          rw [perform_bind_error hperform, perform_bind_error hperform']
          exact ⟨rfl, hbetween⟩
      | ok a =>
          rw [perform_bind hperform, perform_bind hperform']
          exact ihf a hbetween

end Scripted

/-! ## Steps that ask -/

/-- A step that hands over a statement first of all, whatever the database is; without a connection nothing comes of
it. -/
structure Asking (x : Session α) : Prop where
  unopened : ∀ {db : Database} {f : Failure}, db.live = .error f → perform x db = (.error (engineError "" f), db)
  handed : ∀ {db : Database} {c : Connection}, db.live = .ok c → db.issued.length < (perform x db).2.issued.length

namespace Asking

theorem bind {x : Session α} {f : α → Session β} (hx : Asking x) (hf : ∀ a, Scripted P (f a)) : Asking (x >>= f) where
  unopened hlive := perform_bind_error (hx.unopened hlive)
  handed {db c} hlive := by
    have hfirst := hx.handed hlive
    rcases hperform : perform x db with ⟨result, between⟩
    rw [hperform] at hfirst
    cases result with
    | error e =>
        rw [perform_bind_error hperform]
        exact hfirst
    | ok a =>
        rw [perform_bind hperform]
        exact Nat.lt_of_lt_of_le hfirst ((hf a).reaches between).length_issued

theorem lift_bind {x : Outcome α} {f : α → Session β} {a : α} (h : x = .ok a) (hf : Asking (f a)) :
    Asking (liftM x >>= f) where
  unopened hlive := (perform_liftM_bind h).trans (hf.unopened hlive)
  handed hlive := by
    rw [perform_liftM_bind h]
    exact hf.handed hlive

theorem map {x : Session α} (hx : Asking x) (f : α → β) : Asking (f <$> x) := by
  rw [map_eq_pure_bind]
  exact hx.bind (P := fun _ => True) fun _ => .pure _

theorem run (purpose : Purpose) (text : String) (params : List Value) : Asking (run purpose text params) where
  unopened := perform_run_unopened
  handed hlive := by
    rw [issued_run hlive, List.length_append]
    exact Nat.lt_succ_self _

theorem exec (text : String) (params : List Value) : Asking (exec text params) where
  unopened hlive := perform_bind_error (perform_run_unopened hlive)
  handed hlive := by
    unfold Session.exec
    rw [perform_bind_snd fun _ _ => rfl]
    exact (run ..).handed hlive

theorem rows (text : String) (params : List Value) : Asking (rows text params) where
  unopened hlive := perform_bind_error (perform_run_unopened hlive)
  handed hlive := by
    unfold Session.rows
    rw [perform_bind_snd fun _ _ => rfl]
    exact (run ..).handed hlive

theorem query (type : RecordType) (text : String) (params : List Value) : Asking (query type text params) :=
  (rows text params).bind (P := fun _ => True) fun _ => .mapM_lift _

theorem create (table : TableDefinition) : Asking (create table) :=
  (exec table.createText []).bind (P := fun _ => True) fun _ =>
    (Scripted.execAll fun _ _ => trivial).bind fun _ => .pure _

theorem introspect (name : String) : Asking (introspect name) := by
  obtain ⟨f, heq, hrest⟩ := Scripted.introspect_eq_bind name
  rw [heq]
  exact (rows Catalog.columnsText [.text name]).bind hrest

theorem ensure {registry : Registry} {type : RecordType} {table : TableDefinition}
    (h : type.definition registry = .ok table) : Asking (ensure registry type) := by
  obtain ⟨f, heq, hrest⟩ := Scripted.ensure_eq_bind registry type
  rw [heq]
  exact lift_bind h ((introspect table.name).bind (hrest table))

theorem ask {type : RecordType} {command : Sql.Command} {s : Sql.Statement} (hs : command.statement? = some s) :
    Asking (RecordStep.ask type (some command)) where
  unopened := RecordStep.perform_ask_unopened hs
  handed hlive := by
    obtain ⟨purpose, hissued⟩ := RecordStep.issued_ask hs hlive
    rw [hissued, List.length_append]
    exact Nat.lt_succ_self _

end Asking

end Session

end RecordTables
