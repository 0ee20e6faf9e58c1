import Mathlib.Data.List.Induction
import RecordTables.Proofs.Record.Agreement
import RecordTables.Proofs.Record.Registered
import RecordTables.Proofs.Schema.Parts

/-!
# Samples are written once

Of the calls that register samples of one type, the first that is taken decides the sample for good.  A call that fails
changes nothing, and does not stand in the way of a later one; a call for a type that has a sample is never looked into.
So a column that was found by a sample is found the same way ever after, whatever is registered besides.
-/

namespace RecordTables

/-! ## One call -/

/-- A call that registers a sample of a type. -/
structure Registration where
  type : TypeName
  sample : Datum

/-- The name under which the sample is kept. -/
def Registration.key (call : Registration) : String := call.type.text

namespace Registry

variable {registry : Registry} {call : Registration} {key : String} {sample : Sample} {e : Error}

/-- The answer of a call. -/
def answer (registry : Registry) (call : Registration) : Outcome Bool :=
  (registry.register call.type call.sample).map Prod.fst

/-- The samples after a call; one that fails leaves them alone. -/
def after (registry : Registry) (call : Registration) : Registry :=
  match registry.register call.type call.sample with
  | .ok (_, registry') => registry'
  | .error _ => registry

/-- Stores a sample unless there is one by then. -/
def store (registry : Registry) (key : String) (sample : Sample) : Bool × Registry :=
  if (registry.lookup key).isSome then (false, registry) else (true, ⟨(key, sample) :: registry.samples⟩)

/-- A sample is the stored form of a datum, unless that is NULL. -/
theorem sampleOf_eq_ok {d : Datum} :
    sampleOf key d = .ok sample ↔ d.encodeField = .ok sample.value ∧ sample.value.columnType? = some sample.type := by
  rw [sampleOf, Outcome.bind_eq_ok]
  constructor
  · rintro ⟨v, hv, h⟩
    split at h
    · rename_i type htype
      cases h
      exact ⟨hv, htype⟩
    · cases h
  · rintro ⟨hv, htype⟩
    refine ⟨sample.value, hv, ?_⟩
    rw [htype]

/-- There is none if the datum has no stored form, or NULL for one. -/
theorem sampleOf_eq_error {d : Datum} :
    sampleOf key d = .error e ↔
      d.encodeField = .error e ∨ d.encodeField = .ok .null ∧ e = .notRepresentable (.emptySample key) := by
  rw [sampleOf, Outcome.bind_eq_error]
  refine or_congr_right ⟨?_, ?_⟩
  · rintro ⟨v, hv, h⟩
    cases v with
    | null =>
        cases h
        exact ⟨hv, rfl⟩
    | _ => cases h
  · rintro ⟨hv, rfl⟩
    exact ⟨.null, hv, rfl⟩

theorem exists_sampleOf {d : Datum} :
    (∃ sample, sampleOf key d = .ok sample) ↔ ∃ v, d.encodeField = .ok v ∧ v ≠ .null := by
  simp only [sampleOf_eq_ok]
  constructor
  · rintro ⟨sample, hv, htype⟩
    refine ⟨sample.value, hv, fun hnull => ?_⟩
    rw [hnull] at htype
    cases htype
  · rintro ⟨v, hv, hnull⟩
    obtain ⟨type, htype⟩ : ∃ type, v.columnType? = some type := by
      cases v with
      | null => exact absurd rfl hnull
      | _ => exact ⟨_, rfl⟩
    exact ⟨⟨type, v⟩, hv, htype⟩

/-- A call for a type that has a sample does not look at its own. -/
theorem register_of_found (h : registry.lookup call.key = some sample) :
    registry.register call.type call.sample = .ok (false, registry) := by
  have hfound : registry.lookup call.type.text = some sample := h
  simp only [register, hfound, Option.isSome_some, if_true]

theorem register_of_error (hnone : registry.lookup call.key = none) (h : sampleOf call.key call.sample = .error e) :
    registry.register call.type call.sample = .error e := by
  have hfree : registry.lookup call.type.text = none := hnone
  have hfails : sampleOf call.type.text call.sample = .error e := h
  simp only [register, hfree, hfails]
  rfl

/-- A call whose sample has a stored form answers what storing it answers.  So one that others overtake before it comes
to that answers as if it had begun after them. -/
theorem register_of_sampleOf (h : sampleOf call.key call.sample = .ok sample) :
    registry.register call.type call.sample = .ok (registry.store call.key sample) := by
  have hstored : sampleOf call.type.text call.sample = .ok sample := h
  cases hfound : (registry.lookup call.type.text).isSome with
  | true => simp only [register, store, Registration.key, hfound, if_true]
  | false =>
      simp only [register, store, Registration.key, hfound, hstored, Bool.false_eq_true, if_false]
      rfl

theorem store_of_none (h : registry.lookup key = none) :
    registry.store key sample = (true, ⟨(key, sample) :: registry.samples⟩) := by
  simp only [store, h, Option.isSome_none, Bool.false_eq_true, if_false]

theorem lookup_store_of_none (h : registry.lookup key = none) (other : String) :
    (registry.store key sample).2.lookup other = if other = key then some sample else registry.lookup other := by
  rw [store_of_none h, lookup, lookup_cons_eq]
  rfl

/-- What a call can do: refuse to replace a sample, fail, or store the first sample of a type. -/
inductive Step (registry : Registry) (call : Registration) : Outcome Bool → Registry → Prop where
  | refused {found : Sample} (hfound : registry.lookup call.key = some found) : Step registry call (.ok false) registry
  | failed {e : Error} (hnone : registry.lookup call.key = none) (herror : sampleOf call.key call.sample = .error e) :
      Step registry call (.error e) registry
  | taken {sample : Sample} (hnone : registry.lookup call.key = none)
      (hsample : sampleOf call.key call.sample = .ok sample) :
      Step registry call (.ok true) (registry.store call.key sample).2

theorem step (registry : Registry) (call : Registration) :
    Step registry call (registry.answer call) (registry.after call) := by
  unfold answer after
  cases hfound : registry.lookup call.key with
  | some found =>
      rw [register_of_found hfound]
      exact .refused hfound
  | none =>
      cases hsample : sampleOf call.key call.sample with
      | error e =>
          rw [register_of_error hfound hsample]
          exact .failed hfound hsample
      | ok sample =>
          have htaken := Step.taken hfound hsample
          rw [store_of_none hfound] at htaken
          rw [register_of_sampleOf hsample, store_of_none hfound]
          exact htaken

theorem answer_eq_false : registry.answer call = .ok false ↔ ∃ found, registry.lookup call.key = some found := by
  have hstep := registry.step call
  generalize registry.answer call = given, registry.after call = registry' at hstep ⊢
  cases hstep with
  | refused hfound => simp [hfound]
  | failed hnone => simp [hnone]
  | taken hnone => simp [hnone]

theorem answer_eq_true :
    registry.answer call = .ok true ↔
      registry.lookup call.key = none ∧ ∃ sample, sampleOf call.key call.sample = .ok sample := by
  have hstep := registry.step call
  generalize registry.answer call = given, registry.after call = registry' at hstep ⊢
  cases hstep with
  | refused hfound => simp [hfound]
  | failed hnone herror => simp [hnone, herror]
  | taken hnone hsample => simp [hnone, hsample]

theorem answer_eq_error :
    registry.answer call = .error e ↔ registry.lookup call.key = none ∧ sampleOf call.key call.sample = .error e := by
  have hstep := registry.step call
  generalize registry.answer call = given, registry.after call = registry' at hstep ⊢
  cases hstep with
  | refused hfound => simp [hfound]
  | failed hnone herror => simp [hnone, herror]
  | taken hnone hsample => simp [hnone, hsample]

/-- Only a call that is taken changes anything. -/
theorem after_of_answer_ne (h : registry.answer call ≠ .ok true) : registry.after call = registry := by
  have hstep := registry.step call
  generalize registry.answer call = given, registry.after call = registry' at h hstep ⊢
  cases hstep with
  | refused => rfl
  | failed => rfl
  | taken => exact absurd rfl h

theorem lookup_after_of_sampleOf (hnone : registry.lookup call.key = none)
    (hsample : sampleOf call.key call.sample = .ok sample) : (registry.after call).lookup call.key = some sample := by
  have hstep := registry.step call
  generalize registry.answer call = given, registry.after call = registry' at hstep ⊢
  cases hstep with
  | refused hfound =>
      rw [hnone] at hfound
      cases hfound
  | failed _ herror =>
      rw [hsample] at herror
      cases herror
  | taken _ hstored =>
      rw [hsample] at hstored
      cases hstored
      rw [lookup_store_of_none hnone, if_pos rfl]

/-- A call touches no other type than its own. -/
theorem lookup_after_of_ne (hkey : key ≠ call.key) : (registry.after call).lookup key = registry.lookup key := by
  have hstep := registry.step call
  generalize registry.answer call = given, registry.after call = registry' at hstep ⊢
  cases hstep with
  | refused => rfl
  | failed => rfl
  | taken hnone => rw [lookup_store_of_none hnone, if_neg hkey]

/-- A sample stays what it is. -/
theorem lookup_after_of_some (h : registry.lookup key = some sample) :
    (registry.after call).lookup key = some sample := by
  have hstep := registry.step call
  generalize registry.answer call = given, registry.after call = registry' at hstep ⊢
  cases hstep with
  | refused => exact h
  | failed => exact h
  | taken hnone =>
      rw [lookup_store_of_none hnone, if_neg, h]
      rintro rfl
      rw [hnone] at h
      cases h

/-! ## Calls one after the other -/

/-- The samples after calls, the first of which finds none. -/
def registered (calls : List Registration) : Registry := calls.foldl after empty

variable {calls before later : List Registration}

theorem registered_snoc : registered (calls ++ [call]) = (registered calls).after call := by
  rw [registered, List.foldl_append]
  rfl

/-- What has a sample keeps it through all calls to come. -/
theorem lookup_registered_append (h : (registered before).lookup key = some sample) :
    (registered (before ++ later)).lookup key = some sample := by
  rw [registered, List.foldl_append, ← registered]
  generalize registered before = registry at h
  induction later generalizing registry with
  | nil => exact h
  | cons call rest ih => exact ih _ (lookup_after_of_some h)

/-- What comes with a call that is taken is the sample of its type, and stays it. -/
theorem lookup_registered_of_taken (h : (registered before).answer call = .ok true) :
    ∃ sample, sampleOf call.key call.sample = .ok sample ∧
      (registered (before ++ call :: later)).lookup call.key = some sample := by
  obtain ⟨hfree, sample, hsample⟩ := answer_eq_true.1 h
  have hkept := lookup_after_of_sampleOf hfree hsample
  rw [← registered_snoc] at hkept
  have hlater : (registered (before ++ [call] ++ later)).lookup call.key = some sample := lookup_registered_append hkept
  rw [List.append_assoc, List.singleton_append] at hlater
  exact ⟨sample, hsample, hlater⟩

/-- One of the calls is for the type with a name, and it answers that its sample is kept. -/
def Taken (calls : List Registration) (key : String) : Prop :=
  ∃ before call later, calls = before ++ call :: later ∧ call.key = key ∧ (registered before).answer call = .ok true

/-- The first call that is taken for the type with a name. -/
def FirstTaken (calls : List Registration) (key : String) (call : Registration) : Prop :=
  ∃ before later, calls = before ++ call :: later ∧ call.key = key ∧ (registered before).answer call = .ok true ∧
    ¬ Taken before key

theorem FirstTaken.taken (h : FirstTaken calls key call) : Taken calls key := by
  obtain ⟨before, later, hcalls, hkey, htaken, -⟩ := h
  exact ⟨before, call, later, hcalls, hkey, htaken⟩

theorem FirstTaken.append (h : FirstTaken before key call) (later : List Registration) :
    FirstTaken (before ++ later) key call := by
  obtain ⟨earlier, rest, rfl, hkey, htaken, hfirst⟩ := h
  exact ⟨earlier, rest ++ later, by simp, hkey, htaken, hfirst⟩

theorem not_taken_of_lookup_eq_none (h : (registered calls).lookup key = none) : ¬ Taken calls key := by
  rintro ⟨before, call, later, rfl, rfl, htaken⟩
  obtain ⟨sample, -, hsome⟩ := lookup_registered_of_taken htaken
  rw [h] at hsome
  cases hsome

/-- A sample that is there came with the first call that was taken for its type. -/
theorem exists_firstTaken_of_lookup (h : (registered calls).lookup key = some sample) :
    ∃ call, FirstTaken calls key call ∧ sampleOf key call.sample = .ok sample := by
  induction calls using List.reverseRecOn with
  | nil => cases h
  | append_singleton calls call ih =>
      rw [registered_snoc] at h
      have hbefore : (registered calls).lookup key = some sample →
          ∃ first, FirstTaken (calls ++ [call]) key first ∧ sampleOf key first.sample = .ok sample :=
        fun hfound => (ih hfound).imp fun first hfirst => ⟨hfirst.1.append [call], hfirst.2⟩
      have hstep := (registered calls).step call
      generalize hgiven : (registered calls).answer call = given, (registered calls).after call = registry' at hstep h
      cases hstep with
      | refused => exact hbefore h
      | failed => exact hbefore h
      | taken hfree hsample =>
          rw [lookup_store_of_none hfree] at h
          split at h
          · rename_i hkey
            cases h
            subst hkey
            exact ⟨call, ⟨calls, [], rfl, rfl, hgiven, not_taken_of_lookup_eq_none hfree⟩, hsample⟩
          · exact hbefore h

/-- The sample of a type is that of the first call that was taken for it. -/
theorem lookup_registered_eq_some :
    (registered calls).lookup key = some sample ↔
      ∃ call, FirstTaken calls key call ∧ sampleOf key call.sample = .ok sample := by
  refine ⟨exists_firstTaken_of_lookup, ?_⟩
  rintro ⟨call, ⟨before, later, rfl, rfl, htaken, -⟩, hsample⟩
  obtain ⟨found, hfound, hsome⟩ := lookup_registered_of_taken htaken
  rw [hsample] at hfound
  cases hfound
  exact hsome

/-- What has no sample has not been registered, and the other way round. -/
theorem lookup_registered_eq_none : (registered calls).lookup key = none ↔ ¬ Taken calls key := by
  refine ⟨not_taken_of_lookup_eq_none, fun hnot => ?_⟩
  rw [Option.eq_none_iff_forall_ne_some]
  intro sample hsome
  obtain ⟨call, hfirst, -⟩ := exists_firstTaken_of_lookup hsome
  exact hnot hfirst.taken

theorem taken_iff : Taken calls key ↔ ∃ sample, (registered calls).lookup key = some sample := by
  rw [← Option.ne_none_iff_exists', Ne, lookup_registered_eq_none, not_not]

end Registry

/-! ## Columns that a sample decides -/

namespace Shape

variable {registry : Registry} {key : String} {optional : Bool} {sample : Sample} {decode : Cell → Outcome Datum}
  {probed : Outcome Probed}

/-- What is made of a part with a sample depends on this sample only. -/
theorem settle_of_found (h : registry.lookup key = some sample) : settle registry key optional decode probed =
    (return (← decode ⟨"placeholder", sample.value⟩, ⟨sample.type, optional⟩)) := by
  simp only [settle, h]
  rfl

theorem column_of_settle {d : Datum} {column : Column} (hsample : registry.lookup key = some sample)
    (h : settle registry key optional decode probed = .ok (d, column)) : column = ⟨sample.type, optional⟩ := by
  rw [settle_of_found hsample] at h
  obtain ⟨e, -, hcolumn⟩ := Outcome.bind_eq_ok.1 h
  cases hcolumn
  rfl

/-- The columns of fields, each with the key under which a sample of its type is looked up, and whether the type is called
an option.  A field that is not read has none. -/
def fieldKeys (fields : List (Field × Shape)) : List (String × Option (String × Bool)) :=
  fields.filterMap fun p => if p.1.constant.isSome then none else some (p.1.name, some p.2.key)

/-- The columns of a record in the order in which they are declared, each with its key.  No sample is looked up for the
column of a tag. -/
def columnKeys : Shape → List (String × Option (String × Bool))
  | .record _ _ fields => fieldKeys fields
  | .adjacent name tag content (_ :: _) => [(tag, none), (content, some (placeholderKey name.text))]
  | .box s => columnKeys s
  | .transparent _ s => columnKeys s
  | .checked _ s _ => columnKeys s
  | _ => []

/-- A column that is found by a sample if there is one. -/
structure Resolves (registry : Registry) (part : String × Option (String × Bool)) (column : String × Column) : Prop where
  name : column.1 = part.1
  sampled : ∀ key optional sample, part.2 = some (key, optional) → registry.lookup key = some sample →
    column.2 = ⟨sample.type, optional⟩

theorem resolves_of_settle {name key : String} {optional : Bool} {d : Datum} {column : Column}
    (h : settle registry key optional decode probed = .ok (d, column)) :
    Resolves registry (name, some (key, optional)) (name, column) where
  name := rfl
  sampled := by
    rintro _ _ sample ⟨⟩ hsample
    exact column_of_settle hsample h

theorem resolves_of_probeFields {around : Shape} {fields : List (Field × Shape)} {made : List ProbedField}
    (h : probeFields registry around fields = .ok made) :
    List.Forall₂ (Resolves registry) (fieldKeys fields) (probedColumns made) := by
  induction fields generalizing made with
  | nil =>
      rw [probeFields] at h
      cases h
      exact .nil
  | cons p fields ih =>
      obtain ⟨f, s⟩ := p
      obtain ⟨others, hothers, ⟨d, hconstant, rfl⟩ | ⟨hconstant, -, d, column, hsettle, rfl⟩⟩ := probeFields_cons h
      · have hskip : probedColumns ((f, d, none) :: others) = probedColumns others := rfl
        rw [fieldKeys, List.filterMap_cons_none (by rw [hconstant]; rfl), hskip]
        exact ih hothers
      · rw [fieldKeys, List.filterMap_cons_some (b := (f.name, some s.key)) (by rw [hconstant]; rfl)]
        exact .cons (resolves_of_settle hsettle) (ih hothers)

theorem resolves_of_probeRecord {s : Shape} {d : Datum} {columns : List (String × Column)}
    (h : probeRecord registry s = .ok (d, columns)) : List.Forall₂ (Resolves registry) s.columnKeys columns := by
  induction s using probeRecord.induct generalizing d with
  | case1 name strict fields =>
      rw [probeRecord] at h
      obtain ⟨made, hmade, h⟩ := Outcome.bind_eq_ok.1 h
      cases h
      exact resolves_of_probeFields hmade
  | case2 name tag content =>
      rw [probeRecord] at h
      cases h
  | case3 name tag content variant payload rest =>
      rw [probeRecord] at h
      obtain ⟨⟨e, column⟩, hsettle, h⟩ := Outcome.bind_eq_ok.1 h
      cases h
      have htag : Resolves registry (tag, none) (tag, ⟨.text, false⟩) := ⟨rfl, fun _ _ _ hkey => by cases hkey⟩
      exact .cons htag (.cons (resolves_of_settle hsettle) .nil)
  | case4 s ih =>
      rw [probeRecord] at h
      exact ih h
  | case5 name s ih =>
      rw [probeRecord] at h
      exact ih h
  | case6 name s refusal ih =>
      rw [probeRecord] at h
      obtain ⟨⟨e, found⟩, hfound, h⟩ := Outcome.bind_eq_ok.1 h
      obtain ⟨_, _, h⟩ := Outcome.bind_eq_ok.1 h
      cases h
      exact ih hfound
  | case7 s =>
      rw [probeRecord] at h
      · cases h
      all_goals assumption

/-- Of two lists that agree part by part, what stands under a name agrees. -/
theorem lookup_of_resolves {parts : List (String × Option (String × Bool))} {columns : List (String × Column)} {n : String}
    (h : List.Forall₂ (Resolves registry) parts columns) (hpart : parts.lookup n = some (some (key, optional)))
    (hsample : registry.lookup key = some sample) : columns.lookup n = some ⟨sample.type, optional⟩ := by
  induction h with
  | nil => cases hpart
  | @cons part column parts columns hfirst hrest ih =>
      rw [lookup_cons_eq] at hpart
      rw [lookup_cons_eq, hfirst.name]
      split at hpart
      · rename_i hname
        rw [if_pos hname, hfirst.sampled key optional sample (Option.some.inj hpart) hsample]
      · rename_i hname
        rw [if_neg hname]
        exact ih hpart

end Shape

namespace RecordType

variable {type : RecordType} {registry : Registry} {table : TableDefinition} {n key : String} {optional : Bool}
  {sample : Sample}

/-- The key under which a sample is looked up for a column, and whether the type of the column is called an option.  Of
columns with one name the last counts. -/
def columnKey? (type : RecordType) (name : String) : Option (String × Bool) :=
  (type.shape.columnKeys.reverse.lookup name).join

/-- A column whose type has a sample has the storage class of the sample. -/
theorem column?_of_sample (hcolumn : type.columnKey? n = some (key, optional))
    (hsample : registry.lookup key = some sample) (h : type.definition registry = .ok table) :
    table.column? n = some ⟨sample.type, optional⟩ := by
  obtain ⟨⟨d, columns⟩, hprobe, hmake⟩ := Outcome.bind_eq_ok.1 h
  have hresolves := List.rel_reverse (Shape.resolves_of_probeRecord hprobe)
  rw [TableDefinition.column?, TableDefinition.columns_of_make hmake, lookup_ascendingBy]
  exact Shape.lookup_of_resolves hresolves (Option.join_eq_some_iff.1 hcolumn) hsample

end RecordType

/-! ## What calls leave behind -/

namespace Registry

/-- What is sure of calls that register samples one after the other, starting with none. -/
structure WriteOnce (calls : List Registration) : Prop where
  /-- The sample of a type is the stored form of what came with the first call that was taken for it. -/
  entry : ∀ key sample, (registered calls).lookup key = some sample ↔ ∃ call, FirstTaken calls key call ∧
    call.sample.encodeField = .ok sample.value ∧ sample.value.columnType? = some sample.type
  /-- It was the same after any of the calls, from that one on. -/
  kept : ∀ before later, before ++ later = calls → ∀ key sample, (registered before).lookup key = some sample →
    (registered calls).lookup key = some sample
  /-- A call answers false exactly if one was taken for its type before, whatever it comes with itself. -/
  refused : ∀ before call later, before ++ call :: later = calls →
    ((registered before).answer call = .ok false ↔ Taken before call.key)
  /-- It is taken if none was so far and what it comes with has a stored form other than NULL, also after calls for its
  type that failed. -/
  taken : ∀ before call later, before ++ call :: later = calls →
    ((registered before).answer call = .ok true ↔
      ¬ Taken before call.key ∧ ∃ v, call.sample.encodeField = .ok v ∧ v ≠ .null)
  failed : ∀ before call later, before ++ call :: later = calls → ∀ e,
    ((registered before).answer call = .error e ↔ ¬ Taken before call.key ∧
      (call.sample.encodeField = .error e ∨
        call.sample.encodeField = .ok .null ∧ e = .notRepresentable (.emptySample call.key)))
  /-- Only a call that is taken changes anything, and then only for its own type. -/
  untouched : ∀ before call later, before ++ call :: later = calls →
    ((registered before).answer call ≠ .ok true → registered (before ++ [call]) = registered before) ∧
      ∀ key, key ≠ call.key → (registered (before ++ [call])).lookup key = (registered before).lookup key
  isRegistered : ∀ type, ((registered calls).isRegistered type = true ↔
      ∃ sample, (registered calls).lookup type.text = some sample) ∧
    ((registered calls).isRegistered type = true ↔ Taken calls type.text)
  /-- What is made of a part whose type has a sample does not change with further calls. -/
  settled : ∀ before later, before ++ later = calls → ∀ key sample, (registered before).lookup key = some sample →
    ∀ optional decode probed probed', Shape.settle (registered calls) key optional decode probed' =
      Shape.settle (registered before) key optional decode probed
  /-- So a column that is found by a sample is the same in every definition that is made later. -/
  columns : ∀ before later, before ++ later = calls → ∀ (type : RecordType) n key optional sample,
    type.columnKey? n = some (key, optional) → (registered before).lookup key = some sample →
    ∀ table table', type.definition (registered before) = .ok table → type.definition (registered calls) = .ok table' →
      table.column? n = some ⟨sample.type, optional⟩ ∧ table'.column? n = table.column? n

/-- Samples are written once, whatever is registered and in whatever order. -/
theorem writeOnce_registered (calls : List Registration) : WriteOnce calls where
  entry := fun key sample => by
    simp only [lookup_registered_eq_some, sampleOf_eq_ok]
  kept := by
    rintro before later rfl key sample h
    exact lookup_registered_append h
  refused := by
    rintro before call later rfl
    rw [answer_eq_false, taken_iff]
  taken := by
    rintro before call later rfl
    rw [answer_eq_true, lookup_registered_eq_none, exists_sampleOf]
  failed := by
    rintro before call later rfl e
    rw [answer_eq_error, lookup_registered_eq_none, sampleOf_eq_error]
  untouched := by
    rintro before call later rfl
    rw [registered_snoc]
    exact ⟨after_of_answer_ne, fun key => lookup_after_of_ne⟩
  isRegistered := fun type => by
    rw [isRegistered, Option.isSome_iff_exists, taken_iff]
    exact ⟨Iff.rfl, Iff.rfl⟩
  settled := by
    rintro before later rfl key sample h optional decode probed probed'
    rw [Shape.settle_of_found h, Shape.settle_of_found (lookup_registered_append h)]
  columns := by
    rintro before later rfl type n key optional sample hcolumn hsample table table' htable htable'
    have hbefore := RecordType.column?_of_sample hcolumn hsample htable
    exact ⟨hbefore, (RecordType.column?_of_sample hcolumn (lookup_registered_append hsample) htable').trans hbefore.symm⟩

end Registry

end RecordTables
