import RecordTables.Proofs.Record.Agreement
import RecordTables.Proofs.Record.LegibleFields
import RecordTables.Proofs.Record.Registered

/-!
# Types that can be used

A record type has a definition if values can be made up for all of its parts.  A part with a sample gets the sample, which
it has to read; a part without one is made up from parts of its own, unless its type is one of which nothing is made up.
Which parts come up at all depends on the samples: what is inside a part with a sample is never asked for.
-/

namespace RecordTables

/-- A shape that is made up on its own, and the record around it. -/
structure Part where
  around : Shape
  shape : Shape

namespace Shape

/-! ## Parts -/

/-- The parts of a record: the fields that are read. -/
def readParts (around : Shape) (fields : List (Field × Shape)) : List Part :=
  (fields.filter fun p => p.1.constant.isNone).map fun p => ⟨around, p.2⟩

/-- The parts of a tuple. -/
def itemParts (around : Shape) (items : List Shape) : List Part := items.map fun s => ⟨around, s⟩

/-- The parts of what a variant carries. -/
def payloadParts (around : Shape) : Payload → List Part
  | .unit => []
  | .newtype content => [⟨around, content⟩]
  | .tuple items => itemParts around items
  | .fields fields => readParts around fields

mutual

/-- The parts that are made up for a shape.  What is wrapped is no part of its own; of several variants the first one
counts, and the content of an adjacently tagged one is a part that goes by the name of the whole. -/
def parts (registry : Registry) (around : Shape) : Shape → List Part
  | .option content => parts registry around content
  | .box content => parts registry around content
  | .transparent _ content => parts registry around content
  | .newtype _ content => parts registry around content
  | .checked _ content _ => parts registry around content
  | .guarded _ content _ => parts registry around content
  | .array item length => if length = 0 then [] else [⟨around, item⟩]
  | .tuple items => itemParts around items
  | .tupleStruct _ items => itemParts around items
  | .record name strict fields => readParts (.record name strict fields) fields
  | .choice _ ((_, payload) :: _) => payloadParts around payload
  | .adjacent name _ _ ((_, payload) :: _) =>
      if (registry.lookup (placeholderKey name.text).1).isSome then [] else contentParts registry around payload
  | _ => []

/-- The parts that are made up for the content of an adjacently tagged variant. -/
def contentParts (registry : Registry) (around : Shape) : Payload → List Part
  | .unit => []
  | .newtype content => parts registry around content
  | .tuple items => itemParts around items
  | .fields fields => readParts around fields

end

/-- Whether some field that is read goes by a second name. -/
def doubled (fields : List (Field × Shape)) : Bool :=
  fields.any fun p => p.1.constant.isNone && !p.1.aliases.isEmpty

/-- Whether fields that a variant carries go by second names. -/
def doubledPayload : Payload → Bool
  | .fields fields => doubled fields
  | _ => false

/-- Whether a check refuses what is made up for its content. -/
def refusesMadeUp (refusal : Datum → Option String) : Outcome Probed → Bool
  | .ok p => (refusal p.value).isSome
  | .error _ => false

mutual

/-- Whether nothing is made up for a shape, whatever its parts are: it asks for no value of a certain kind, its check
refuses what is made up, or it asks for one field under two names.  The content of an adjacently tagged variant may get
a sample of the whole type, which it has to read. -/
def stuck (registry : Registry) (around : Shape) : Shape → Bool
  | .option content => stuck registry around content
  | .box content => stuck registry around content
  | .transparent _ content => stuck registry around content
  | .newtype _ content => stuck registry around content
  | .checked _ content refusal =>
      stuck registry around content || refusesMadeUp refusal (probe registry around content)
  | .guarded _ content _ => stuck registry around content
  | .int type => !type.storable
  | .record _ _ fields => doubled fields
  | .enclosing _ => true
  | .choice _ [] => true
  | .choice _ ((_, payload) :: _) => doubledPayload payload
  | .adjacent _ _ _ [] => true
  | .adjacent name _ _ ((variant, payload) :: _) =>
      match registry.lookup (placeholderKey name.text).1 with
      | some sample => (contentOf around name variant payload ⟨"placeholder", sample.value⟩).toOption.isNone
      | none => stuckContent registry around payload
  | .tagged _ _ _ => true
  | .untagged _ _ => true
  | .anything _ => true
  | .ignored _ => true
  | .label _ => true
  | .flattened _ fields => (completeFields [] fields).isNone
  | _ => false

/-- Whether nothing is made up for the content of an adjacently tagged variant. -/
def stuckContent (registry : Registry) (around : Shape) : Payload → Bool
  | .unit => true
  | .newtype content => stuck registry around content
  | .tuple _ => false
  | .fields fields => doubled fields

end

/-- A value was made up, and a storage class asked for. -/
def MadeUp (probed : Outcome Probed) : Prop := ∃ p type, probed = .ok p ∧ p.type = some type

end Shape

namespace Part

open Shape

/-- A part gets a value: from its sample, or made up. -/
def Settles (registry : Registry) (q : Part) : Prop :=
  ∃ r, settleShape registry q.around q.shape (probe registry q.around q.shape) = .ok r

/-- A part with a sample reads it, and something is made up for a part without one. -/
def Served (registry : Registry) (q : Part) : Prop :=
  match registry.lookup q.shape.key.1 with
  | some sample => ∃ d, decodeField q.around ⟨"placeholder", sample.value⟩ q.shape = .ok d
  | none => stuck registry q.around q.shape = false

/-- The parts that come up when the given ones are made up. -/
inductive Reached (registry : Registry) (start : List Part) : Part → Prop where
  | start {q : Part} (h : q ∈ start) : Reached registry start q
  | inside {q r : Part} (h : Reached registry start q) (hnone : registry.lookup q.shape.key.1 = none)
      (hr : r ∈ parts registry q.around q.shape) : Reached registry start r

end Part

namespace Shape

open RecordTables.Part (Settles Served Reached)

variable {registry : Registry} {around : Shape}

/-! ## One part -/

theorem not_madeUp_error (e : Error) : ¬ MadeUp (.error e) := by
  rintro ⟨p, type, hp, -⟩
  cases hp

theorem madeUp_shaped {α : Type} {x : Outcome α} {type : ColumnType} {f : α → Datum} :
    MadeUp (x >>= fun a => Probed.shaped type (f a)) ↔ ∃ a, x = .ok a := by
  cases x with
  | error e =>
      refine iff_of_false (not_madeUp_error e) ?_
      rintro ⟨a, ha⟩
      cases ha
  | ok a => exact iff_of_true ⟨_, type, rfl, rfl⟩ ⟨a, rfl⟩

/-- A wrapper asks for what its content asks for. -/
theorem madeUp_map {x : Outcome Probed} {f : Probed → Probed} (hf : ∀ p, (f p).type = p.type) :
    MadeUp (x >>= fun p => .ok (f p)) ↔ MadeUp x := by
  cases x with
  | error e => exact iff_of_false (not_madeUp_error e) (not_madeUp_error e)
  | ok p =>
      constructor
      · rintro ⟨q, type, hq, htype⟩
        cases hq
        exact ⟨p, type, rfl, (hf p).symm.trans htype⟩
      · rintro ⟨q, type, hq, htype⟩
        cases hq
        exact ⟨f p, type, rfl, (hf p).trans htype⟩

theorem madeUp_checked {x : Outcome Probed} {refusal : Datum → Option String} :
    MadeUp (x >>= fun p => p.value.pass refusal >>= fun value => .ok { p with value }) ↔
      MadeUp x ∧ refusesMadeUp refusal x = false := by
  cases x with
  | error e => exact iff_of_false (not_madeUp_error e) fun h => not_madeUp_error e h.1
  | ok p =>
      have hrefuses : refusesMadeUp refusal (.ok p) = (refusal p.value).isSome := rfl
      rw [hrefuses, Option.isSome_eq_false_iff, Option.isNone_iff_eq_none]
      constructor
      · rintro ⟨q, type, hq, htype⟩
        change (p.value.pass refusal >>= _) = _ at hq
        obtain ⟨value, hpass, hvalue⟩ := Outcome.bind_eq_ok.1 hq
        cases hvalue
        exact ⟨⟨p, type, rfl, htype⟩, (Datum.pass_eq_ok.1 hpass).1⟩
      · rintro ⟨⟨q, type, hq, htype⟩, hpass⟩
        cases hq
        refine ⟨p, type, ?_, htype⟩
        show (p.value.pass refusal >>= _) = _
        rw [Datum.pass_eq_ok.2 ⟨hpass, rfl⟩]
        rfl

theorem settle_isOk_some {key : String} {optional : Bool} {decode : Cell → Outcome Datum} {probed : Outcome Probed}
    {sample : Sample} (hkey : registry.lookup key = some sample) :
    (∃ r, settle registry key optional decode probed = .ok r) ↔
      ∃ d, decode ⟨"placeholder", sample.value⟩ = .ok d := by
  constructor
  · rintro ⟨r, hr⟩
    simp only [settle, hkey] at hr
    obtain ⟨d, hd, -⟩ := Outcome.bind_eq_ok.1 hr
    exact ⟨d, hd⟩
  · rintro ⟨d, hd⟩
    exact ⟨_, settle_registered hkey hd⟩

theorem settle_isOk_none {key : String} {optional : Bool} {decode : Cell → Outcome Datum} {probed : Outcome Probed}
    (hkey : registry.lookup key = none) : (∃ r, settle registry key optional decode probed = .ok r) ↔ MadeUp probed := by
  constructor
  · rintro ⟨⟨d, column⟩, hr⟩
    obtain ⟨p, hp, -, htype, -⟩ := settle_unregistered hkey hr
    exact ⟨p, column.type, hp, htype⟩
  · rintro ⟨p, type, rfl, htype⟩
    refine ⟨(p.value, ⟨type, p.nullable⟩), ?_⟩
    simp only [settle, hkey, htype]

/-! ## Several parts -/

theorem probeItems_isOk {items : List Shape} :
    (∃ ds, probeItems registry around items = .ok ds) ↔ ∀ q ∈ itemParts around items, q.Settles registry := by
  induction items with
  | nil =>
      rw [probeItems]
      exact iff_of_true ⟨[], rfl⟩ (by simp [itemParts])
  | cons s rest ih =>
      have hparts : itemParts around (s :: rest) = ⟨around, s⟩ :: itemParts around rest := rfl
      rw [hparts, List.forall_mem_cons, ← ih, probeItems]
      constructor
      · rintro ⟨ds, hds⟩
        obtain ⟨first, hfirst, hds⟩ := Outcome.bind_eq_ok.1 hds
        obtain ⟨others, hothers, -⟩ := Outcome.bind_eq_ok.1 hds
        exact ⟨⟨first, hfirst⟩, others, hothers⟩
      · rintro ⟨⟨first, hfirst⟩, others, hothers⟩
        exact ⟨_, Outcome.bind_eq_ok.2 ⟨first, hfirst, Outcome.bind_eq_ok.2 ⟨others, hothers, rfl⟩⟩⟩

theorem probeFields_isOk {fields : List (Field × Shape)} :
    (∃ probed, probeFields registry around fields = .ok probed) ↔
      doubled fields = false ∧ ∀ q ∈ readParts around fields, q.Settles registry := by
  induction fields with
  | nil =>
      rw [probeFields]
      exact iff_of_true ⟨[], rfl⟩ ⟨rfl, by simp [readParts]⟩
  | cons p rest ih =>
      obtain ⟨f, s⟩ := p
      cases hconstant : f.constant with
      | some d =>
          have hparts : readParts around ((f, s) :: rest) = readParts around rest := by
            rw [readParts, List.filter_cons_of_neg (by simp [hconstant])]
            rfl
          have hdoubled : doubled ((f, s) :: rest) = doubled rest := by
            rw [doubled, List.any_cons, hconstant]
            rfl
          rw [hparts, hdoubled, ← ih]
          constructor
          · rintro ⟨probed, hprobed⟩
            obtain ⟨others, hothers, -⟩ := probeFields_cons hprobed
            exact ⟨others, hothers⟩
          · rintro ⟨others, hothers⟩
            rw [probeFields, hconstant]
            exact ⟨_, Outcome.bind_eq_ok.2 ⟨(d, none), rfl, Outcome.bind_eq_ok.2 ⟨others, hothers, rfl⟩⟩⟩
      | none =>
          have hparts : readParts around ((f, s) :: rest) = ⟨around, s⟩ :: readParts around rest := by
            rw [readParts, List.filter_cons_of_pos (by simp [hconstant])]
            rfl
          have hdoubled : doubled ((f, s) :: rest) = (!f.aliases.isEmpty || doubled rest) := by
            rw [doubled, List.any_cons, hconstant]
            rfl
          rw [hparts, List.forall_mem_cons, hdoubled, Bool.or_eq_false_iff, Bool.not_eq_false']
          constructor
          · rintro ⟨probed, hprobed⟩
            obtain ⟨others, hothers, ⟨d, hsome, -⟩ | ⟨-, hnames, d, column, hsettle, -⟩⟩ :=
              probeFields_cons hprobed
            · cases hconstant.symm.trans hsome
            · obtain ⟨hrest, hparts⟩ := ih.1 ⟨others, hothers⟩
              have hlength : f.names.length = f.aliases.length + 1 := by simp [Field.names, hconstant]
              rw [hnames, List.length_singleton, Nat.right_eq_add, List.length_eq_zero_iff, ← List.isEmpty_iff] at hlength
              exact ⟨⟨hlength, hrest⟩, ⟨_, hsettle⟩, hparts⟩
          · rintro ⟨⟨haliases, hrest⟩, ⟨⟨d, column⟩, hsettle⟩, hothers⟩
            obtain ⟨others, hothers⟩ := ih.2 ⟨hrest, hothers⟩
            have hnames := Field.names_of_unaliased hconstant (List.isEmpty_iff.1 haliases)
            rw [probeFields, hconstant, hnames]
            exact ⟨_, Outcome.bind_eq_ok.2 ⟨(d, column), hsettle, Outcome.bind_eq_ok.2 ⟨(d, some column), rfl,
              Outcome.bind_eq_ok.2 ⟨others, hothers, rfl⟩⟩⟩⟩

theorem probePayload_isOk {payload : Payload} :
    (∃ d, probePayload registry around payload = .ok d) ↔
      doubledPayload payload = false ∧ ∀ q ∈ payloadParts around payload, q.Settles registry := by
  -- Whatever carries parts succeeds if they do.
  have hbind : ∀ {α : Type} {x : Outcome α} {f : α → Datum},
      (∃ d, (x >>= fun a => .ok (f a)) = .ok d) ↔ ∃ a, x = .ok a := by
    intro α x f
    cases x <;> simp [bind, Except.bind]
  cases payload with
  | unit =>
      rw [probePayload]
      exact iff_of_true ⟨_, rfl⟩ ⟨rfl, by simp [payloadParts]⟩
  | newtype content =>
      rw [probePayload, payloadParts, List.forall_mem_singleton]
      exact hbind.trans (and_iff_right rfl).symm
  | tuple items =>
      rw [probePayload, payloadParts, ← probeItems_isOk]
      exact hbind.trans (and_iff_right rfl).symm
  | fields fields =>
      rw [probePayload, payloadParts, doubledPayload, ← probeFields_isOk]
      exact hbind

/-! ## A part and its parts -/

mutual

theorem madeUp_iff (registry : Registry) (around : Shape) : ∀ s : Shape, MadeUp (probe registry around s) ↔
    stuck registry around s = false ∧ ∀ q ∈ parts registry around s, q.Settles registry
  | .option content => by
      rw [probe_option, stuck, parts, ← madeUp_iff registry around content]
      exact madeUp_map fun _ => rfl
  | .box content => by rw [probe_box, stuck, parts, madeUp_iff registry around content]
  | .transparent _ content => by rw [probe_transparent, stuck, parts, madeUp_iff registry around content]
  | .newtype _ content => by
      rw [probe_newtype, stuck, parts, ← madeUp_iff registry around content]
      exact madeUp_map fun _ => rfl
  | .guarded _ content _ => by
      rw [probe_guarded, stuck, parts, ← madeUp_iff registry around content]
      exact madeUp_map fun _ => rfl
  | .checked _ content refusal => by
      rw [probe_checked, stuck, parts, Bool.or_eq_false_iff, and_right_comm, ← madeUp_iff registry around content]
      exact madeUp_checked
  | .array item length => by
      rw [probe, parts]
      by_cases hlength : length = 0
      · rw [if_pos hlength, if_pos hlength]
        exact iff_of_true ⟨_, _, rfl, rfl⟩ ⟨rfl, fun q hq => nomatch hq⟩
      · rw [if_neg hlength, if_neg hlength, madeUp_shaped, List.forall_mem_singleton]
        exact (and_iff_right rfl).symm
  | .tuple items => by
      rw [probe, parts, madeUp_shaped, probeItems_isOk]
      exact (and_iff_right rfl).symm
  | .tupleStruct _ items => by
      rw [probe, parts, madeUp_shaped, probeItems_isOk]
      exact (and_iff_right rfl).symm
  | .record name strict fields => by rw [probe, stuck, parts, madeUp_shaped, probeFields_isOk]
  | .choice _ [] => by
      rw [probe]
      exact iff_of_false (not_madeUp_error _) fun h => Bool.noConfusion h.1
  | .choice _ ((_, payload) :: _) => by rw [probe, stuck, parts, madeUp_shaped, probePayload_isOk]
  | .adjacent _ _ _ [] => by
      rw [probe]
      exact iff_of_false (not_madeUp_error _) fun h => Bool.noConfusion h.1
  | .adjacent name _ _ ((variant, payload) :: _) => by
      rw [probe, madeUp_shaped, settleContent, stuck, parts]
      cases hkey : registry.lookup (placeholderKey name.text).1 with
      | none =>
          rw [settle_isOk_none hkey, contentMadeUp_iff registry around payload]
          rfl
      | some sample =>
          rw [settle_isOk_some hkey]
          show _ ↔ (contentOf around name variant payload ⟨"placeholder", sample.value⟩).toOption.isNone = false ∧ _
          cases contentOf around name variant payload ⟨"placeholder", sample.value⟩ with
          | error e => exact iff_of_false (fun h => by cases h.choose_spec) fun h => Bool.noConfusion h.1
          | ok d => exact iff_of_true ⟨d, rfl⟩ ⟨rfl, fun q hq => nomatch hq⟩
  | .int type => by
      rw [probe, stuck, parts]
      cases type.storable with
      | true => exact iff_of_true ⟨_, _, rfl, rfl⟩ ⟨rfl, by simp⟩
      | false => exact iff_of_false (not_madeUp_error _) fun h => Bool.noConfusion h.1
      all_goals simp
  | .bool | .single | .double | .char | .text | .bytes _ | .unit _ | .list _ | .map _ _ | .pairs _ _ _ => by
      rw [probe]
      exact iff_of_true ⟨_, _, rfl, rfl⟩ ⟨rfl, fun q hq => nomatch hq⟩
  | .enclosing _ | .tagged _ _ _ | .untagged _ _ | .anything _ => by
      rw [probe]
      exact iff_of_false (not_madeUp_error _) fun h => Bool.noConfusion h.1
  | .ignored _ | .label _ => by
      rw [probe]
      refine iff_of_false ?_ fun h => Bool.noConfusion h.1
      rintro ⟨p, type, hp, htype⟩
      cases hp
      cases htype
  | .flattened _ fields => by
      rw [probe, stuck]
      cases completeFields [] fields with
      | none => exact iff_of_false (not_madeUp_error _) fun h => Bool.noConfusion h.1
      | some values => exact iff_of_true ⟨_, _, rfl, rfl⟩ ⟨rfl, fun q hq => nomatch hq⟩

theorem contentMadeUp_iff (registry : Registry) (around : Shape) : ∀ payload : Payload,
    MadeUp (probeContent registry around payload) ↔
      stuckContent registry around payload = false ∧ ∀ q ∈ contentParts registry around payload, q.Settles registry
  | .unit => by
      rw [probeContent]
      exact iff_of_false (not_madeUp_error _) fun h => Bool.noConfusion h.1
  | .newtype content => by rw [probeContent, stuckContent, contentParts, madeUp_iff registry around content]
  | .tuple items => by
      rw [probeContent, contentParts, madeUp_shaped, probeItems_isOk]
      exact (and_iff_right rfl).symm
  | .fields fields => by rw [probeContent, stuckContent, contentParts, madeUp_shaped, probeFields_isOk]

end

/-- A part gets a value exactly if it is served and, without a sample, all of its parts get one. -/
theorem settles_iff {q : Part} : q.Settles registry ↔
    q.Served registry ∧
      (registry.lookup q.shape.key.1 = none → ∀ r ∈ parts registry q.around q.shape, r.Settles registry) := by
  cases hkey : registry.lookup q.shape.key.1 with
  | some sample =>
      have hserved : q.Served registry ↔ ∃ d, decodeField q.around ⟨"placeholder", sample.value⟩ q.shape = .ok d := by
        rw [Served, hkey]
      rw [hserved]
      exact (settle_isOk_some hkey).trans (and_iff_left fun hnone => nomatch hnone).symm
  | none =>
      have hserved : q.Served registry ↔ stuck registry q.around q.shape = false := by
        rw [Served, hkey]
      have hmade : q.Settles registry ↔ _ := (settle_isOk_none hkey).trans (madeUp_iff registry q.around q.shape)
      rw [hserved]
      exact hmade.trans (and_congr_right fun _ => ⟨fun h _ => h, fun h => h rfl⟩)

/-! ## Parts of parts -/

theorem sizeOf_lt_of_itemParts {items : List Shape} {q : Part} (h : q ∈ itemParts around items) :
    sizeOf q.shape < sizeOf items := by
  obtain ⟨s, hs, rfl⟩ := List.mem_map.1 h
  exact List.sizeOf_lt_of_mem hs

theorem sizeOf_lt_of_readParts {fields : List (Field × Shape)} {q : Part} (h : q ∈ readParts around fields) :
    sizeOf q.shape < sizeOf fields := by
  obtain ⟨⟨f, s⟩, hp, rfl⟩ := List.mem_map.1 h
  have hmem := List.sizeOf_lt_of_mem (List.mem_filter.1 hp).1
  have hpair : sizeOf (f, s) = 1 + sizeOf f + sizeOf s := rfl
  show sizeOf s < _
  omega

theorem sizeOf_lt_of_payloadParts {payload : Payload} {q : Part} (h : q ∈ payloadParts around payload) :
    sizeOf q.shape < sizeOf payload := by
  cases payload with
  | unit => cases h
  | newtype content =>
      rw [List.mem_singleton.1 h]
      simp
  | tuple items =>
      have hitem := sizeOf_lt_of_itemParts h
      simp only [Payload.tuple.sizeOf_spec]
      omega
  | fields fields =>
      have hfield := sizeOf_lt_of_readParts h
      simp only [Payload.fields.sizeOf_spec]
      omega

mutual

/-- A part is smaller than what it is a part of. -/
theorem sizeOf_lt_of_parts (registry : Registry) (around : Shape) {q : Part} : ∀ s : Shape,
    q ∈ parts registry around s → sizeOf q.shape < sizeOf s
  | .option content => fun h => by
      have hcontent := sizeOf_lt_of_parts registry around content h
      simp only [option.sizeOf_spec]
      omega
  | .box content => fun h => by
      have hcontent := sizeOf_lt_of_parts registry around content h
      simp only [box.sizeOf_spec]
      omega
  | .transparent _ content => fun h => by
      have hcontent := sizeOf_lt_of_parts registry around content h
      simp only [transparent.sizeOf_spec]
      omega
  | .newtype _ content => fun h => by
      have hcontent := sizeOf_lt_of_parts registry around content h
      simp only [newtype.sizeOf_spec]
      omega
  | .checked _ content _ => fun h => by
      have hcontent := sizeOf_lt_of_parts registry around content h
      simp only [checked.sizeOf_spec]
      omega
  | .guarded _ content _ => fun h => by
      have hcontent := sizeOf_lt_of_parts registry around content h
      simp only [guarded.sizeOf_spec]
      omega
  | .array item length => fun h => by
      rw [parts] at h
      split at h
      · cases h
      · rw [List.mem_singleton.1 h]
        simp only [array.sizeOf_spec]
        omega
  | .tuple items => fun h => by
      have hitem := sizeOf_lt_of_itemParts h
      simp only [tuple.sizeOf_spec]
      omega
  | .tupleStruct _ items => fun h => by
      have hitem := sizeOf_lt_of_itemParts h
      simp only [tupleStruct.sizeOf_spec]
      omega
  | .record _ _ fields => fun h => by
      have hfield := sizeOf_lt_of_readParts h
      simp only [record.sizeOf_spec]
      omega
  | .choice _ [] => fun h => nomatch h
  | .choice _ ((_, payload) :: _) => fun h => by
      have hcarried := sizeOf_lt_of_payloadParts h
      simp only [choice.sizeOf_spec, List.cons.sizeOf_spec, Prod.mk.sizeOf_spec]
      omega
  | .adjacent _ _ _ [] => fun h => nomatch h
  | .adjacent _ _ _ ((_, payload) :: _) => fun h => by
      rw [parts] at h
      split at h
      · cases h
      · have hcontent := sizeOf_lt_of_contentParts registry around payload h
        simp only [adjacent.sizeOf_spec, List.cons.sizeOf_spec, Prod.mk.sizeOf_spec]
        omega
  | .bool | .int _ | .single | .double | .char | .text | .bytes _ | .unit _ | .list _ | .map _ _ | .pairs _ _ _
  | .enclosing _ | .tagged _ _ _ | .untagged _ _ | .anything _ | .ignored _ | .label _ | .flattened _ _ =>
      fun h => nomatch h

theorem sizeOf_lt_of_contentParts (registry : Registry) (around : Shape) {q : Part} : ∀ payload : Payload,
    q ∈ contentParts registry around payload → sizeOf q.shape < sizeOf payload
  | .unit => fun h => nomatch h
  | .newtype content => fun h => by
      have hcontent := sizeOf_lt_of_parts registry around content h
      simp only [Payload.newtype.sizeOf_spec]
      omega
  | .tuple items => fun h => by
      have hitem := sizeOf_lt_of_itemParts h
      simp only [Payload.tuple.sizeOf_spec]
      omega
  | .fields fields => fun h => by
      have hfield := sizeOf_lt_of_readParts h
      simp only [Payload.fields.sizeOf_spec]
      omega

end

/-- All parts that come up get a value exactly if all of them are served. -/
theorem settles_start_iff {start : List Part} :
    (∀ q ∈ start, q.Settles registry) ↔ ∀ q, Reached registry start q → q.Served registry := by
  constructor
  · intro hstart q hreached
    suffices hsettles : q.Settles registry from (settles_iff.1 hsettles).1
    induction hreached with
    | start h => exact hstart _ h
    | inside _ hnone hr ih => exact (settles_iff.1 ih).2 hnone _ hr
  · intro hserved
    -- A part is smaller than what it is a part of, so the parts of a part come first.
    suffices hsettles : ∀ n (q : Part), sizeOf q.shape < n → Reached registry start q → q.Settles registry from
      fun q hq => hsettles _ q (Nat.lt_succ_self _) (.start hq)
    intro n
    induction n with
    | zero => exact fun q hq => absurd hq (Nat.not_lt_zero _)
    | succ n ih =>
        intro q hq hreached
        refine settles_iff.2 ⟨hserved q hreached, fun hnone r hr => ih r ?_ (.inside hreached hnone hr)⟩
        have hsmaller := sizeOf_lt_of_parts registry q.around q.shape hr
        omega

/-! ## Records -/

/-- Whether a check on a whole record refuses what is made up for it. -/
def rowRefuses (registry : Registry) : Shape → Bool
  | .box s => rowRefuses registry s
  | .transparent _ s => rowRefuses registry s
  | .checked _ s refusal =>
      rowRefuses registry s || match probeRecord registry s with
        | .ok (d, _) => (refusal d).isSome
        | .error _ => false
  | _ => false

theorem probeRecord_isOk {s : Shape} {name : TypeName} {strict : Bool} {fields : List (Field × Shape)}
    (hshape : s.rowShape = .record name strict fields) :
    (∃ r, probeRecord registry s = .ok r) ↔
      (∃ probed, probeFields registry (.record name strict fields) fields = .ok probed) ∧
        rowRefuses registry s = false := by
  induction s using rowShape.induct with
  | case1 s ih =>
      rw [probeRecord, rowRefuses]
      exact ih hshape
  | case2 _ s ih =>
      rw [probeRecord, rowRefuses]
      exact ih hshape
  | case3 _ s refusal ih =>
      rw [probeRecord, rowRefuses, Bool.or_eq_false_iff, ← and_assoc, ← ih hshape]
      cases probeRecord registry s with
      | error e =>
          refine iff_of_false ?_ ?_
          · rintro ⟨r, hr⟩
            cases hr
          · rintro ⟨⟨r, hr⟩, -⟩
            cases hr
      | ok made =>
          obtain ⟨d, columns⟩ := made
          rw [Option.isSome_eq_false_iff, Option.isNone_iff_eq_none]
          show (∃ r, (d.pass refusal >>= fun value => .ok (value, columns)) = .ok r) ↔ _
          constructor
          · rintro ⟨r, hr⟩
            obtain ⟨value, hpass, -⟩ := Outcome.bind_eq_ok.1 hr
            exact ⟨⟨_, rfl⟩, (Datum.pass_eq_ok.1 hpass).1⟩
          · rintro ⟨-, hpass⟩
            exact ⟨_, Outcome.bind_eq_ok.2 ⟨d, Datum.pass_eq_ok.2 ⟨hpass, rfl⟩, rfl⟩⟩
  | case4 s hbox htransparent hchecked =>
      rw [rowShape_eq_self hbox htransparent hchecked] at hshape
      subst hshape
      rw [probeRecord, rowRefuses]
      constructor
      · rintro ⟨r, hr⟩
        obtain ⟨probed, hprobed, -⟩ := Outcome.bind_eq_ok.1 hr
        exact ⟨⟨probed, hprobed⟩, rfl⟩
      · rintro ⟨⟨probed, hprobed⟩, -⟩
        exact ⟨_, Outcome.bind_eq_ok.2 ⟨probed, hprobed, rfl⟩⟩
      all_goals simp

/-! ## Registered parts -/

/-- A part whose type got a sample that it can read is served. -/
theorem served_register {registry' : Registry} {s : Shape} {d : Datum}
    (hregister : registry.register s.typeName d = .ok (true, registry')) (hplain : s.key.2 = false)
    (hfills : Fills around s d) : Part.Served registry' ⟨around, s⟩ := by
  obtain ⟨hanswer, -⟩ | ⟨-, -, sample, hsample, -, hlookup⟩ := Registry.register_ok hregister
  · cases hanswer
  · have hfound := (hlookup s.key.1).trans (if_pos (placeholderKey_plain hplain))
    rw [Served, hfound]
    exact hfills _ _ hsample

/-- So is an option of the type. -/
theorem served_register_option {registry' : Registry} {s : Shape} {d : Datum}
    (hregister : registry.register s.typeName d = .ok (true, registry')) (hplain : s.key.2 = false)
    (hfills : Fills around s d) : Part.Served registry' ⟨around, .option s⟩ := by
  obtain ⟨hanswer, -⟩ | ⟨-, -, sample, hsample, hclass, hlookup⟩ := Registry.register_ok hregister
  · cases hanswer
  · have hfound := hlookup (Shape.option s).key.1
    rw [key_option hplain, if_pos rfl] at hfound
    obtain ⟨e, he⟩ := hfills "placeholder" _ hsample
    rw [Served, key_option hplain, hfound]
    exact ⟨_, decodeField_present hclass he⟩

end Shape

namespace RecordType

open Shape

variable {registry : Registry} {type : RecordType} {name : TypeName} {strict : Bool} {fields : List (Field × Shape)}

/-- What it takes for a record type to have a definition under the samples that there are. -/
structure Usable (registry : Registry) (type : RecordType) (name : TypeName) (strict : Bool)
    (fields : List (Field × Shape)) : Prop where
  /-- Every field that is read is read under one name. -/
  single : doubled fields = false
  /-- Of all parts that come up, those with a sample read it, and something is made up for the others. -/
  served : ∀ q, Part.Reached registry (readParts (.record name strict fields) fields) q → q.Served registry
  /-- No check on the whole record refuses what is made up for it. -/
  accepted : rowRefuses registry type.shape = false
  /-- The key and the indexes are over fields that are read. -/
  known : ∀ c ∈ type.primaryKey ++ type.indexes.flatMap Index.columns,
    ∃ p ∈ fields, p.1.constant = none ∧ p.1.name = c

/-- The columns are called like the fields that are read. -/
theorem mem_map_probedColumns {around : Shape} {probed : List ProbedField}
    (h : probeFields registry around fields = .ok probed) {c : String} :
    c ∈ (probedColumns probed).map Prod.fst ↔ ∃ p ∈ fields, p.1.constant = none ∧ p.1.name = c := by
  constructor
  · intro hc
    obtain ⟨⟨n, column⟩, hmem, rfl⟩ := List.mem_map.1 hc
    obtain ⟨p, hp, hread, hname, -⟩ := (mem_probedColumns h).1 hmem
    exact ⟨p, hp, hread, hname⟩
  · rintro ⟨p, hp, hread, rfl⟩
    obtain ⟨-, d, column, hsettle⟩ := settled_of_probeFields h p hp hread
    exact List.mem_map.2 ⟨_, (mem_probedColumns h).2 ⟨p, hp, hread, rfl, d, hsettle⟩, rfl⟩

/-- Samples among which there is one of a handle. -/
def handleSample : Registry := ⟨[("gallery::Handle", ⟨.text, .text "@a"⟩)]⟩

theorem register_handle :
    Registry.empty.register (Gallery.handle "gallery").typeName (.text "@a") = .ok (true, handleSample) := rfl

end RecordType

end RecordTables
