import RecordTables.Proofs.Record.OneField
import RecordTables.Proofs.Record.Probed
import RecordTables.Proofs.Record.SampleKeys

/-!
# What is made up for a type, and what is blamed

Without samples, the column of a field follows from its type alone.  Values are made up for the parts of a type one
after the other, each part behind those inside of it; the first one for which none can be made up is blamed.  If there
is no such part, the type itself has the storage class of its core, and takes NULL if there is an option around that.
-/

namespace RecordTables

namespace Shape

/-! ## Positions -/

/-- A part that gets a value of its own: the type that is asked for there, and its shape. -/
structure Position where
  name : TypeName
  shape : Shape

/-- The name under which the type of a part is missed, without the options around it. -/
def Position.key (q : Position) : String := (placeholderKey q.name.text).1

/-- A shape where it stands. -/
def position (s : Shape) : Position := ⟨s.typeName, s⟩

/-- The content of an adjacently tagged variant as a shape.  One that carries nothing asks for any value, to see that it
is NULL. -/
def contentShape (name : TypeName) : Payload → Shape
  | .unit => .anything name
  | .newtype content => content
  | .tuple items => .tupleStruct name items
  | .fields fields => .record name false fields

mutual

/-- The parts inside a shape, in the order in which values are made up for them.  A list and a map have none, a type of
variants those of its first variant; layers are part of what they are around. -/
def visited : Shape → List Position
  | .option content => visited content
  | .box content => visited content
  | .transparent _ content => visited content
  | .newtype _ content => visited content
  | .checked _ content _ => visited content
  | .guarded _ content _ => visited content
  | .array item length => if length = 0 then [] else visited item ++ [item.position]
  | .tuple items => visitedItems items
  | .tupleStruct _ items => visitedItems items
  | .record _ _ fields => visitedFields fields
  | .choice _ ((_, payload) :: _) => visitedPayload payload
  | .adjacent name _ _ ((_, payload) :: _) => visitedContent payload ++ [⟨name, contentShape name payload⟩]
  | _ => []

def visitedItems : List Shape → List Position
  | [] => []
  | s :: rest => visited s ++ s.position :: visitedItems rest

/-- The fields that are read, up to the first one that goes by a second name. -/
def visitedFields : List (Field × Shape) → List Position
  | [] => []
  | (f, s) :: rest =>
      if f.constant.isSome then visitedFields rest
      else visited s ++ s.position :: if f.names.length = 1 then visitedFields rest else []

def visitedPayload : Payload → List Position
  | .unit => []
  | .newtype content => visited content ++ [content.position]
  | .tuple items => visitedItems items
  | .fields fields => visitedFields fields

/-- The parts inside the content of an adjacently tagged variant. -/
def visitedContent : Payload → List Position
  | .unit => []
  | .newtype content => visited content
  | .tuple items => visitedItems items
  | .fields fields => visitedFields fields

end

/-- All parts of a field: those inside of its shape, and the shape itself as the last one. -/
def allVisited (s : Shape) : List Position := s.visited ++ [s.position]

/-! ## Values that are made up -/

mutual

/-- The value that is made up for a shape, as far as there is one. -/
def dummy : Shape → Datum
  | .bool => .bool true
  | .int type => .int type 1
  | .single => .single (Double.ofInt 1).narrow
  | .double => .double (.ofInt 1)
  | .char => .char 'x'
  | .text => .text probeText
  | .label _ => .text probeText
  | .bytes _ => .bytes .empty
  | .option content => .present (dummy content)
  | .box content => dummy content
  | .transparent _ content => dummy content
  | .newtype _ content => .newtype (dummy content)
  | .checked _ content _ => dummy content
  | .guarded _ content refusal => (dummy content).presented refusal
  | .list _ => .list []
  | .array item length => .list (List.replicate length (dummy item))
  | .tuple items => .list (dummyItems items)
  | .tupleStruct _ items => .list (dummyItems items)
  | .map _ _ => .map []
  | .pairs _ _ _ => .map []
  | .record _ _ fields => .record (presentedFields (dummyFields fields))
  | .choice _ ((variant, payload) :: _) => payload.datum variant (dummyPayload payload)
  | .adjacent _ tag content ((variant, payload) :: _) =>
      adjacentRecord tag content variant (some (dummyPayload payload))
  | .flattened _ fields =>
      ((completeFields [] fields).map fun values =>
        .map ((presentedFields values).map fun (name, d) => (.text name, d))).getD .unit
  | _ => .unit

def dummyItems : List Shape → List Datum
  | [] => []
  | s :: rest => dummy s :: dummyItems rest

def dummyFields : List (Field × Shape) → List (Field × Datum)
  | [] => []
  | (f, s) :: rest => (f, f.constant.getD (dummy s)) :: dummyFields rest

def dummyPayload : Payload → Datum
  | .unit => .unit
  | .newtype content => dummy content
  | .tuple items => .list (dummyItems items)
  | .fields fields => .record (presentedFields (dummyFields fields))

end

/-- Whether a field that is read goes by a second name; a reader of such fields refuses to be given one twice. -/
def repeatsField (fields : List (Field × Shape)) : Bool :=
  fields.any fun p => p.1.constant.isNone && p.1.names.length != 1

/-- Whether nothing can be made up for a shape itself, whatever there is for its parts. -/
def unshapeable : Shape → Bool
  | .int type => !type.storable
  | .tagged _ _ _ => true
  | .untagged _ _ => true
  | .anything _ => true
  | .label _ => true
  | .ignored _ => true
  | .choice _ [] => true
  | .adjacent _ _ _ [] => true
  | .option content => content.unshapeable
  | .box content => content.unshapeable
  | .transparent _ content => content.unshapeable
  | .newtype _ content => content.unshapeable
  | .guarded _ content _ => content.unshapeable
  -- Readers that refuse what is made up: a check, a field that comes twice, fields that do not come at all.
  | .checked _ content refusal => content.unshapeable || (refusal content.dummy).isSome
  | .record _ _ fields => repeatsField fields
  | .choice _ ((_, .fields fields) :: _) => repeatsField fields
  | .flattened _ fields => (completeFields [] fields).isNone
  -- The parts of a type within itself would have no end.
  | .enclosing _ => true
  | _ => false

/-- The storage class of a shape without layers around it. -/
def storageClass : Shape → ColumnType
  | .bool => .integer
  | .int _ => .integer
  | .single => .real
  | .double => .real
  | .bytes _ => .blob
  | _ => .text

/-! ## Blame -/

namespace Position

/-- Whether nothing can be made up for a part itself. -/
def faulty (q : Position) : Bool := q.shape.unshapeable

end Position

/-- The outcome of making up values for parts one after the other, and then going on: the first part for which there is
none is blamed. -/
def blame {α : Type} (parts : List Position) (next : Outcome α) : Outcome α :=
  match parts.find? Position.faulty with
  | some q => .error (.missingPlaceholder q.key)
  | none => next

section

variable {α β : Type} {parts more : List Position} {x : Outcome α}

@[simp]
theorem blame_nil : blame [] x = x := rfl

theorem blame_append : blame (parts ++ more) x = blame parts (blame more x) := by
  unfold blame
  rw [List.find?_append]
  cases parts.find? Position.faulty <;> rfl

theorem blame_bind (f : α → Outcome β) : blame parts x >>= f = blame parts (x >>= f) := by
  unfold blame
  cases parts.find? Position.faulty <;> rfl

theorem blame_eq_ok {a : α} : blame parts x = .ok a ↔ (∀ q ∈ parts, q.faulty = false) ∧ x = .ok a := by
  unfold blame
  cases h : parts.find? Position.faulty with
  | none => simpa using fun _ => List.find?_eq_none.1 h
  | some q =>
      refine ⟨fun he => (by cases he), fun hall => ?_⟩
      have hq := List.find?_some h
      rw [hall.1 q (List.mem_of_find?_eq_some h)] at hq
      cases hq

/-- If a value is made up in the end, the first part without one is blamed for all that goes wrong. -/
theorem blame_ok_eq_error {a : α} {e : Error} : blame parts (.ok a) = .error e ↔
    ∃ before q after, parts = before ++ q :: after ∧ (∀ p ∈ before, p.faulty = false) ∧ q.faulty = true ∧
      e = .missingPlaceholder q.key := by
  unfold blame
  cases h : parts.find? Position.faulty with
  | none =>
      refine ⟨fun he => (by cases he), ?_⟩
      rintro ⟨before, q, after, rfl, -, hq, -⟩
      exact absurd hq (List.find?_eq_none.1 h q (by simp))
  | some q =>
      obtain ⟨hq, before, after, rfl, hbefore⟩ := List.find?_eq_some_iff_append.1 h
      simp only [Bool.not_eq_eq_eq_not, Bool.not_true] at hbefore
      constructor
      · intro he
        cases he
        exact ⟨before, q, after, rfl, hbefore, hq, rfl⟩
      · rintro ⟨before', q', after', hsplit, hbefore', hq', rfl⟩
        have hfirst : (before' ++ q' :: after').find? Position.faulty = some q' :=
          List.find?_eq_some_iff_append.2 ⟨hq', before', after', rfl, by simpa using hbefore'⟩
        rw [← hsplit, h] at hfirst
        rw [Option.some.inj hfirst]

end

/-! ## Making up values -/

/-- What is made up where there is no value: an error that blames nobody yet, or a value without a storage class. -/
inductive Unmade : Outcome Probed → Prop
  | error {e : Error} (h : ∀ key, e ≠ .missingPlaceholder key) : Unmade (.error e)
  | untyped {p : Probed} (h : p.type = none) : Unmade (.ok p)

theorem unmade_unshaped : Unmade Probed.unshaped := .error fun _ h => by cases h

theorem Unmade.bind {x : Outcome Probed} {f : Probed → Outcome Probed} (hx : Unmade x)
    (hf : ∀ p, p.type = none → Unmade (f p)) : Unmade (x >>= f) := by
  cases hx with
  | error h => exact .error h
  | untyped h => exact hf _ h

/-- What is made up for a shape once there are values for its parts. -/
inductive Made (s : Shape) : Outcome Probed → Prop
  | value (h : s.unshapeable = false) : Made s (.ok ⟨s.dummy, some s.core.storageClass, s.takesNull⟩)
  | nothing {x : Outcome Probed} (h : s.unshapeable = true) (hx : Unmade x) : Made s x

/-- The same for the fields of a record. -/
inductive MadeFields (fields : List (Field × Shape)) : Outcome (List ProbedField) → Prop
  | values {values : List ProbedField} (h : repeatsField fields = false)
      (hvalues : probedValues values = dummyFields fields) : MadeFields fields (.ok values)
  | nothing {e : Error} (h : repeatsField fields = true) (he : ∀ key, e ≠ .missingPlaceholder key) :
      MadeFields fields (.error e)

/-- And for what a variant carries. -/
inductive MadePayload (payload : Payload) : Outcome Datum → Prop
  | value (h : ∀ fields, payload = .fields fields → repeatsField fields = false) :
      MadePayload payload (.ok (dummyPayload payload))
  | nothing {fields : List (Field × Shape)} {e : Error} (hfields : payload = .fields fields)
      (h : repeatsField fields = true) (he : ∀ key, e ≠ .missingPlaceholder key) : MadePayload payload (.error e)

/-- A part is blamed for what goes wrong with itself. -/
theorem settle_blame {name : TypeName} {s : Shape} {parts : List Position} {x : Outcome Probed} (hx : Made s x)
    (optional : Bool) (decode : Cell → Outcome Datum) :
    settle .empty (placeholderKey name.text).1 optional decode (blame parts x) =
      blame (parts ++ [⟨name, s⟩]) (.ok (s.dummy, ⟨s.core.storageClass, s.takesNull⟩)) := by
  have hlookup : Registry.empty.lookup (placeholderKey name.text).1 = none := rfl
  rw [blame_append]
  unfold settle
  rw [hlookup]
  cases hfind : parts.find? Position.faulty with
  | some q => simp only [blame, hfind]
  | none =>
      cases hx with
      | value h => simp [blame, hfind, Position.faulty, h]
      | nothing h hx =>
          cases hx with
          | untyped htype => simp [blame, hfind, Position.faulty, Position.key, h, htype]
          | error he =>
              rename_i e
              cases e with
              | missingPlaceholder key => exact absurd rfl (he key)
              | _ => simp [blame, hfind, Position.faulty, Position.key, h]

theorem settleShape_blame {around s : Shape} {x : Outcome Probed} (hx : Made s x) :
    settleShape .empty around s (blame s.visited x) =
      blame s.allVisited (.ok (s.dummy, ⟨s.core.storageClass, s.takesNull⟩)) :=
  settle_blame hx _ _

/-- A layer makes of a value what it makes of all values, and leaves the storage class. -/
theorem Made.layer {s content : Shape} {x : Outcome Probed} (hx : Made content x) (f : Probed → Probed)
    (hshape : s.unshapeable = content.unshapeable) (htype : ∀ p, (f p).type = p.type)
    (hvalue : f ⟨content.dummy, some content.core.storageClass, content.takesNull⟩ =
      ⟨s.dummy, some s.core.storageClass, s.takesNull⟩) : Made s (x >>= fun p => .ok (f p)) := by
  cases hx with
  | value h =>
      show Made s (.ok (f _))
      rw [hvalue]
      exact .value (hshape.trans h)
  | nothing h hx => exact .nothing (hshape.trans h) (hx.bind fun p hp => .untyped ((htype p).trans hp))

/-- A check lets the value pass or makes the type unshapeable. -/
theorem Made.check {name : TypeName} {content : Shape} {refusal : Datum → Option String} {x : Outcome Probed}
    (hx : Made content x) : Made (.checked name content refusal) (x >>= fun p => do
      let value ← p.value.pass refusal
      return { p with value }) := by
  have hshape : (Shape.checked name content refusal).unshapeable =
      (content.unshapeable || (refusal content.dummy).isSome) := rfl
  have hrefused : ∀ (why : String) (f : Datum → Outcome Probed),
      Unmade ((.error (.serialization (.refused why)) : Outcome Datum) >>= f) :=
    fun why f => .error fun key h => by cases h
  cases hx with
  | value h =>
      show Made _ (content.dummy.pass refusal >>= _)
      unfold Datum.pass
      cases hwhy : refusal content.dummy with
      | none => exact .value (by rw [hshape, h, hwhy]; rfl)
      | some why => exact .nothing (by rw [hshape, hwhy, Option.isSome_some, Bool.or_true]) (hrefused why _)
  | nothing h hx =>
      refine .nothing (by rw [hshape, h, Bool.true_or]) (hx.bind fun p hp => ?_)
      unfold Datum.pass
      cases refusal p.value with
      | none => exact .untyped hp
      | some why => exact hrefused why _

theorem MadeFields.record {name : TypeName} {strict : Bool} {fields : List (Field × Shape)}
    {x : Outcome (List ProbedField)} (hx : MadeFields fields x) :
    Made (.record name strict fields) (x >>= fun values =>
      Probed.shaped .text (.record (presentedFields (probedValues values)))) := by
  cases hx with
  | values h hvalues =>
      show Made _ (Probed.shaped .text (.record (presentedFields (probedValues _))))
      rw [hvalues]
      exact .value h
  | nothing h he => exact .nothing h (.error he)

/-- A field in front that goes by one name, or is not read. -/
theorem MadeFields.cons {f : Field} {s : Shape} {fields : List (Field × Shape)} {x : Outcome (List ProbedField)}
    (hx : MadeFields fields x) (hf : (f.constant.isNone && f.names.length != 1) = false) {d : Datum}
    (hd : f.constant.getD s.dummy = d) (column : Option Column) :
    MadeFields ((f, s) :: fields) (x >>= fun others => .ok ((f, d, column) :: others)) := by
  have hrepeats : repeatsField ((f, s) :: fields) = repeatsField fields := by
    rw [repeatsField, List.any_cons, hf, Bool.false_or]
    rfl
  cases hx with
  | values h hvalues =>
      refine .values (hrepeats.trans h) ?_
      rw [dummyFields, ← hvalues, hd]
      rfl
  | nothing h he => exact .nothing (hrepeats.trans h) he

theorem MadeFields.payload {fields : List (Field × Shape)} {x : Outcome (List ProbedField)}
    (hx : MadeFields fields x) : MadePayload (.fields fields) (x >>= fun values =>
      .ok (.record (presentedFields (probedValues values)))) := by
  cases hx with
  | values h hvalues =>
      show MadePayload _ (.ok (.record (presentedFields (probedValues _))))
      rw [hvalues]
      refine .value fun _ hfields => ?_
      cases hfields
      exact h
  | nothing h he => exact .nothing rfl h he

theorem MadePayload.choice {name : TypeName} {variant : String} {payload : Payload} {rest : List (String × Payload)}
    {x : Outcome Datum} (hx : MadePayload payload x) :
    Made (.choice name ((variant, payload) :: rest)) (x >>= fun carried =>
      Probed.shaped .text (payload.datum variant carried)) := by
  cases hx with
  | value h =>
      refine .value ?_
      cases payload with
      | unit | newtype | tuple => rfl
      | fields fields => exact h fields rfl
  | nothing hfields h he =>
      subst hfields
      exact .nothing h (.error he)

section

variable {registry : Registry} {around s : Shape} {f : Field} {rest : List (Field × Shape)}

/-- A field that is not read keeps its constant. -/
theorem probeFields_of_constant {d : Datum} (h : f.constant = some d) :
    probeFields registry around ((f, s) :: rest) =
      probeFields registry around rest >>= fun others => .ok ((f, d, none) :: others) := by
  rw [probeFields, h]
  rfl

theorem probeFields_of_name (h : f.constant = none) (hname : f.names.length = 1) :
    probeFields registry around ((f, s) :: rest) =
      settleShape registry around s (probe registry around s) >>= fun found =>
        probeFields registry around rest >>= fun others => .ok ((f, found.1, some found.2) :: others) := by
  rw [probeFields, h]
  cases settleShape registry around s (probe registry around s) with
  | error e => rfl
  | ok found =>
      simp only [Except.bind, Bind.bind, if_pos hname]

/-- A field that goes by a second name is given twice. -/
theorem probeFields_of_names (h : f.constant = none) (hname : f.names.length ≠ 1) :
    probeFields registry around ((f, s) :: rest) =
      settleShape registry around s (probe registry around s) >>= fun _ =>
        .error (.serialization (.duplicateField f.name)) := by
  rw [probeFields, h]
  cases settleShape registry around s (probe registry around s) with
  | error e => rfl
  | ok found =>
      simp only [Except.bind, Bind.bind, if_neg hname]

end

/-- A layer that leaves the value as it is. -/
theorem Made.same {s content : Shape} {x : Outcome Probed} (hx : Made content x)
    (hshape : s.unshapeable = content.unshapeable) (hdummy : content.dummy = s.dummy)
    (hclass : content.core.storageClass = s.core.storageClass) (hnull : content.takesNull = s.takesNull) :
    Made s x := by
  cases hx with
  | value h =>
      rw [hdummy, hclass, hnull]
      exact .value (hshape.trans h)
  | nothing h hx => exact .nothing (hshape.trans h) hx

mutual

/-- What is made up for a shape, once there are values for its parts. -/
theorem probe_eq_blame (around : Shape) : ∀ s : Shape, ∃ x, Made s x ∧ probe .empty around s = blame s.visited x
  | .option content => by
      obtain ⟨x, hx, hprobe⟩ := probe_eq_blame around content
      refine ⟨_, hx.layer (fun p => { p.map .present with nullable := true }) rfl (fun _ => rfl) rfl, ?_⟩
      rw [probe_option, hprobe, blame_bind]
      rfl
  | .box content => by
      obtain ⟨x, hx, hprobe⟩ := probe_eq_blame around content
      exact ⟨x, hx.same rfl rfl rfl rfl, probe_box.trans hprobe⟩
  | .transparent name content => by
      obtain ⟨x, hx, hprobe⟩ := probe_eq_blame around content
      exact ⟨x, hx.same rfl rfl rfl rfl, probe_transparent.trans hprobe⟩
  | .newtype name content => by
      obtain ⟨x, hx, hprobe⟩ := probe_eq_blame around content
      refine ⟨_, hx.layer (Probed.map .newtype) rfl (fun _ => rfl) rfl, ?_⟩
      rw [probe_newtype, hprobe, blame_bind]
      rfl
  | .guarded name content refusal => by
      obtain ⟨x, hx, hprobe⟩ := probe_eq_blame around content
      refine ⟨_, hx.layer (Probed.map (Datum.presented refusal)) rfl (fun _ => rfl) rfl, ?_⟩
      rw [probe_guarded, hprobe, blame_bind]
      rfl
  | .checked name content refusal => by
      obtain ⟨x, hx, hprobe⟩ := probe_eq_blame around content
      refine ⟨_, hx.check, ?_⟩
      rw [probe_checked, hprobe, blame_bind]
      rfl
  | .array item length => by
      rw [probe, visited]
      by_cases hlength : length = 0
      · subst hlength
        exact ⟨_, .value rfl, rfl⟩
      · obtain ⟨x, hx, hprobe⟩ := probe_eq_blame around item
        refine ⟨_, .value rfl, ?_⟩
        rw [if_neg hlength, if_neg hlength, hprobe, settleShape_blame hx, blame_bind]
        rfl
  | .tuple items => by
      refine ⟨_, .value rfl, ?_⟩
      rw [probe, probeItems_eq_blame around items, blame_bind]
      rfl
  | .tupleStruct name items => by
      refine ⟨_, .value rfl, ?_⟩
      rw [probe, probeItems_eq_blame around items, blame_bind]
      rfl
  | .record name strict fields => by
      obtain ⟨x, hx, hprobe⟩ := probeFields_eq_blame (.record name strict fields) fields
      refine ⟨_, hx.record, ?_⟩
      rw [probe, hprobe, blame_bind]
      rfl
  | .choice name [] => ⟨_, .nothing rfl unmade_unshaped, by rw [probe]; rfl⟩
  | .choice name ((variant, payload) :: rest) => by
      obtain ⟨x, hx, hprobe⟩ := probePayload_eq_blame around payload
      refine ⟨_, hx.choice, ?_⟩
      rw [probe, hprobe, blame_bind]
      rfl
  | .adjacent name tag content [] => ⟨_, .nothing rfl unmade_unshaped, by rw [probe]; rfl⟩
  | .adjacent name tag content ((variant, payload) :: rest) => by
      obtain ⟨x, hx, hprobe⟩ := probeContent_eq_blame around name payload
      have hdummy : (contentShape name payload).dummy = dummyPayload payload := by
        cases payload <;> rfl
      refine ⟨_, .value rfl, ?_⟩
      rw [probe, hprobe, settleContent, settle_blame hx, blame_bind, hdummy]
      rfl
  | .flattened name fields => by
      rw [probe]
      cases hfields : completeFields [] fields with
      | none => exact ⟨_, .nothing (by simp [unshapeable, hfields]) unmade_unshaped, rfl⟩
      | some values =>
          have hdummy : (Shape.flattened name fields).dummy =
              .map ((presentedFields values).map fun p => (.text p.1, p.2)) := by
            simp [dummy, hfields]
          refine ⟨_, .value (by simp [unshapeable, hfields]), ?_⟩
          rw [hdummy]
          rfl
  | .int type => by
      rw [probe]
      by_cases hstorable : type.storable = true
      · rw [if_pos hstorable]
        exact ⟨_, .value (by simp [unshapeable, hstorable]), rfl⟩
      · rw [if_neg hstorable]
        exact ⟨_, .nothing (by simp [unshapeable, hstorable]) unmade_unshaped, rfl⟩
  | .enclosing _ | .tagged _ _ _ | .untagged _ _ | .anything _ =>
      ⟨_, .nothing rfl unmade_unshaped, by rw [probe]; rfl⟩
  | .ignored _ | .label _ => ⟨_, .nothing rfl (.untyped rfl), by rw [probe]; rfl⟩
  | .bool | .single | .double | .char | .text | .bytes _ | .unit _ | .list _ | .map _ _ | .pairs _ _ _ =>
      ⟨_, .value rfl, by rw [probe]; rfl⟩
termination_by s => sizeOf s

/-- Items get their values one after the other. -/
theorem probeItems_eq_blame (around : Shape) :
    ∀ items : List Shape, probeItems .empty around items = blame (visitedItems items) (.ok (dummyItems items))
  | [] => by
      rw [probeItems]
      rfl
  | s :: rest => by
      obtain ⟨x, hx, hprobe⟩ := probe_eq_blame around s
      rw [probeItems, hprobe, settleShape_blame hx, blame_bind, visitedItems, List.append_cons, blame_append]
      show blame s.allVisited (probeItems .empty around rest >>= _) = _
      rw [probeItems_eq_blame around rest, blame_bind]
      rfl
termination_by items => sizeOf items

/-- Fields get their values one after the other, up to one that goes by a second name. -/
theorem probeFields_eq_blame (around : Shape) :
    ∀ fields : List (Field × Shape), ∃ x, MadeFields fields x ∧
      probeFields .empty around fields = blame (visitedFields fields) x
  | [] => ⟨_, .values rfl rfl, by rw [probeFields]; rfl⟩
  | (f, s) :: rest => by
      rw [visitedFields]
      by_cases hconstant : f.constant.isSome
      · obtain ⟨d, hd⟩ := Option.isSome_iff_exists.1 hconstant
        obtain ⟨y, hy, hrest⟩ := probeFields_eq_blame around rest
        refine ⟨_, hy.cons (by rw [hd]; rfl) (show _ = d from by rw [hd]; rfl) none, ?_⟩
        rw [probeFields_of_constant hd, if_pos hconstant, hrest, blame_bind]
      · rw [Option.not_isSome_iff_eq_none] at hconstant
        obtain ⟨x, hx, hprobe⟩ := probe_eq_blame around s
        rw [if_neg (by simp [hconstant]), List.append_cons]
        by_cases hname : f.names.length = 1
        · obtain ⟨y, hy, hrest⟩ := probeFields_eq_blame around rest
          refine ⟨_, hy.cons (by simp [hname]) (show _ = s.dummy from by rw [hconstant]; rfl)
            (some ⟨s.core.storageClass, s.takesNull⟩), ?_⟩
          rw [probeFields_of_name hconstant hname, hprobe, settleShape_blame hx, blame_bind, if_pos hname, blame_append]
          show blame s.allVisited (probeFields .empty around rest >>= _) = _
          rw [hrest, blame_bind]
          rfl
        · have hrepeats : repeatsField ((f, s) :: rest) = true := by simp [repeatsField, hconstant, hname]
          refine ⟨.error (.serialization (.duplicateField f.name)), .nothing hrepeats fun _ h => (by cases h), ?_⟩
          rw [probeFields_of_names hconstant hname, hprobe, settleShape_blame hx, blame_bind, if_neg hname,
            List.append_nil]
          rfl
termination_by fields => sizeOf fields

theorem probePayload_eq_blame (around : Shape) :
    ∀ payload : Payload, ∃ x, MadePayload payload x ∧
      probePayload .empty around payload = blame (visitedPayload payload) x
  | .unit => ⟨_, .value (fun _ h => by cases h), by rw [probePayload]; rfl⟩
  | .newtype content => by
      obtain ⟨x, hx, hprobe⟩ := probe_eq_blame around content
      refine ⟨_, .value (fun _ h => by cases h), ?_⟩
      rw [probePayload, hprobe, settleShape_blame hx, blame_bind]
      rfl
  | .tuple items => by
      refine ⟨_, .value (fun _ h => by cases h), ?_⟩
      rw [probePayload, probeItems_eq_blame around items, blame_bind]
      rfl
  | .fields fields => by
      obtain ⟨x, hx, hprobe⟩ := probeFields_eq_blame around fields
      refine ⟨_, hx.payload, ?_⟩
      rw [probePayload, hprobe, blame_bind]
      rfl
termination_by payload => sizeOf payload

theorem probeContent_eq_blame (around : Shape) (name : TypeName) :
    ∀ payload : Payload, ∃ x, Made (contentShape name payload) x ∧
      probeContent .empty around payload = blame (visitedContent payload) x
  | .unit => ⟨_, .nothing rfl unmade_unshaped, by rw [probeContent]; rfl⟩
  | .newtype content => by
      obtain ⟨x, hx, hprobe⟩ := probe_eq_blame around content
      refine ⟨x, hx, ?_⟩
      rw [probeContent, hprobe]
      rfl
  | .tuple items => by
      refine ⟨_, .value rfl, ?_⟩
      rw [probeContent, probeItems_eq_blame around items, blame_bind]
      rfl
  | .fields fields => by
      obtain ⟨x, hx, hprobe⟩ := probeFields_eq_blame around fields
      refine ⟨_, hx.record, ?_⟩
      rw [probeContent, hprobe, blame_bind]
      rfl
termination_by payload => sizeOf payload

end

/-! ## Parts within parts -/

/-- Each part stands behind those inside of it. -/
def Closed (parts : List Position) : Prop :=
  ∀ before q after, parts = before ++ q :: after → ∀ p ∈ q.shape.visited, p ∈ before

theorem closed_nil : Closed [] := fun before _ _ h => by simp at h

theorem Closed.append {parts more : List Position} (h : Closed parts) (hmore : Closed more) :
    Closed (parts ++ more) := by
  intro before q after hsplit p hp
  obtain ⟨rest, rfl, hrest⟩ | ⟨rest, rfl, hrest⟩ := List.append_eq_append_iff.1 hsplit
  · exact List.mem_append_right _ (hmore rest q after hrest p hp)
  · cases rest with
    | nil => exact (List.not_mem_nil (hmore [] q after hrest.symm p hp)).elim
    | cons q' rest =>
        obtain ⟨rfl, -⟩ := List.cons.inj hrest
        exact h before q rest rfl p hp

/-- A part behind those inside of it. -/
theorem Closed.snoc {parts : List Position} {q : Position} (h : Closed parts) (hq : q.shape.visited = parts) :
    Closed (parts ++ [q]) := by
  intro before q' after hsplit p hp
  obtain rfl | ⟨after, x, rfl⟩ := List.eq_nil_or_concat after
  · obtain ⟨rfl, hlast⟩ := List.append_inj' hsplit rfl
    rw [List.cons.inj hlast |>.1] at hq
    exact hq ▸ hp
  · rw [List.concat_eq_append, ← List.cons_append, ← List.append_assoc] at hsplit
    exact h before q' after (List.append_inj' hsplit rfl).1 p hp

theorem visited_contentShape (name : TypeName) (payload : Payload) :
    (contentShape name payload).visited = visitedContent payload := by
  cases payload <;> rfl

mutual

theorem closed_visited : ∀ s : Shape, Closed s.visited
  | .option content => closed_visited content
  | .box content => closed_visited content
  | .transparent _ content => closed_visited content
  | .newtype _ content => closed_visited content
  | .checked _ content _ => closed_visited content
  | .guarded _ content _ => closed_visited content
  | .array item length => by
      rw [visited]
      split
      · exact closed_nil
      · exact (closed_visited item).snoc rfl
  | .tuple items => closed_visitedItems items
  | .tupleStruct _ items => closed_visitedItems items
  | .record _ _ fields => closed_visitedFields fields
  | .choice _ [] => closed_nil
  | .choice _ ((_, payload) :: _) => closed_visitedPayload payload
  | .adjacent _ _ _ [] => closed_nil
  | .adjacent name _ _ ((_, payload) :: _) => (closed_visitedContent payload).snoc (visited_contentShape name payload)
  | .bool | .int _ | .single | .double | .char | .text | .bytes _ | .unit _ | .list _ | .map _ _ | .enclosing _
  | .tagged _ _ _ | .untagged _ _ | .anything _ | .ignored _ | .label _ | .pairs _ _ _ | .flattened _ _ => closed_nil
termination_by s => sizeOf s

theorem closed_visitedItems : ∀ items : List Shape, Closed (visitedItems items)
  | [] => closed_nil
  | s :: rest => by
      rw [visitedItems, List.append_cons]
      exact ((closed_visited s).snoc rfl).append (closed_visitedItems rest)
termination_by items => sizeOf items

theorem closed_visitedFields : ∀ fields : List (Field × Shape), Closed (visitedFields fields)
  | [] => closed_nil
  | (f, s) :: rest => by
      rw [visitedFields, List.append_cons]
      split
      · exact closed_visitedFields rest
      · refine ((closed_visited s).snoc rfl).append ?_
        split
        · exact closed_visitedFields rest
        · exact closed_nil
termination_by fields => sizeOf fields

theorem closed_visitedPayload : ∀ payload : Payload, Closed (visitedPayload payload)
  | .unit => closed_nil
  | .newtype content => (closed_visited content).snoc rfl
  | .tuple items => closed_visitedItems items
  | .fields fields => closed_visitedFields fields
termination_by payload => sizeOf payload

theorem closed_visitedContent : ∀ payload : Payload, Closed (visitedContent payload)
  | .unit => closed_nil
  | .newtype content => closed_visited content
  | .tuple items => closed_visitedItems items
  | .fields fields => closed_visitedFields fields
termination_by payload => sizeOf payload

end

theorem closed_allVisited (s : Shape) : Closed s.allVisited := (closed_visited s).snoc rfl

end Shape

/-! ## Names without options -/

/-- The name of a type with options around it. -/
def optionName : Nat → String → String
  | 0, name => name
  | n + 1, name => "core::option::Option<" ++ optionName n name ++ ">"

/-- A name that is left when all options around it are gone. -/
structure Stripped (name key : String) : Prop where
  within : ∃ n, name = optionName n key
  bare : ∀ content, key ≠ optionName 1 content

theorem optionName_ofList (inner : List Char) :
    String.ofList (optionStart ++ inner ++ ['>']) = optionName 1 (String.ofList inner) := by
  rw [String.ofList_append, String.ofList_append]
  rfl

theorem optionName_stripOptions (fuel : Nat) (name : List Char) :
    ∃ n, String.ofList name = optionName n (String.ofList (stripOptions fuel name).1) := by
  induction fuel generalizing name with
  | zero => exact ⟨0, rfl⟩
  | succ fuel ih =>
      rw [stripOptions]
      split
      · rename_i inner hinner
        obtain ⟨n, hn⟩ := ih inner
        refine ⟨n + 1, ?_⟩
        rw [between_eq_some.1 hinner]
        show String.ofList (optionStart ++ inner ++ ['>']) = _
        rw [optionName_ofList, hn]
        rfl
      · exact ⟨0, rfl⟩

theorem stripped_placeholderKey (name : String) : Stripped name (placeholderKey name).1 where
  within := by
    obtain ⟨n, hn⟩ := optionName_stripOptions name.length name.toList
    rw [String.ofList_toList] at hn
    exact ⟨n, hn⟩
  bare := by
    intro content hkey
    have hnone := between_placeholderKey name
    rw [hkey, ← @String.ofList_toList content, ← optionName_ofList, String.toList_ofList,
      between_eq_some.2 rfl] at hnone
    cases hnone

/-! ## The definition of one field -/

namespace RecordType

open Shape

variable {home : String} {s : Shape}

/-- The definition of a record of one field, by the parts of its type. -/
theorem definition_one_eq_blame : (Gallery.one home s).definition .empty =
    blame s.allVisited (.ok (oneTable home s ⟨s.core.storageClass, s.takesNull⟩)) := by
  obtain ⟨x, hx, hprobe⟩ := probe_eq_blame (Gallery.one home s).shape s
  rw [definition_one_eq, oneColumn, hprobe, settleShape_blame hx, blame_bind]
  rfl

/-- Without samples, the definition of a record of one field follows from its type. -/
structure Mapped (home : String) (s : Shape) : Prop where
  /-- There is one if values can be made up for all parts. -/
  defined : (∃ table, (Gallery.one home s).definition .empty = .ok table) ↔
    ∀ q ∈ s.allVisited, q.shape.unshapeable = false
  column : ∀ table, (Gallery.one home s).definition .empty = .ok table →
    table = oneTable home s ⟨s.core.storageClass, s.takesNull⟩
  /-- The first part without a value is blamed, so it is no part inside of it that could be. -/
  blames : ∀ e, (Gallery.one home s).definition .empty = .error e →
    ∃ before q after key, s.allVisited = before ++ q :: after ∧ (∀ p ∈ before, p.shape.unshapeable = false) ∧
      q.shape.unshapeable = true ∧ (∀ p ∈ q.shape.visited, p.shape.unshapeable = false) ∧
      Stripped q.name.text key ∧ e = .missingPlaceholder key

example : (Gallery.one "gallery" (.box (.tuple [.bool, .option (Gallery.wrapHandle "gallery")]))).definition .empty =
    .error (.missingPlaceholder "gallery::WrapHandle") :=
  definition_one_eq_blame.trans rfl

end RecordType

end RecordTables
