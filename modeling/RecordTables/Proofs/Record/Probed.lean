import RecordTables.Record.Probe
import RecordTables.Proofs.Record.Cells
import RecordTables.Proofs.Record.Typing

/-!
# Columns of fields

What a field asked for when its value was made up agrees with what it writes and with what it reads: its values have
the storage class of its column, and NULL is written and read only where the column takes it.
-/

namespace RecordTables.Shape

variable {registry : Registry} {around : Shape}

/-! ## What a field asks for -/

theorem probe_option {content : Shape} :
    probe registry around (.option content) = (do
      let p ← probe registry around content
      return { p.map .present with nullable := true }) := by
  rw [probe]
  rfl

theorem probe_box {content : Shape} : probe registry around (.box content) = probe registry around content := by
  rw [probe]

theorem probe_transparent {name : TypeName} {content : Shape} :
    probe registry around (.transparent name content) = probe registry around content := by
  rw [probe]

theorem probe_newtype {name : TypeName} {content : Shape} :
    probe registry around (.newtype name content) = (return (← probe registry around content).map .newtype) := by
  rw [probe]

theorem probe_checked {name : TypeName} {content : Shape} {refusal : Datum → Option String} :
    probe registry around (.checked name content refusal) = (do
      let p ← probe registry around content
      let value ← p.value.pass refusal
      return { p with value }) := by
  rw [probe]
  rfl

theorem probe_guarded {name : TypeName} {content : Shape} {refusal : Datum → Option String} :
    probe registry around (.guarded name content refusal) =
      (return (← probe registry around content).map (Datum.presented refusal)) := by
  rw [probe]

/-- Whether a shape is none of the wrappers, which ask for what their content asks for. -/
def isCore : Shape → Bool
  | .option _ => false
  | .box _ => false
  | .transparent _ _ => false
  | .newtype _ _ => false
  | .checked _ _ _ => false
  | .guarded _ _ _ => false
  | _ => true

/-- The storage class that a shape without wrappers asks for, if it asks for one. -/
def coreType? : Shape → Option ColumnType
  | .bool => some .integer
  | .int _ => some .integer
  | .single => some .real
  | .double => some .real
  | .bytes _ => some .blob
  | .untagged _ _ => none
  | .anything _ => none
  | .ignored _ => none
  | .label _ => none
  | _ => some .text

/-- What is not wrapped asks for its own storage class, and never for NULL. -/
theorem probe_core {s : Shape} {p : Probed} (hcore : s.isCore = true) (h : probe registry around s = .ok p) :
    p.type = s.coreType? ∧ p.nullable = false := by
  cases s with
  | option | box | transparent | newtype | checked | guarded => cases hcore
  | bool | single | double | char | text | bytes | unit | list | map | ignored | label | pairs =>
      rw [probe] at h
      cases h
      exact ⟨rfl, rfl⟩
  -- Nothing is made up for these.
  | enclosing | tagged | untagged | anything =>
      rw [probe] at h
      cases h
  | int type =>
      rw [probe] at h
      split at h
      · cases h
        exact ⟨rfl, rfl⟩
      · cases h
  | array item length =>
      rw [probe] at h
      split at h
      · cases h
        exact ⟨rfl, rfl⟩
      · obtain ⟨_, _, h⟩ := Outcome.bind_eq_ok.1 h
        cases h
        exact ⟨rfl, rfl⟩
  | tuple | tupleStruct | record =>
      rw [probe] at h
      obtain ⟨_, _, h⟩ := Outcome.bind_eq_ok.1 h
      cases h
      exact ⟨rfl, rfl⟩
  | choice name variants =>
      cases variants with
      | nil =>
          rw [probe] at h
          cases h
      | cons v rest =>
          rw [probe] at h
          obtain ⟨_, _, h⟩ := Outcome.bind_eq_ok.1 h
          cases h
          exact ⟨rfl, rfl⟩
  | adjacent name tag content variants =>
      cases variants with
      | nil =>
          rw [probe] at h
          cases h
      | cons v rest =>
          rw [probe] at h
          obtain ⟨_, _, h⟩ := Outcome.bind_eq_ok.1 h
          cases h
          exact ⟨rfl, rfl⟩
  | flattened name fields =>
      rw [probe] at h
      split at h
      · cases h
        exact ⟨rfl, rfl⟩
      · cases h

/-- A part without a sample has the column that it asked for. -/
theorem settle_unregistered {key : String} {optional : Bool} {decode : Cell → Outcome Datum} {probed : Outcome Probed}
    {d : Datum} {column : Column} (hkey : registry.lookup key = none)
    (h : settle registry key optional decode probed = .ok (d, column)) :
    ∃ p, probed = .ok p ∧ p.value = d ∧ p.type = some column.type ∧ p.nullable = column.nullable := by
  unfold settle at h
  rw [hkey] at h
  -- Without a sample no failure is made up for, and a part without a storage class is refused.
  cases probed with
  | error e => cases e <;> cases h
  | ok p =>
      refine ⟨p, rfl, ?_⟩
      dsimp only at h
      split at h
      · rename_i type htype
        cases h
        exact ⟨rfl, htype, rfl⟩
      · cases h

/-! ## Writing -/

/-- The wrappers of a shape removed. -/
def core : Shape → Shape
  | .option content => content.core
  | .box content => content.core
  | .transparent _ content => content.core
  | .newtype _ content => content.core
  | .checked _ content _ => content.core
  | .guarded _ content _ => content.core
  | s => s

/-- A value that is not wrapped has the storage class of its shape. -/
theorem encodeField_core {s : Shape} {d : Datum} {v : Value} {type : ColumnType} (hcore : s.isCore = true)
    (htype : s.coreType? = some type) (h : IsValue around s d) (hv : d.encodeField = .ok v) :
    v.columnType? = some type := by
  have htext : ∀ {e : Datum}, e.isCompound = true → e.encodeField = .ok v → v.columnType? = some .text := by
    intro e he hv
    rw [Datum.encodeField_compound he] at hv
    obtain ⟨doc, _, rfl⟩ := Datum.documentText_ok hv
    rfl
  cases h with
  | absent | present | box | transparent | newtype | checked | guarded => cases hcore
  | bool | single | double | char | text | bytes =>
      cases htype
      cases hv
      rfl
  | label | ignored | untaggedInt | untaggedDouble | untaggedText => cases htype
  | anyNull | anyBool | anyInt | anyDouble | anyText | anyList | anyMap => cases htype
  | int hn =>
      cases htype
      obtain ⟨_, m, rfl, _⟩ := Datum.encodeField_int hv
      rfl
  | unit | list | array | tuple | tupleStruct | map | pairs | record | flattened | adjacentUnit | adjacentContent
    | taggedUnit | taggedFields =>
      cases htype
      exact htext rfl hv
  | enclosing h =>
      cases htype
      cases h
      exact htext rfl hv
  | @choice _ name variants variant payload d hvariant h =>
      cases htype
      cases payload with
      | unit =>
          cases hv
          rfl
      | _ => exact htext rfl hv

theorem isCore_of_ne {s : Shape} (hoption : ∀ content, s = .option content → False)
    (hbox : ∀ content, s = .box content → False) (htransparent : ∀ name content, s = .transparent name content → False)
    (hnewtype : ∀ name content, s = .newtype name content → False)
    (hchecked : ∀ name content refusal, s = .checked name content refusal → False)
    (hguarded : ∀ name content refusal, s = .guarded name content refusal → False) : s.isCore = true := by
  cases s with
  | option content => exact (hoption content rfl).elim
  | box content => exact (hbox content rfl).elim
  | transparent name content => exact (htransparent name content rfl).elim
  | newtype name content => exact (hnewtype name content rfl).elim
  | checked name content refusal => exact (hchecked name content refusal rfl).elim
  | guarded name content refusal => exact (hguarded name content refusal rfl).elim
  | _ => rfl

/-- Whether a shape writes NULL: an option does, and whatever wraps one. -/
def takesNull : Shape → Bool
  | .option _ => true
  | .box content => content.takesNull
  | .transparent _ content => content.takesNull
  | .newtype _ content => content.takesNull
  | .checked _ content _ => content.takesNull
  | .guarded _ content _ => content.takesNull
  | _ => false

theorem core_of_isCore {s : Shape} (h : s.isCore = true) : s.core = s := by
  cases s with
  | option | box | transparent | newtype | checked | guarded => cases h
  | _ => rfl

theorem takesNull_of_isCore {s : Shape} (h : s.isCore = true) : s.takesNull = false := by
  cases s with
  | option | box | transparent | newtype | checked | guarded => cases h
  | _ => rfl

/-- A value is written with the storage class of its shape, or as NULL if the shape takes it. -/
theorem columnType_of_isValue {s : Shape} {d : Datum} {v : Value} {type : ColumnType} (h : IsValue around s d)
    (htype : s.core.coreType? = some type) (hv : d.encodeField = .ok v) :
    v.columnType? = some type ∨ v = .null ∧ s.takesNull = true := by
  -- A wrapper writes what its content does; only an option adds NULL.
  induction s using core.induct generalizing d with
  | case1 content ih =>
      cases h with
      | absent =>
          cases hv
          exact .inr ⟨rfl, rfl⟩
      | present h => exact (ih h htype hv).imp_right fun hnull => ⟨hnull.1, rfl⟩
  | case2 content ih =>
      cases h with
      | box h => exact ih h htype hv
  | case3 name content ih =>
      cases h with
      | transparent h => exact ih h htype hv
  | case4 name content ih =>
      cases h with
      | newtype h => exact ih h htype hv
  | case5 name content refusal ih =>
      cases h with
      | checked h _ => exact ih h htype hv
  | case6 name content refusal ih =>
      cases h with
      | @guarded _ _ _ _ e h =>
          unfold Datum.presented at hv
          split at hv
          -- What refuses to present itself is not written at all.
          · cases hv
          · exact ih h htype hv
  | case7 s hoption hbox htransparent hnewtype hchecked hguarded =>
      have hcore := isCore_of_ne hoption hbox htransparent hnewtype hchecked hguarded
      rw [core_of_isCore hcore] at htype
      exact .inl (encodeField_core hcore htype h hv)

/-- What is made up for a shape asks for its storage class, and for NULL if the shape takes it. -/
theorem probe_class {s : Shape} {p : Probed} (hp : probe registry around s = .ok p) :
    p.type = s.core.coreType? ∧ p.nullable = s.takesNull := by
  induction s using core.induct generalizing p with
  | case1 content ih =>
      obtain ⟨q, hq, hmap⟩ := Outcome.bind_eq_ok.1 (probe_option.symm.trans hp)
      cases hmap
      exact ⟨(ih hq).1, rfl⟩
  | case2 content ih => exact ih (probe_box.symm.trans hp)
  | case3 name content ih => exact ih (probe_transparent.symm.trans hp)
  | case4 name content ih =>
      obtain ⟨q, hq, hmap⟩ := Outcome.bind_eq_ok.1 (probe_newtype.symm.trans hp)
      cases hmap
      exact ih (p := q) hq
  | case5 name content refusal ih =>
      obtain ⟨q, hq, hrest⟩ := Outcome.bind_eq_ok.1 (probe_checked.symm.trans hp)
      obtain ⟨value, _, hvalue⟩ := Outcome.bind_eq_ok.1 hrest
      cases hvalue
      exact ih (p := q) hq
  | case6 name content refusal ih =>
      obtain ⟨q, hq, hmap⟩ := Outcome.bind_eq_ok.1 (probe_guarded.symm.trans hp)
      cases hmap
      exact ih (p := q) hq
  | case7 s hoption hbox htransparent hnewtype hchecked hguarded =>
      have hcore := isCore_of_ne hoption hbox htransparent hnewtype hchecked hguarded
      rw [core_of_isCore hcore, takesNull_of_isCore hcore]
      exact probe_core hcore hp

/-- A field is written with the storage class of its column, or as NULL if the column takes it. -/
theorem columnType_encodeField {s : Shape} {d : Datum} {p : Probed} {v : Value} {type : ColumnType}
    (h : IsValue around s d) (hp : probe registry around s = .ok p) (htype : p.type = some type)
    (hv : d.encodeField = .ok v) : v.columnType? = some type ∨ v = .null ∧ p.nullable = true := by
  obtain ⟨hclass, hnullable⟩ := probe_class hp
  rw [hnullable]
  exact columnType_of_isValue h (hclass.symm.trans htype) hv

/-! ## Reading -/

/-- What NULL stands for in a field. -/
def nullValue : Shape → Datum
  | .box content => content.nullValue
  | .transparent _ content => content.nullValue
  | .newtype _ content => .newtype content.nullValue
  | .checked _ content _ => content.nullValue
  | .guarded _ content refusal => content.nullValue.presented refusal
  | _ => .absent

/-- Whether a check refuses what NULL stands for. -/
def refusesNull : Shape → Bool
  | .box content => content.refusesNull
  | .transparent _ content => content.refusesNull
  | .newtype _ content => content.refusesNull
  | .checked _ content refusal => content.refusesNull || (refusal content.nullValue).isSome
  | .guarded _ content _ => content.refusesNull
  | _ => false

/-- A wrapper that only wraps what its content reads takes NULL where its content does. -/
theorem wrapped_null {reading : Outcome Datum} {wrap : Datum → Datum} {null d : Datum} {takes : Prop}
    (h : ∀ e, reading = .ok e ↔ takes ∧ null = e) :
    (reading >>= fun e => .ok (wrap e)) = .ok d ↔ takes ∧ wrap null = d := by
  rw [Outcome.bind_eq_ok]
  constructor
  · rintro ⟨e, he, hd⟩
    cases hd
    obtain ⟨htakes, rfl⟩ := (h e).1 he
    exact ⟨htakes, rfl⟩
  · rintro ⟨htakes, rfl⟩
    exact ⟨null, (h null).2 ⟨htakes, rfl⟩, rfl⟩

/-- What is not wrapped does not read NULL. -/
theorem decodeField_null_core {s : Shape} {d : Datum} {column : String} {type : ColumnType} (hcore : s.isCore = true)
    (htype : s.coreType? = some type) : decodeField around ⟨column, .null⟩ s ≠ .ok d := by
  intro h
  cases s with
  | option | box | transparent | newtype | checked | guarded => cases hcore
  | untagged | anything | ignored | label => cases htype
  | int type =>
      rw [decodeField] at h
      split at h <;> cases h
  | _ => cases h

/-- A field reads NULL exactly if its column takes NULL and no check refuses what NULL stands for. -/
theorem decodeField_null {s : Shape} {d : Datum} {p : Probed} {column : String} {type : ColumnType}
    (hp : probe registry around s = .ok p) (htype : p.type = some type) :
    decodeField around ⟨column, .null⟩ s = .ok d ↔ (p.nullable = true ∧ s.refusesNull = false) ∧ s.nullValue = d := by
  induction s using core.induct generalizing d p with
  -- An option reads NULL itself, so neither a check nor the type of its content has a say.
  | case1 content ih =>
      obtain ⟨q, hq, hmap⟩ := Outcome.bind_eq_ok.1 (probe_option.symm.trans hp)
      cases hmap
      rw [decodeField_option]
      constructor
      · intro h
        cases h
        exact ⟨⟨rfl, rfl⟩, rfl⟩
      · rintro ⟨_, rfl⟩
        rfl
  | case2 content ih =>
      rw [probe_box] at hp
      rw [decodeField_box]
      exact ih hp htype
  | case3 name content ih =>
      rw [probe_transparent] at hp
      rw [decodeField_transparent]
      exact ih hp htype
  | case4 name content ih =>
      obtain ⟨q, hq, hmap⟩ := Outcome.bind_eq_ok.1 (probe_newtype.symm.trans hp)
      cases hmap
      rw [decodeField_newtype]
      exact wrapped_null fun e => ih (p := q) hq htype
  | case5 name content refusal ih =>
      obtain ⟨q, hq, hrest⟩ := Outcome.bind_eq_ok.1 (probe_checked.symm.trans hp)
      obtain ⟨value, _, hvalue⟩ := Outcome.bind_eq_ok.1 hrest
      cases hvalue
      have hrefusal : (Shape.checked name content refusal).refusesNull =
          (content.refusesNull || (refusal content.nullValue).isSome) := rfl
      rw [decodeField_checked, Datum.bind_pass_eq_ok, ih (p := q) hq htype, hrefusal, Bool.or_eq_false_iff,
        Option.isSome_eq_false_iff, Option.isNone_iff_eq_none]
      constructor
      · rintro ⟨⟨⟨hnullable, hrefuses⟩, rfl⟩, hpass⟩
        exact ⟨⟨hnullable, hrefuses, hpass⟩, rfl⟩
      · rintro ⟨⟨hnullable, hrefuses, hpass⟩, rfl⟩
        exact ⟨⟨⟨hnullable, hrefuses⟩, rfl⟩, hpass⟩
  | case6 name content refusal ih =>
      obtain ⟨q, hq, hmap⟩ := Outcome.bind_eq_ok.1 (probe_guarded.symm.trans hp)
      cases hmap
      rw [decodeField_guarded]
      exact wrapped_null fun e => ih (p := q) hq htype
  | case7 s hoption hbox htransparent hnewtype hchecked hguarded =>
      have hcore := isCore_of_ne hoption hbox htransparent hnewtype hchecked hguarded
      obtain ⟨hclass, hnullable⟩ := probe_core hcore hp
      constructor
      · intro h
        exact absurd h (decodeField_null_core hcore (hclass.symm.trans htype))
      · rintro ⟨⟨h, _⟩, _⟩
        rw [hnullable] at h
        cases h

end RecordTables.Shape
