import RecordTables.Proofs.Record.OneField
import RecordTables.Proofs.Record.Stored

/-!
# Values that tell what they are

A type that asks a stored value what it is gets no more than its storage class says.  What has a class of its own comes
back; a truth value comes back as a number, and what is stored as a document comes back as the text of it.  For types in
layers around one that knows what it reads, or around one that asks, this decides which fields are read back.
-/

namespace RecordTables

/-- Whether a datum is stored as NULL. -/
def Datum.storedAsNull : Datum → Bool
  | .absent => true
  | .present d => d.storedAsNull
  | .newtype d => d.storedAsNull
  | _ => false

theorem Datum.storedAsNull_iff {d : Datum} {v : Value} (hv : d.encodeField = .ok v) :
    v.isNull = d.storedAsNull := by
  induction d using Datum.storedAsNull.induct with
  | case1 => cases hv; rfl
  | case2 d ih => exact ih hv
  | case3 d ih => exact ih hv
  | case4 d habsent hpresent hnewtype =>
      cases d with
      | absent => exact absurd rfl habsent
      | present d => exact absurd rfl (hpresent d)
      | newtype d => exact absurd rfl (hnewtype d)
      | bool b =>
          cases hv
          cases b <;> rfl
      | int type n =>
          obtain ⟨_, m, rfl, _⟩ := encodeField_int hv
          rfl
      | unit | list | map | record | variant =>
          obtain ⟨doc, _, rfl⟩ := documentText_ok hv
          rfl
      | single | double | char | text | bytes | unitVariant =>
          cases hv
          rfl
      | refused => cases hv

namespace Shape

/-- A type in layers: around a plain type, around one that takes the name or any document, or around one that asks the
stored value what it is.  A plain type may only mention a record around it that is plain. -/
def layered (around : Shape) (s : Shape) : Bool :=
  match s with
  | .option content => layered around content
  | .box content => layered around content
  | .transparent _ content => layered around content
  | .newtype _ content => layered around content
  | .checked _ content _ => layered around content
  | .guarded _ content _ => layered around content
  | .int _ => true
  | .single => true
  | .double => true
  | .label _ => true
  | .ignored _ => true
  | .anything _ => true
  | .untagged _ _ => true
  | .tagged _ _ _ => true
  | s => s.plain && (around.plain || s.bare)

/-- Whether the stored form of a value tells it to a type.  An integer goes to the first number of a choice; one of
several variants is never found by the tag in its document. -/
def tells : Shape → Datum → Bool
  | .option content, .present d => !d.storedAsNull && content.tells d
  | .box content, d => content.tells d
  | .transparent _ content, d => content.tells d
  | .newtype _ content, .newtype d => content.tells d
  | .checked _ content _, d => content.tells d
  | .guarded _ content _, .newtype d => content.tells d
  | .untagged _ alternatives, .int _ _ => alternatives.find? (· != .text) == some .int64
  | .tagged _ _ _, _ => false
  | .anything _, .int _ _ => true
  | .anything _, .double _ => true
  | .anything _, .text _ => true
  | .anything _, _ => false
  | _, _ => true

variable {around : Shape}

/-- An integer goes to the first number among the scalars. -/
theorem findSome_ofValue_int (alternatives : List Scalar) (m : Int64) :
    alternatives.findSome? (·.ofValue? (.int m)) =
      (alternatives.find? (· != .text)).bind fun a => a.ofValue? (.int m) := by
  induction alternatives with
  | nil => rfl
  | cons a rest ih =>
      cases a with
      | int64 | double => rfl
      | text => exact ih

/-- A value that only one scalar takes goes to that one. -/
theorem findSome_ofValue_of_only {alternatives : List Scalar} {a : Scalar} {v : Value} {d : Datum} (hmem : a ∈ alternatives)
    (ha : a.ofValue? v = some d) (honly : ∀ b, b ≠ a → b.ofValue? v = none) :
    alternatives.findSome? (·.ofValue? v) = some d := by
  induction alternatives with
  | nil => cases hmem
  | cons b rest ih =>
      rw [List.findSome?_cons]
      by_cases hb : b = a
      · rw [hb, ha]
      · rw [honly b hb]
        exact ih ((List.mem_cons.1 hmem).resolve_left (Ne.symm hb))

theorem decodeField_untagged {name : TypeName} {alternatives : List Scalar} {cell : Cell} {d : Datum} :
    decodeField around cell (.untagged name alternatives) = .ok d ↔
      alternatives.findSome? (·.ofValue? cell.value) = some d := by
  rw [decodeField]
  cases alternatives.findSome? fun a => a.ofValue? cell.value with
  | none => exact iff_of_false (fun h => by cases h) (fun h => by cases h)
  | some e => simp

theorem decodeField_anything {name : TypeName} {cell : Cell} {d : Datum} :
    decodeField around cell (.anything name) = .ok d ↔ cell.value.general? = some d := by
  rw [decodeField]
  cases cell.value.general? with
  | none => exact iff_of_false (fun h => by cases h) (fun h => by cases h)
  | some e => simp

/-- What wraps its result wraps the wanted value exactly if the result is the wanted value. -/
theorem return_eq_ok {f : Datum → Datum} {x : Outcome Datum} {d : Datum} (hf : ∀ a, f a = f d → a = d) :
    (return f (← x)) = Except.ok (f d) ↔ x = .ok d := by
  cases x with
  | error e => exact iff_of_false (fun h => by cases h) (fun h => by cases h)
  | ok a =>
      constructor
      · intro h
        rw [hf a (Except.ok.inj h)]
      · rintro ⟨⟩
        rfl

/-- What a check has let pass is read exactly if it is read without the check. -/
theorem decodeField_checked_iff {name : TypeName} {content : Shape} {refusal : Datum → Option String} {cell : Cell}
    {d : Datum} (hpass : refusal d = none) :
    decodeField around cell (.checked name content refusal) = .ok d ↔ decodeField around cell content = .ok d :=
  Datum.bind_pass_eq_ok.trans (and_iff_left hpass)

/-- What presents itself as wrapped is read exactly if what is in it is. -/
theorem decodeField_guarded_iff {name : TypeName} {content : Shape} {refusal : Datum → Option String} {cell : Cell}
    {d : Datum} (hpass : refusal d = none) :
    decodeField around cell (.guarded name content refusal) = .ok (.newtype d) ↔
      decodeField around cell content = .ok d := by
  have hpresented : d.presented refusal = .newtype d := by rw [Datum.presented, hpass]
  rw [decodeField_guarded, ← hpresented]
  refine return_eq_ok fun a ha => ?_
  rw [hpresented, Datum.presented] at ha
  split at ha
  · cases ha
  · exact Datum.newtype.inj ha

/-- An integer is read as one exactly if no other number is tried before. -/
theorem decodeField_untagged_int_iff {name : TypeName} {alternatives : List Scalar} {column : String} {m : Int64} :
    decodeField around ⟨column, .int m⟩ (.untagged name alternatives) = .ok (.int .i64 m.toInt) ↔
      alternatives.find? (· != .text) = some .int64 := by
  rw [decodeField_untagged, findSome_ofValue_int]
  cases alternatives.find? (· != .text) with
  | none => exact iff_of_false (fun h => by cases h) (fun h => by cases h)
  | some a =>
      cases a with
      | int64 => exact iff_of_true rfl rfl
      | double | text => exact iff_of_false (fun h => by cases h) (fun h => by cases h)

/-- A value of a type in layers is read back from its field exactly if its stored form tells it. -/
theorem decodeField_iff_tells {s : Shape} {d : Datum} (h : IsValue around s d) (hlayered : layered around s = true)
    (hwhole : d.storedWhole = true) {column : String} {v : Value} (hv : d.encodeField = .ok v) :
    decodeField around ⟨column, v⟩ s = .ok d ↔ s.tells d = true := by
  have hvalue := h
  induction h with
  | absent => exact iff_of_true (restores_absent _ _ hv) rfl
  | @present _ content e h ih =>
      rw [decodeField_option, Datum.storedAsNull_iff (d := e) hv, tells]
      cases hnull : e.storedAsNull with
      | true => exact iff_of_false (fun hread => by cases hread) (by simp)
      | false =>
          rw [if_neg Bool.false_ne_true, Bool.not_false, Bool.true_and]
          exact (return_eq_ok fun _ => Datum.present.inj).trans (ih hlayered hwhole hv h)
  | box h ih => exact ih hlayered hwhole hv h
  | transparent h ih => exact ih hlayered hwhole hv h
  | newtype h ih =>
      rw [decodeField_newtype, tells]
      exact (return_eq_ok fun _ => Datum.newtype.inj).trans (ih hlayered hwhole hv h)
  | checked h hpass ih => exact (decodeField_checked_iff hpass).trans (ih hlayered hwhole hv h)
  | @guarded _ content _ refusal e h ih =>
      unfold Datum.presented at hv hwhole ⊢
      cases hrefusal : refusal e with
      | some why =>
          rw [hrefusal] at hv
          cases hv
      | none =>
          rw [hrefusal] at hv hwhole
          exact (decodeField_guarded_iff hrefusal).trans (ih hlayered hwhole hv h)
  | int hn => exact iff_of_true (restores_int hn _ _ hv) rfl
  | single x => exact iff_of_true (restores_single (bne_iff_ne.1 hwhole) _ _ hv) rfl
  | double x => exact iff_of_true (restores_double x _ _ hv) rfl
  | label s =>
      cases hv
      exact iff_of_true rfl rfl
  | ignored => exact iff_of_true rfl rfl
  | taggedUnit => exact iff_of_false (fun hread => by cases hread) Bool.false_ne_true
  | taggedFields => exact iff_of_false (fun hread => by cases hread) Bool.false_ne_true
  | @untaggedInt _ _ alternatives n hscalar hn =>
      obtain ⟨_, m, rfl, rfl⟩ := Datum.encodeField_int hv
      rw [tells, beq_iff_eq]
      exact decodeField_untagged_int_iff
  | untaggedDouble hscalar x =>
      cases hv
      refine iff_of_true (decodeField_untagged.2 (findSome_ofValue_of_only hscalar rfl fun b hb => ?_)) rfl
      cases b with
      | double => exact absurd rfl hb
      | int64 | text => rfl
  | untaggedText hscalar s =>
      cases hv
      refine iff_of_true (decodeField_untagged.2 (findSome_ofValue_of_only hscalar rfl fun b hb => ?_)) rfl
      cases b with
      | text => exact absurd rfl hb
      | int64 | double => rfl
  -- A document of any kind comes back as a text, and a truth value as a number.
  | anyNull | anyList | anyMap =>
      obtain ⟨doc, _, rfl⟩ := Datum.documentText_ok hv
      exact iff_of_false (fun hread => by cases hread) Bool.false_ne_true
  | anyBool b =>
      cases hv
      exact iff_of_false (fun hread => by cases b <;> cases hread) Bool.false_ne_true
  | anyInt hn =>
      obtain ⟨_, m, rfl, rfl⟩ := Datum.encodeField_int hv
      refine iff_of_true (decodeField_anything.2 ?_) rfl
      have hsign : (m < 0) = (m.toInt < 0) := propext Int64.lt_iff_toInt_lt
      simp only [Value.general?, hsign]
  | anyDouble hx =>
      cases hv
      refine iff_of_true (decodeField_anything.2 ?_) rfl
      rw [Value.general?, if_pos hx]
  | anyText s =>
      cases hv
      exact iff_of_true rfl rfl
  | _ =>
      have hplain := Bool.and_eq_true_iff.1 hlayered
      exact iff_of_true (restores_of_isValue hvalue (Bool.or_eq_true_iff.1 hplain.2) hplain.1 hwhole _ _ hv) rfl

end Shape

namespace RecordType

open Shape

/-- A record of one field, of a type in layers, that was written comes back from its row exactly if its stored form tells
its value, whatever samples there are. -/
theorem decode_one_iff_tells {registry : Registry} {home : String} {s : Shape} {d : Datum} {row : Row}
    (h : IsValue (Gallery.one home s).shape s d) (hlayered : layered (Gallery.one home s).shape s = true)
    (hwhole : d.storedWhole = true) (hrow : (Gallery.one home s).encode registry (.record [("v", d)]) = .ok row) :
    (Gallery.one home s).decode row = .ok (.record [("v", d)]) ↔ s.tells d = true := by
  obtain ⟨v, hv, hcell⟩ := encode_one hrow
  rw [decode_one hcell, ← decodeField_iff_tells h hlayered hwhole hv]
  exact return_eq_ok (f := fun d => .record [("v", d)]) fun a ha => by simpa using ha

/-- Samples among which there is one of any document. -/
def documentSample : Registry := ⟨[("serde_json::value::Value", ⟨.text, .text "x"⟩)]⟩

theorem definition_documentSample : ∃ table,
    (Gallery.one "gallery" Gallery.anyDocument).definition documentSample = .ok table := by
  rw [definition_one_eq]
  exact ⟨_, rfl⟩

theorem decode_one_number : ∃ row,
    (Gallery.one "gallery" Gallery.anyDocument).encode documentSample (.record [("v", .int .u64 7)]) = .ok row ∧
      (Gallery.one "gallery" Gallery.anyDocument).decode row = .ok (.record [("v", .int .u64 7)]) := by
  obtain ⟨table, htable⟩ := definition_documentSample
  have hrow : (Gallery.one "gallery" Gallery.anyDocument).encode documentSample (.record [("v", .int .u64 7)]) = .ok _ :=
    Outcome.bind_eq_ok.2 ⟨table, htable, rfl⟩
  exact ⟨_, hrow, (decode_one_iff_tells (.anyInt (n := 7) rfl) rfl rfl hrow).2 rfl⟩

/-- A list in a field that takes any document comes back as the text of the list. -/
theorem decode_one_list :
    IsValue (Gallery.one "gallery" Gallery.anyDocument).shape Gallery.anyDocument (.list [.int .u64 1]) ∧
      (Datum.list [.int .u64 1]).floatFree = true ∧ ∃ row,
        (Gallery.one "gallery" Gallery.anyDocument).encode documentSample (.record [("v", .list [.int .u64 1])]) = .ok row ∧
          (Gallery.one "gallery" Gallery.anyDocument).decode row = .ok (.record [("v", .text "[1]")]) := by
  refine ⟨.anyList fun d hd => ?_, rfl, ?_⟩
  · rw [List.mem_singleton.1 hd]
    exact .anyInt (n := 1) rfl
  obtain ⟨table, htable⟩ := definition_documentSample
  have hrow : (Gallery.one "gallery" Gallery.anyDocument).encode documentSample (.record [("v", .list [.int .u64 1])]) =
      .ok _ := Outcome.bind_eq_ok.2 ⟨table, htable, rfl⟩
  obtain ⟨v, hv, hcell⟩ := encode_one hrow
  cases hv
  exact ⟨_, hrow, decode_one hcell⟩

end RecordType

end RecordTables
