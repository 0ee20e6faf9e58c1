import Mathlib
import RecordTables.Proofs.Record.Contents
import RecordTables.Proofs.Record.OneField
import RecordTables.Proofs.Record.Registered

/-!
# Samples that are missing

A definition that fails for want of a sample names a type whose sample is missed.  Whatever goes wrong inside a part,
the name is that of a part that was looked up, has no sample and is no option; once it has one, the definition never
fails for its sake again.  Each part has one name, so there are only so many samples that can be missed one after the
other.
-/

namespace RecordTables

namespace Outcome

variable {α β : Type} {x : Outcome α}

/-- A computation that never fails for want of a sample. -/
def MissesNone (x : Outcome α) : Prop := ∀ key, x ≠ .error (.missingPlaceholder key)

theorem OnContent.missesNone (hx : x.OnContent) : x.MissesNone := by
  intro key h
  cases hx _ h

theorem MissesNone.map {g : α → β} (hx : x.MissesNone) : (x >>= fun a => .ok (g a)).MissesNone := by
  intro key h
  rcases bind_eq_error.1 h with h | ⟨a, -, h⟩
  · exact hx key h
  · cases h

end Outcome

open Outcome

/-! ## Reading -/

namespace Shape

/-- A stored value that is read misses no sample, whatever its type is. -/
theorem missesNone_decodeField (around : Shape) (cell : Cell) (s : Shape) : (decodeField around cell s).MissesNone :=
  (onContent_decodeField around cell s).missesNone

/-- So does the content of an adjacently tagged variant. -/
theorem missesNone_contentOf (around : Shape) (name : TypeName) (variant : String) (payload : Payload) (cell : Cell) :
    (contentOf around name variant payload cell).MissesNone :=
  (onContent_decodeContent around cell name variant payload).missesNone.map

/-! ## Looking for samples -/

/-- The keys that are looked up for a part: its own and, if it has no sample, those inside. -/
def lookedUp (registry : Registry) (key : String) (inside : List String) : List String :=
  key :: if (registry.lookup key).isSome then [] else inside

/-- What is looked up behind a part, which comes to it only if the part got a value. -/
def behind {α : Type} (part : Outcome α) (keys : List String) : List String :=
  match part with
  | .ok _ => keys
  | .error _ => []

mutual

/-- The keys that are looked up while a value of a shape is made up, in order. -/
def asked (registry : Registry) (around : Shape) : Shape → List String
  | .option content => asked registry around content
  | .box content => asked registry around content
  | .transparent _ content => asked registry around content
  | .newtype _ content => asked registry around content
  | .checked _ content _ => asked registry around content
  | .guarded _ content _ => asked registry around content
  | .array item length =>
      if length = 0 then [] else lookedUp registry item.key.1 (asked registry around item)
  | .tuple items => askedItems registry around items
  | .tupleStruct _ items => askedItems registry around items
  | .record name strict fields => askedFields registry (.record name strict fields) fields
  | .choice _ ((_, payload) :: _) => askedPayload registry around payload
  | .adjacent name _ _ ((_, payload) :: _) =>
      lookedUp registry (placeholderKey name.text).1 (askedContent registry around payload)
  | _ => []

/-- The keys of the items of a tuple, up to the first item that gets no value. -/
def askedItems (registry : Registry) (around : Shape) : List Shape → List String
  | [] => []
  | s :: rest =>
      lookedUp registry s.key.1 (asked registry around s) ++
        behind (settleShape registry around s (probe registry around s)) (askedItems registry around rest)

/-- The keys of the fields that are read, up to the first one that gets no value or goes by a second name. -/
def askedFields (registry : Registry) (around : Shape) : List (Field × Shape) → List String
  | [] => []
  | (f, s) :: rest =>
      if f.constant.isSome then askedFields registry around rest
      else
        lookedUp registry s.key.1 (asked registry around s) ++
          if f.names.length = 1 then
            behind (settleShape registry around s (probe registry around s)) (askedFields registry around rest)
          else []

/-- The keys of what a variant carries. -/
def askedPayload (registry : Registry) (around : Shape) : Payload → List String
  | .unit => []
  | .newtype content => lookedUp registry content.key.1 (asked registry around content)
  | .tuple items => askedItems registry around items
  | .fields fields => askedFields registry around fields

/-- The keys inside the content of an adjacently tagged variant. -/
def askedContent (registry : Registry) (around : Shape) : Payload → List String
  | .unit => []
  | .newtype content => asked registry around content
  | .tuple items => askedItems registry around items
  | .fields fields => askedFields registry around fields

end

/-- The keys that are looked up while a record is made up. -/
def askedRecord (registry : Registry) : Shape → List String
  | .record name strict fields => askedFields registry (.record name strict fields) fields
  | .adjacent name tag content ((variant, payload) :: rest) =>
      lookedUp registry (placeholderKey name.text).1
        (askedContent registry (.adjacent name tag content ((variant, payload) :: rest)) payload)
  | .box s => askedRecord registry s
  | .transparent _ s => askedRecord registry s
  | .checked _ s _ => askedRecord registry s
  | _ => []

/-! ## The sample that is missed -/

/-- A key whose sample is missed: it was looked up, there is none, and it is not the name of an option. -/
structure Missed (registry : Registry) (key : String) (keys : List String) : Prop where
  asked : key ∈ keys
  unregistered : registry.lookup key = none
  plain : between? optionStart '>' key.toList = none

variable {registry : Registry} {around : Shape} {key : String}

theorem Missed.mono {keys more : List String} (h : Missed registry key keys) (hsubset : keys ⊆ more) :
    Missed registry key more :=
  ⟨hsubset h.asked, h.unregistered, h.plain⟩

/-- A part that fails for want of a sample misses its own, or one inside. -/
theorem missed_of_settle {name : String} {optional : Bool} {decode : Cell → Outcome Datum} {probed : Outcome Probed}
    {inside : List String} (hdecode : ∀ cell, (decode cell).MissesNone)
    (hinside : probed = .error (.missingPlaceholder key) → Missed registry key inside)
    (h : settle registry (placeholderKey name).1 optional decode probed = .error (.missingPlaceholder key)) :
    Missed registry key (lookedUp registry (placeholderKey name).1 inside) := by
  unfold lookedUp
  cases hsample : registry.lookup (placeholderKey name).1 with
  | some sample =>
      simp only [settle, hsample] at h
      exact absurd h ((hdecode _).map key)
  | none =>
      have hown : Missed registry (placeholderKey name).1 ((placeholderKey name).1 :: inside) :=
        ⟨List.mem_cons_self, hsample, between_placeholderKey name⟩
      simp only [settle, hsample] at h
      rw [Option.isSome_none, if_neg (by decide)]
      split at h
      · split at h
        · cases h
        · cases h
          exact hown
      · cases h
        exact (hinside rfl).mono (List.subset_cons_self _ _)
      · cases h
        exact hown

theorem missed_of_settleShape {s : Shape}
    (hinside : probe registry around s = .error (.missingPlaceholder key) →
      Missed registry key (asked registry around s))
    (h : settleShape registry around s (probe registry around s) = .error (.missingPlaceholder key)) :
    Missed registry key (lookedUp registry s.key.1 (asked registry around s)) :=
  missed_of_settle (fun cell => missesNone_decodeField around cell s) hinside h

/-- What is shaped of something fails only if that fails. -/
theorem error_of_shaped {α : Type} {x : Outcome α} {type : ColumnType} {f : α → Datum} {e : Error}
    (h : (x >>= fun a => Probed.shaped type (f a)) = .error e) : x = .error e := by
  rcases bind_eq_error.1 h with h | ⟨a, -, h⟩
  · exact h
  · cases h

mutual

theorem missed_of_probe (registry : Registry) (around : Shape) : ∀ s : Shape,
    probe registry around s = .error (.missingPlaceholder key) → Missed registry key (asked registry around s)
  | .option content => fun h => by
      rw [probe_option] at h
      rw [asked]
      exact missed_of_probe registry around content (Outcome.map_eq_error.1 h)
  | .box content => fun h => by
      rw [probe_box] at h
      rw [asked]
      exact missed_of_probe registry around content h
  | .transparent _ content => fun h => by
      rw [probe_transparent] at h
      rw [asked]
      exact missed_of_probe registry around content h
  | .newtype _ content => fun h => by
      rw [probe_newtype] at h
      rw [asked]
      exact missed_of_probe registry around content (Outcome.map_eq_error.1 h)
  | .guarded _ content _ => fun h => by
      rw [probe_guarded] at h
      rw [asked]
      exact missed_of_probe registry around content (Outcome.map_eq_error.1 h)
  | .checked _ content refusal => fun h => by
      rw [probe_checked] at h
      rw [asked]
      rcases bind_eq_error.1 h with h | ⟨p, -, h⟩
      · exact missed_of_probe registry around content h
      · exact absurd (Outcome.map_eq_error.1 h) ((Datum.onContent_pass refusal p.value).missesNone key)
  | .array item length => fun h => by
      rw [probe] at h
      rw [asked]
      split at h
      · cases h
      · rename_i hlength
        rw [if_neg hlength]
        exact missed_of_settleShape (missed_of_probe registry around item) (error_of_shaped h)
  | .tuple items => fun h => by
      rw [probe] at h
      rw [asked]
      exact missed_of_probeItems registry around items (error_of_shaped h)
  | .tupleStruct _ items => fun h => by
      rw [probe] at h
      rw [asked]
      exact missed_of_probeItems registry around items (error_of_shaped h)
  | .record name strict fields => fun h => by
      rw [probe] at h
      rw [asked]
      exact missed_of_probeFields registry _ fields (error_of_shaped h)
  | .choice _ [] => fun h => by
      rw [probe] at h
      cases h
  | .choice _ ((_, payload) :: _) => fun h => by
      rw [probe] at h
      rw [asked]
      exact missed_of_probePayload registry around payload (error_of_shaped h)
  | .adjacent _ _ _ [] => fun h => by
      rw [probe] at h
      cases h
  | .adjacent name _ _ ((variant, payload) :: _) => fun h => by
      rw [probe] at h
      rw [asked]
      exact missed_of_settle (missesNone_contentOf around name variant payload)
        (missed_of_probeContent registry around payload) (error_of_shaped h)
  | .int type => fun h => by
      rw [probe] at h
      split at h <;> cases h
  | .flattened _ fields => fun h => by
      rw [probe] at h
      split at h <;> cases h
  | .bool | .single | .double | .char | .text | .bytes _ | .unit _ | .list _ | .map _ _ | .enclosing _
  | .tagged _ _ _ | .untagged _ _ | .anything _ | .ignored _ | .label _ | .pairs _ _ _ => fun h => by
      rw [probe] at h
      cases h

theorem missed_of_probeItems (registry : Registry) (around : Shape) : ∀ items : List Shape,
    probeItems registry around items = .error (.missingPlaceholder key) →
      Missed registry key (askedItems registry around items)
  | [] => fun h => by
      rw [probeItems] at h
      cases h
  | s :: rest => fun h => by
      rw [probeItems] at h
      rw [askedItems]
      rcases bind_eq_error.1 h with h | ⟨first, hfirst, h⟩
      · exact (missed_of_settleShape (missed_of_probe registry around s) h).mono (List.subset_append_left _ _)
      · rw [hfirst]
        exact (missed_of_probeItems registry around rest (Outcome.map_eq_error.1 h)).mono (List.subset_append_right _ _)

theorem missed_of_probeFields (registry : Registry) (around : Shape) : ∀ fields : List (Field × Shape),
    probeFields registry around fields = .error (.missingPlaceholder key) →
      Missed registry key (askedFields registry around fields)
  | [] => fun h => by
      rw [probeFields] at h
      cases h
  | (f, s) :: rest => fun h => by
      rw [probeFields] at h
      rw [askedFields]
      cases hconstant : f.constant with
      | some d =>
          rw [hconstant] at h
          exact missed_of_probeFields registry around rest (Outcome.map_eq_error.1 h)
      | none =>
          rw [hconstant] at h
          rw [Option.isSome_none, if_neg (by decide)]
          rcases bind_eq_error.1 h with h | ⟨⟨d, column⟩, hsettle, h⟩
          · exact (missed_of_settleShape (missed_of_probe registry around s) h).mono (List.subset_append_left _ _)
          · -- A field with further names fails for another reason, even if it got a value.
            change (if f.names.length = 1 then _ else _) = _ at h
            split at h
            · rename_i hsingle
              rw [if_pos hsingle, hsettle]
              exact (missed_of_probeFields registry around rest (Outcome.map_eq_error.1 h)).mono (List.subset_append_right _ _)
            · cases h

theorem missed_of_probePayload (registry : Registry) (around : Shape) : ∀ payload : Payload,
    probePayload registry around payload = .error (.missingPlaceholder key) →
      Missed registry key (askedPayload registry around payload)
  | .unit => fun h => by
      rw [probePayload] at h
      cases h
  | .newtype content => fun h => by
      rw [probePayload] at h
      rw [askedPayload]
      exact missed_of_settleShape (missed_of_probe registry around content) (Outcome.map_eq_error.1 h)
  | .tuple items => fun h => by
      rw [probePayload] at h
      rw [askedPayload]
      exact missed_of_probeItems registry around items (Outcome.map_eq_error.1 h)
  | .fields fields => fun h => by
      rw [probePayload] at h
      rw [askedPayload]
      exact missed_of_probeFields registry around fields (Outcome.map_eq_error.1 h)

theorem missed_of_probeContent (registry : Registry) (around : Shape) : ∀ payload : Payload,
    probeContent registry around payload = .error (.missingPlaceholder key) →
      Missed registry key (askedContent registry around payload)
  | .unit => fun h => by
      rw [probeContent] at h
      cases h
  | .newtype content => fun h => by
      rw [probeContent] at h
      rw [askedContent]
      exact missed_of_probe registry around content h
  | .tuple items => fun h => by
      rw [probeContent] at h
      rw [askedContent]
      exact missed_of_probeItems registry around items (error_of_shaped h)
  | .fields fields => fun h => by
      rw [probeContent] at h
      rw [askedContent]
      exact missed_of_probeFields registry around fields (error_of_shaped h)

end

/-- A record that fails for want of a sample misses one that was looked up. -/
theorem missed_of_probeRecord {s : Shape} (h : probeRecord registry s = .error (.missingPlaceholder key)) :
    Missed registry key (askedRecord registry s) := by
  induction s using probeRecord.induct with
  | case1 name strict fields =>
      rw [probeRecord] at h
      rw [askedRecord]
      exact missed_of_probeFields registry _ fields (Outcome.map_eq_error.1 h)
  | case2 name tag content =>
      rw [probeRecord] at h
      cases h
  | case3 name tag content variant payload rest =>
      rw [probeRecord] at h
      rw [askedRecord]
      exact missed_of_settle (missesNone_contentOf _ name variant payload) (missed_of_probeContent registry _ payload)
        (Outcome.map_eq_error.1 h)
  | case4 s ih =>
      rw [probeRecord] at h
      rw [askedRecord]
      exact ih h
  | case5 name s ih =>
      rw [probeRecord] at h
      rw [askedRecord]
      exact ih h
  | case6 name s refusal ih =>
      rw [probeRecord] at h
      rw [askedRecord]
      rcases bind_eq_error.1 h with h | ⟨made, -, h⟩
      · exact ih h
      · exact absurd (Outcome.map_eq_error.1 h) ((Datum.onContent_pass refusal made.1).missesNone key)
  | case7 s =>
      rw [probeRecord] at h
      · cases h
      all_goals assumption

/-! ## All that can be missed -/

mutual

/-- The keys of the parts of a shape that can come up when a value is made up, whatever samples there are. -/
def positions : Shape → List String
  | .option content => positions content
  | .box content => positions content
  | .transparent _ content => positions content
  | .newtype _ content => positions content
  | .checked _ content _ => positions content
  | .guarded _ content _ => positions content
  | .array item length => if length = 0 then [] else item.key.1 :: positions item
  | .tuple items => itemPositions items
  | .tupleStruct _ items => itemPositions items
  | .record _ _ fields => fieldPositions fields
  | .choice _ ((_, payload) :: _) => payloadPositions payload
  | .adjacent name _ _ ((_, payload) :: _) => (placeholderKey name.text).1 :: contentPositions payload
  | _ => []

def itemPositions : List Shape → List String
  | [] => []
  | s :: rest => s.key.1 :: (positions s ++ itemPositions rest)

/-- A field that is not read does not come up. -/
def fieldPositions : List (Field × Shape) → List String
  | [] => []
  | (f, s) :: rest =>
      if f.constant.isSome then fieldPositions rest else s.key.1 :: (positions s ++ fieldPositions rest)

def payloadPositions : Payload → List String
  | .unit => []
  | .newtype content => content.key.1 :: positions content
  | .tuple items => itemPositions items
  | .fields fields => fieldPositions fields

def contentPositions : Payload → List String
  | .unit => []
  | .newtype content => positions content
  | .tuple items => itemPositions items
  | .fields fields => fieldPositions fields

end

/-- The keys of the parts of a record. -/
def recordPositions : Shape → List String
  | .record _ _ fields => fieldPositions fields
  | .adjacent name _ _ ((_, payload) :: _) => (placeholderKey name.text).1 :: contentPositions payload
  | .box s => recordPositions s
  | .transparent _ s => recordPositions s
  | .checked _ s _ => recordPositions s
  | _ => []

theorem lookedUp_subset {inside more : List String} (h : inside ⊆ more) :
    lookedUp registry key inside ⊆ key :: more := by
  unfold lookedUp
  split
  · exact List.cons_subset_cons _ (List.nil_subset _)
  · exact List.cons_subset_cons _ h

theorem behind_subset {α : Type} {part : Outcome α} {keys more : List String} (h : keys ⊆ more) :
    behind part keys ⊆ more := by
  unfold behind
  split
  · exact h
  · exact List.nil_subset _

/-- What is looked up for a part and behind it, and what can come up. -/
theorem lookedUp_append_subset {inside more behind rest : List String} (hinside : inside ⊆ more)
    (hbehind : behind ⊆ rest) : lookedUp registry key inside ++ behind ⊆ key :: (more ++ rest) := by
  rw [← List.cons_append]
  exact List.append_subset.2 ⟨List.Subset.trans (lookedUp_subset hinside) (List.subset_append_left _ _),
    List.Subset.trans hbehind (List.subset_append_right _ _)⟩

mutual

/-- Only keys of parts are looked up. -/
theorem asked_subset (registry : Registry) (around : Shape) : ∀ s : Shape, asked registry around s ⊆ positions s
  | .option content => by
      rw [asked, positions]
      exact asked_subset registry around content
  | .box content => by
      rw [asked, positions]
      exact asked_subset registry around content
  | .transparent _ content => by
      rw [asked, positions]
      exact asked_subset registry around content
  | .newtype _ content => by
      rw [asked, positions]
      exact asked_subset registry around content
  | .checked _ content _ => by
      rw [asked, positions]
      exact asked_subset registry around content
  | .guarded _ content _ => by
      rw [asked, positions]
      exact asked_subset registry around content
  | .array item length => by
      rw [asked, positions]
      split
      · exact List.nil_subset _
      · exact lookedUp_subset (asked_subset registry around item)
  | .tuple items => by
      rw [asked, positions]
      exact askedItems_subset registry around items
  | .tupleStruct _ items => by
      rw [asked, positions]
      exact askedItems_subset registry around items
  | .record name strict fields => by
      rw [asked, positions]
      exact askedFields_subset registry _ fields
  | .choice _ ((_, payload) :: _) => by
      rw [asked, positions]
      exact askedPayload_subset registry around payload
  | .adjacent _ _ _ ((_, payload) :: _) => by
      rw [asked, positions]
      exact lookedUp_subset (askedContent_subset registry around payload)
  | .choice _ [] | .adjacent _ _ _ [] | .bool | .int _ | .single | .double | .char | .text | .bytes _ | .unit _
  | .list _ | .map _ _ | .enclosing _ | .tagged _ _ _ | .untagged _ _ | .anything _ | .ignored _ | .label _
  | .pairs _ _ _ | .flattened _ _ => by simp [asked]

theorem askedItems_subset (registry : Registry) (around : Shape) : ∀ items : List Shape,
    askedItems registry around items ⊆ itemPositions items
  | [] => by simp [askedItems]
  | s :: rest => by
      rw [askedItems, itemPositions]
      exact lookedUp_append_subset (asked_subset registry around s)
        (behind_subset (askedItems_subset registry around rest))

theorem askedFields_subset (registry : Registry) (around : Shape) : ∀ fields : List (Field × Shape),
    askedFields registry around fields ⊆ fieldPositions fields
  | [] => by simp [askedFields]
  | (f, s) :: rest => by
      rw [askedFields, fieldPositions]
      have hrest := askedFields_subset registry around rest
      split
      · exact hrest
      · refine lookedUp_append_subset (asked_subset registry around s) ?_
        split
        · exact behind_subset hrest
        · exact List.nil_subset _

theorem askedPayload_subset (registry : Registry) (around : Shape) : ∀ payload : Payload,
    askedPayload registry around payload ⊆ payloadPositions payload
  | .unit => by simp [askedPayload]
  | .newtype content => by
      rw [askedPayload, payloadPositions]
      exact lookedUp_subset (asked_subset registry around content)
  | .tuple items => by
      rw [askedPayload, payloadPositions]
      exact askedItems_subset registry around items
  | .fields fields => by
      rw [askedPayload, payloadPositions]
      exact askedFields_subset registry around fields

theorem askedContent_subset (registry : Registry) (around : Shape) : ∀ payload : Payload,
    askedContent registry around payload ⊆ contentPositions payload
  | .unit => by simp [askedContent]
  | .newtype content => by
      rw [askedContent, contentPositions]
      exact asked_subset registry around content
  | .tuple items => by
      rw [askedContent, contentPositions]
      exact askedItems_subset registry around items
  | .fields fields => by
      rw [askedContent, contentPositions]
      exact askedFields_subset registry around fields

end

theorem askedRecord_subset (s : Shape) : askedRecord registry s ⊆ recordPositions s := by
  induction s using recordPositions.induct with
  | case1 name strict fields =>
      rw [askedRecord, recordPositions]
      exact askedFields_subset registry _ fields
  | case2 name tag content variant payload rest =>
      rw [askedRecord, recordPositions]
      exact lookedUp_subset (askedContent_subset registry _ payload)
  | case3 s ih =>
      rw [askedRecord, recordPositions]
      exact ih
  | case4 name s ih =>
      rw [askedRecord, recordPositions]
      exact ih
  | case5 name s refusal ih =>
      rw [askedRecord, recordPositions]
      exact ih
  | case6 s =>
      rw [askedRecord]
      · exact List.nil_subset _
      all_goals assumption

end Shape

/-! ## Definitions -/

namespace RecordType

open Shape (Missed missed_of_probeRecord askedRecord recordPositions askedRecord_subset)

variable (type : RecordType)

/-- The keys that are looked up for a definition, in order. -/
def asked (registry : Registry) : List String := type.shape.askedRecord registry

/-- The keys of the parts of a record that can come up, whatever samples there are. -/
def positions : List String := type.shape.recordPositions

/-- A loop that registers a sample of the type that is reported, and tries again: the types that it registers. -/
inductive Repairs : Registry → List String → Registry → Prop where
  | done {registry : Registry} : Repairs registry [] registry
  | round {registry between after : Registry} {keys : List String} {name : TypeName} {sample : Datum}
      (hmissing : type.definition registry = .error (.missingPlaceholder name.text))
      (hregister : registry.register name sample = .ok (true, between)) (hrest : Repairs between keys after) :
      Repairs registry (name.text :: keys) after

/-- What is sure of a type that is reported to have no sample. -/
structure Actionable (registry : Registry) (type : RecordType) (key : String) : Prop where
  /-- It has none. -/
  unregistered : registry.lookup key = none
  /-- It is no option. -/
  plain : ∀ content, key ≠ TypeName.optionPath ++ "<" ++ content ++ ">"
  /-- It was looked up for a part of the record. -/
  asked : key ∈ type.asked registry
  /-- Once it has a sample, whatever the others are, the definition never fails for its sake. -/
  repaired : ∀ registry', (registry'.lookup key).isSome = true →
    type.definition registry' ≠ .error (.missingPlaceholder key)

variable {type} {registry registry' : Registry} {key : String}

theorem asked_subset_positions : type.asked registry ⊆ type.positions := askedRecord_subset type.shape

/-- A definition that fails for want of a sample misses one that was looked up. -/
theorem missed_of_definition (h : type.definition registry = .error (.missingPlaceholder key)) :
    Missed registry key (type.asked registry) := by
  rcases Outcome.bind_eq_error.1 h with h | ⟨made, -, h⟩
  · exact missed_of_probeRecord h
  · -- The columns are there, and no other error of a table is about samples.
    change TableDefinition.make _ _ _ _ = _ at h
    unfold TableDefinition.make at h
    dsimp only at h
    split at h <;> cases h

theorem actionable_of_definition (h : type.definition registry = .error (.missingPlaceholder key)) :
    Actionable registry type key := by
  have hmissed := missed_of_definition h
  refine ⟨hmissed.unregistered, fun content hkey => ?_, hmissed.asked, fun registry' hsome hmissing => ?_⟩
  · have hinner : between? optionStart '>' key.toList = some content.toList := by
      rw [between_eq_some, hkey]
      simp [optionStart]
    rw [hmissed.plain] at hinner
    cases hinner
  · rw [(missed_of_definition hmissing).unregistered] at hsome
    cases hsome

/-- What is registered later had no sample before. -/
theorem Repairs.unregistered {keys : List String} (h : type.Repairs registry keys registry') :
    ∀ key ∈ keys, registry.lookup key = none := by
  induction h with
  | done => exact List.forall_mem_nil _
  | @round registry between _ _ name _ hmissing hregister _ ih =>
      refine List.forall_mem_cons.2 ⟨(missed_of_definition hmissing).unregistered, fun key hkey => ?_⟩
      have hnone := ih key hkey
      obtain ⟨hfalse, -⟩ | ⟨-, -, kept, -, -, hlookup⟩ := Registry.register_ok hregister
      · cases hfalse
      rw [hlookup] at hnone
      split at hnone
      · cases hnone
      · exact hnone

/-- A type is registered once. -/
theorem Repairs.nodup {keys : List String} (h : type.Repairs registry keys registry') : keys.Nodup := by
  induction h with
  | done => exact .nil
  | @round registry between _ _ name _ hmissing hregister hrest ih =>
      refine List.nodup_cons.2 ⟨fun hagain => ?_, ih⟩
      have hnone := hrest.unregistered name.text hagain
      obtain ⟨hfalse, -⟩ | ⟨-, -, kept, -, -, hlookup⟩ := Registry.register_ok hregister
      · cases hfalse
      rw [hlookup, if_pos rfl] at hnone
      cases hnone

/-- Only types of parts are registered. -/
theorem Repairs.subset {keys : List String} (h : type.Repairs registry keys registry') : keys ⊆ type.positions := by
  induction h with
  | done => exact List.nil_subset _
  | round hmissing _ _ ih =>
      exact List.cons_subset.2 ⟨asked_subset_positions (missed_of_definition hmissing).asked, ih⟩

/-- A sample of an even number, and one of a handle beside it. -/
def evenSample : Registry := ⟨[("gallery::Even", ⟨.integer, .int 2⟩)]⟩

def evenAndHandle : Registry := ⟨[("gallery::Handle", ⟨.text, .text "@a"⟩), ("gallery::Even", ⟨.integer, .int 2⟩)]⟩

theorem definition_loyal :
    (Gallery.loyal "gallery").definition .empty = .error (.missingPlaceholder "gallery::Even") := by
  rw [← Outcome.map_eq_error (f := TableDefinition.name)]
  decide +kernel

/-- A customer has a rank, which is even, and handles in several places: on a card that may be missing, in the first
variant of a contact, and in a tuple.  A sample of each is all that is missed. -/
theorem repairs_loyal :
    (Gallery.loyal "gallery").Repairs .empty ["gallery::Even", "gallery::Handle"] evenAndHandle := by
  have hhandle : (Gallery.loyal "gallery").definition evenSample = .error (.missingPlaceholder "gallery::Handle") := by
    rw [← Outcome.map_eq_error (f := TableDefinition.name)]
    decide +kernel
  have hfirst : Registry.empty.register (.simple "gallery::Even") (.int .i64 2) = .ok (true, evenSample) := rfl
  have hsecond : evenSample.register (.simple "gallery::Handle") (.text "@a") = .ok (true, evenAndHandle) := rfl
  exact .round definition_loyal hfirst (.round hhandle hsecond .done)

end RecordType

end RecordTables
