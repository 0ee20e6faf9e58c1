import RecordTables.Proofs.Record.OneField
import RecordTables.Proofs.Record.Probed
import RecordTables.Proofs.Record.SampleKeys
import RecordTables.Proofs.Record.Stored

/-!
# Columns and samples

A sample of a type brings the storage class that the type asks for, but it is the name of the type that says whether its
column takes NULL.  So a field keeps its column when a sample is registered, unless its type takes NULL and is not called
an option.
-/

namespace RecordTables

namespace Registry

variable {registry registry' : Registry} {type : TypeName} {d : Datum} {answer : Bool}

/-- A type has one sample at most, and it is the first that was registered. -/
theorem register_ok (h : registry.register type d = .ok (answer, registry')) :
    answer = false ∧ registry' = registry ∨
      answer = true ∧ registry.lookup type.text = none ∧ ∃ sample, d.encodeField = .ok sample.value ∧
        sample.value.columnType? = some sample.type ∧
          ∀ key, registry'.lookup key = if key = type.text then some sample else registry.lookup key := by
  unfold register at h
  simp only at h
  split at h
  · cases h
    exact .inl ⟨rfl, rfl⟩
  · rename_i hnone
    rw [Bool.not_eq_true, Option.isSome_eq_false_iff, Option.isNone_iff_eq_none] at hnone
    obtain ⟨sample, hsample, hregistered⟩ := Outcome.bind_eq_ok.1 h
    obtain ⟨value, hvalue, hclass⟩ := Outcome.bind_eq_ok.1 hsample
    cases hregistered
    split at hclass
    · rename_i kind hkind
      cases hclass
      refine .inr ⟨rfl, hnone, ⟨kind, value⟩, hvalue, hkind, fun key => ?_⟩
      rw [lookup, List.lookup_cons]
      by_cases hkey : key = type.text
      · rw [if_pos hkey, hkey, beq_self_eq_true]
      · rw [if_neg hkey, beq_false_of_ne hkey]
        rfl
    · cases hclass

/-- A sample of an option is never found. -/
theorem sameKeys_register (h : registry.register type d = .ok (answer, registry'))
    (hoption : (placeholderKey type.text).2 = true) : registry.SameKeys registry' := by
  obtain ⟨-, rfl⟩ | ⟨-, -, sample, -, -, hlookup⟩ := register_ok h
  · exact ⟨fun _ => rfl⟩
  · exact ⟨fun name => by rw [hlookup, if_neg (placeholderKey_ne hoption)]⟩

end Registry

namespace Shape

/-- A part with a sample has the column of the sample, if it can read it. -/
theorem settle_registered {registry : Registry} {key : String} {optional : Bool} {sample : Sample}
    {decode : Cell → Outcome Datum} {probed : Outcome Probed} {e : Datum} (hkey : registry.lookup key = some sample)
    (hdecode : decode ⟨"placeholder", sample.value⟩ = .ok e) :
    settle registry key optional decode probed = .ok (e, ⟨sample.type, optional⟩) := by
  simp only [settle, hkey, hdecode]
  rfl

/-- An option has the key of its content. -/
theorem key_option {s : Shape} (hplain : s.key.2 = false) : (Shape.option s).key = (s.typeName.text, true) := by
  have hstripped := placeholderKey_option s.typeName
  rw [placeholderKey_plain hplain] at hstripped
  exact hstripped

/-- What has a storage class is not NULL, so an option reads it as its content does. -/
theorem decodeField_present {around s : Shape} {cell : Cell} {type : ColumnType} {e : Datum}
    (hclass : cell.value.columnType? = some type) (h : decodeField around cell s = .ok e) :
    decodeField around cell (.option s) = .ok (.present e) := by
  have hnull : cell.value.isNull = false := by
    cases hvalue : cell.value with
    | null =>
        rw [hvalue] at hclass
        cases hclass
    | _ => rfl
  rw [decodeField_option, hnull, h]
  rfl

end Shape

namespace RecordType

open Shape

variable {registry registry' : Registry} {home : String} {s : Shape} {d : Datum} {answer : Bool} {column : Column}

theorem oneColumn_of_definition {table : TableDefinition} (h : (Gallery.one home s).definition registry = .ok table) :
    ∃ e column, oneColumn registry home s = .ok (e, column) ∧ table = oneTable home s column := by
  rw [definition_one_eq] at h
  obtain ⟨⟨e, column⟩, hcolumn, htable⟩ := Outcome.bind_eq_ok.1 h
  exact ⟨e, column, hcolumn, (Except.ok.inj htable).symm⟩

theorem definition_of_oneColumn {e : Datum} (h : oneColumn registry home s = .ok (e, column)) :
    (Gallery.one home s).definition registry = .ok (oneTable home s column) := by
  rw [definition_one_eq, h]
  rfl

/-- What is registered for an option changes no definition. -/
theorem definition_register_underOption (h : registry.register s.typeName d = .ok (answer, registry'))
    (hoption : s.key.2 = true)
    (t : Shape) : (Gallery.one home t).definition registry' = (Gallery.one home t).definition registry := by
  have hsame := Registry.sameKeys_register h hoption
  rw [definition_one_eq, definition_one_eq]
  simp only [oneColumn, settleShape_congr hsame, probe_congr hsame]

/-- A field of a type with a sample has the class that it had without, and takes NULL if its type is called an option. -/
theorem definition_register_new {sample : Sample} {table : TableDefinition} (hkey : registry.lookup s.key.1 = none)
    (hkey' : registry'.lookup s.key.1 = some sample) (hvalue : IsValue (Gallery.one home s).shape s d)
    (hsample : d.encodeField = .ok sample.value) (hclass : sample.value.columnType? = some sample.type)
    (hreads : ∃ e, decodeField (Gallery.one home s).shape ⟨"placeholder", sample.value⟩ s = .ok e)
    (h : (Gallery.one home s).definition registry = .ok table) :
    ∃ column p, table = oneTable home s column ∧ probe registry (Gallery.one home s).shape s = .ok p ∧
      p.nullable = column.nullable ∧
        (Gallery.one home s).definition registry' = .ok (oneTable home s { column with nullable := s.key.2 }) := by
  obtain ⟨e, column, hcolumn, rfl⟩ := oneColumn_of_definition h
  unfold oneColumn settleShape at hcolumn
  obtain ⟨p, hp, -, htype, hnullable⟩ := settle_unregistered hkey hcolumn
  obtain ⟨e', hreads⟩ := hreads
  -- The sample has a storage class, so it is not NULL, and its class is the one that the type asks for.
  have hsame : sample.type = column.type := by
    rcases columnType_encodeField hvalue hp htype hsample with hasked | ⟨hnull, -⟩
    · exact Option.some.inj (hclass.symm.trans hasked)
    · rw [hnull] at hclass
      cases hclass
  refine ⟨column, p, rfl, hp, hnullable, definition_of_oneColumn (e := e') ?_⟩
  rw [oneColumn, settleShape, settle_registered hkey' hreads, hsame]

theorem oneTable_inj {column' : Column} (h : oneTable home s column = oneTable home s column') : column = column' := by
  have hcolumns := congrArg TableDefinition.columns h
  simpa [oneTable] using hcolumns

/-- A sample that is new changes no class, and its column takes NULL exactly if its type is called an option. -/
theorem definition_register_plain (hregister : registry.register s.typeName d = .ok (true, registry'))
    (hplain : s.key.2 = false) (hvalue : IsValue (Gallery.one home s).shape s d)
    (hreads : ∀ v, d.encodeField = .ok v → ∃ e, decodeField (Gallery.one home s).shape ⟨"placeholder", v⟩ s = .ok e)
    (h : (Gallery.one home s).definition registry = .ok (oneTable home s column)) :
    (Gallery.one home s).definition registry' = .ok (oneTable home s { column with nullable := false }) := by
  obtain ⟨hanswer, -⟩ | ⟨-, hnone, sample, hsample, hclass, hlookup⟩ := Registry.register_ok hregister
  · cases hanswer
  · have hkey : s.key.1 = s.typeName.text := placeholderKey_plain hplain
    have hfound := (hlookup s.key.1).trans (if_pos hkey)
    rw [← hkey] at hnone
    obtain ⟨column', p, hcolumn, -, -, hafter⟩ :=
      definition_register_new hnone hfound hvalue hsample hclass (hreads _ hsample) h
    rw [hafter, hplain, oneTable_inj hcolumn]

/-- An option of a type that gets a sample keeps its column. -/
theorem definition_register_content {table : TableDefinition}
    (hregister : registry.register s.typeName d = .ok (true, registry')) (hplain : s.key.2 = false)
    (hvalue : IsValue (Gallery.one home (.option s)).shape s d)
    (hreads : ∀ v, d.encodeField = .ok v →
      ∃ e, decodeField (Gallery.one home (.option s)).shape ⟨"placeholder", v⟩ s = .ok e)
    (h : (Gallery.one home (.option s)).definition registry = .ok table) :
    (Gallery.one home (.option s)).definition registry' = .ok table := by
  obtain ⟨hanswer, -⟩ | ⟨-, hnone, sample, hsample, hclass, hlookup⟩ := Registry.register_ok hregister
  · cases hanswer
  · have hkey := key_option hplain
    have hfound := hlookup (Shape.option s).key.1
    rw [hkey, if_pos rfl] at hfound
    obtain ⟨e, he⟩ := hreads _ hsample
    obtain ⟨column, p, rfl, hp, hnullable, hafter⟩ := definition_register_new (by rw [hkey]; exact hnone)
      (by rw [hkey]; exact hfound) (.present hvalue) hsample hclass ⟨_, decodeField_present hclass he⟩ h
    obtain ⟨q, -, hq⟩ := Outcome.bind_eq_ok.1 (probe_option.symm.trans hp)
    cases hq
    obtain ⟨type, nullable⟩ := column
    cases (show true = nullable from hnullable)
    rw [hafter, hkey]

/-- Registering a sample that can be read leaves the class of a field as it was.  It takes NULL away from the column if
the type is not called an option, and changes nothing else; an option of the type keeps its column as it is. -/
theorem definition_register (hregister : registry.register s.typeName d = .ok (answer, registry'))
    (hvalue : ∀ around, IsValue around s d)
    (hreads : ∀ around v, d.encodeField = .ok v → ∃ e, decodeField around ⟨"placeholder", v⟩ s = .ok e)
    (h : (Gallery.one home s).definition registry = .ok (oneTable home s column)) :
    (Gallery.one home s).definition registry' =
        .ok (oneTable home s { column with nullable := column.nullable && (!answer || s.key.2) }) ∧
      ((Gallery.one home s).definition registry' = (Gallery.one home s).definition registry ↔
        (column.nullable = true → answer = true → s.key.2 = true)) ∧
      ∀ table, (Gallery.one home (.option s)).definition registry = .ok table →
        (Gallery.one home (.option s)).definition registry' = .ok table := by
  have hafter : (Gallery.one home s).definition registry' =
      .ok (oneTable home s { column with nullable := column.nullable && (!answer || s.key.2) }) := by
    cases hanswer : answer with
    | false =>
        obtain ⟨-, rfl⟩ | ⟨htrue, -⟩ := Registry.register_ok hregister
        · rw [h, Bool.not_false, Bool.true_or, Bool.and_true]
        · rw [hanswer] at htrue
          cases htrue
    | true =>
        cases hoption : s.key.2 with
        | true => rw [definition_register_underOption hregister hoption, h, Bool.or_true, Bool.and_true]
        | false =>
            rw [hanswer] at hregister
            rw [definition_register_plain hregister hoption (hvalue _) (hreads _) h, Bool.or_false, Bool.not_true,
              Bool.and_false]
  refine ⟨hafter, ?_, fun table htable => ?_⟩
  · rw [hafter, h]
    constructor
    · intro hsame hnullable hanswer
      have hcolumn := congrArg Column.nullable (oneTable_inj (Except.ok.inj hsame))
      rw [hnullable, hanswer] at hcolumn
      exact hcolumn
    · intro hkept
      have hnullable : (column.nullable && (!answer || s.key.2)) = column.nullable := by
        cases hnull : column.nullable with
        | false => rfl
        | true =>
            cases hanswer : answer with
            | false => rfl
            | true => rw [hkept hnull hanswer]; rfl
      rw [hnullable]
  · cases hoption : s.key.2 with
    | true => rw [definition_register_underOption hregister hoption, htable]
    | false =>
        cases hanswer : answer with
        | false =>
            obtain ⟨-, rfl⟩ | ⟨htrue, -⟩ := Registry.register_ok hregister
            · exact htable
            · rw [hanswer] at htrue
              cases htrue
        | true =>
            rw [hanswer] at hregister
            exact definition_register_content hregister hoption (hvalue _) (hreads _) htable

/-! ## Distances and numbers that may be missing -/

theorem definition_meters : (Gallery.one "gallery" (Gallery.meters "gallery")).definition .empty =
    .ok (oneTable "gallery" (Gallery.meters "gallery") ⟨.real, false⟩) := by
  refine definition_of_oneColumn (e := .newtype (.double (.ofInt 1))) ?_
  rw [oneColumn, Gallery.meters, probe_newtype, probe]
  rfl

theorem definition_register_meters : ∃ registry,
    Registry.empty.register (Gallery.meters "gallery").typeName (.newtype (.double (.ofInt 2))) = .ok (true, registry) ∧
      (Gallery.one "gallery" (Gallery.meters "gallery")).definition registry =
        (Gallery.one "gallery" (Gallery.meters "gallery")).definition .empty := by
  have hreads : ∀ around v, (Datum.newtype (.double (.ofInt 2))).encodeField = .ok v →
      ∃ e, decodeField around ⟨"placeholder", v⟩ (Gallery.meters "gallery") = .ok e := by
    intro around v hv
    cases hv
    exact ⟨_, rfl⟩
  exact ⟨_, rfl,
    (definition_register rfl (fun _ => .newtype (.double _)) hreads definition_meters).2.1.2 fun h => by cases h⟩

/-- A number that may be missing has a column that takes NULL, until a sample of it is registered, though the sample
comes back as it was. -/
theorem definition_register_maybeNum : ∃ registry,
    Registry.empty.register (Gallery.maybeNum "gallery").typeName (.newtype (.present (.int .i64 3))) =
        .ok (true, registry) ∧
      (∀ around, Restores around (Gallery.maybeNum "gallery") (.newtype (.present (.int .i64 3)))) ∧
      (Gallery.one "gallery" (Gallery.maybeNum "gallery")).definition .empty =
        .ok (oneTable "gallery" (Gallery.maybeNum "gallery") ⟨.integer, true⟩) ∧
      (Gallery.one "gallery" (Gallery.maybeNum "gallery")).definition registry =
        .ok (oneTable "gallery" (Gallery.maybeNum "gallery") ⟨.integer, false⟩) := by
  have hempty : (Gallery.one "gallery" (Gallery.maybeNum "gallery")).definition .empty =
      .ok (oneTable "gallery" (Gallery.maybeNum "gallery") ⟨.integer, true⟩) := by
    refine definition_of_oneColumn (e := .newtype (.present (.int .i64 1))) ?_
    rw [oneColumn, Gallery.maybeNum, probe_newtype, probe_option, probe]
    rfl
  have hvalue : ∀ around, IsValue around (Gallery.maybeNum "gallery") (.newtype (.present (.int .i64 3))) :=
    fun _ => .newtype (.present (.int rfl))
  refine ⟨_, rfl, fun around column v hv => ?_, hempty,
    definition_register_plain rfl (by decide +kernel) (hvalue _) ?_ hempty⟩
  · cases hv
    rfl
  · intro v hv
    cases hv
    exact ⟨_, rfl⟩

end RecordType

end RecordTables
