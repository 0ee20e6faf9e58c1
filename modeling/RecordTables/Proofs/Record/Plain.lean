import RecordTables.Proofs.Json.RoundTrip
import RecordTables.Proofs.Record.Typing

/-!
# Plain types

A plain type is made of types that ask for their own kind of value, and hides nothing from its documents: every
field is read under one name, and is written unless it is an absent option; no option wraps what may itself present
itself as nothing; the variants have distinct names, none of which could start a document.
-/

namespace RecordTables

namespace Shape

/-- Whether a value may present itself as nothing: an option or a unit, also behind wrappers. -/
def mayBeNull : Shape → Bool
  | .unit _ => true
  | .option _ => true
  | .box content => content.mayBeNull
  | .transparent _ content => content.mayBeNull
  | .newtype _ content => content.mayBeNull
  | .checked _ content _ => content.mayBeNull
  | _ => false

/-- The keys of documents: texts and integers, also behind wrappers. -/
def plainKey : Shape → Bool
  | .text => true
  | .int type => type.storable
  | .box content => content.plainKey
  | .transparent _ content => content.plainKey
  | .newtype _ content => content.plainKey
  | _ => false

end Shape

/-- A field that is read under one name only, and that is written, but for an option that is absent. -/
def Field.plain (f : Field) (s : Shape) : Bool :=
  f.constant.isNone && f.aliases.isEmpty &&
    match f.writing, f.default with
    | .always, _ => true
    | .unlessAbsent, none => s.missing?.isSome
    | .unlessAbsent, some .absent => s.missing?.isSome
    | _, _ => false

namespace Shape

mutual

/-- Whether a type is plain. -/
def plain : Shape → Bool
  | .bool => true
  | .int type => type.storable
  | .single => true
  | .double => true
  | .char => true
  | .text => true
  | .bytes _ => true
  | .unit _ => true
  | .option content => !content.mayBeNull && content.plain
  | .box content => content.plain
  | .transparent _ content => content.plain
  | .newtype _ content => content.plain
  | .checked _ content _ => content.plain
  | .list item => item.plain
  | .array item _ => item.plain
  | .tuple items => plainItems items
  | .tupleStruct _ items => plainItems items
  | .map key value => key.plainKey && value.plain
  | .record _ _ fields => decide (fields.map fun p => p.1.name).Nodup && plainFields fields
  | .enclosing _ => true
  | .choice _ variants =>
      decide (variants.map Prod.fst).Nodup && variants.all (fun v => v.1.toList.head? != some '\x7b') &&
        plainVariants variants
  | .adjacent _ tag content variants =>
      tag != content && decide (variants.map Prod.fst).Nodup && plainVariants variants
  | _ => false

def plainItems : List Shape → Bool
  | [] => true
  | s :: rest => s.plain && plainItems rest

def plainFields : List (Field × Shape) → Bool
  | [] => true
  | (f, s) :: rest => f.plain s && s.plain && plainFields rest

def plainVariants : List (String × Payload) → Bool
  | [] => true
  | (_, payload) :: rest => plainPayload payload && plainVariants rest

/-- Whether what a variant carries is plain. -/
def plainPayload : Payload → Bool
  | .unit => true
  | .newtype content => content.plain
  | .tuple items => plainItems items
  | .fields fields => decide (fields.map fun p => p.1.name).Nodup && plainFields fields

end

section

variable {content key value : Shape} {name : TypeName} {variants : List (String × Payload)}

theorem plain_option : (option content).plain = true ↔ content.mayBeNull = false ∧ content.plain = true := by
  change (!content.mayBeNull && content.plain) = true ↔ _
  rw [Bool.and_eq_true, Bool.not_eq_true']

theorem plain_map : (map key value).plain = true ↔ key.plainKey = true ∧ value.plain = true :=
  Bool.and_eq_true_iff

theorem plain_record {strict : Bool} {fields : List (Field × Shape)} :
    (record name strict fields).plain = true ↔
      (fields.map fun p => p.1.name).Nodup ∧ plainFields fields = true := by
  change (decide (fields.map fun p => p.1.name).Nodup && plainFields fields) = true ↔ _
  rw [Bool.and_eq_true, decide_eq_true_eq]

theorem plain_choice : (choice name variants).plain = true ↔
    (variants.map Prod.fst).Nodup ∧ (∀ v ∈ variants, v.1.toList.head? ≠ some '\x7b') ∧
      plainVariants variants = true := by
  change (decide (variants.map Prod.fst).Nodup && variants.all (fun v => v.1.toList.head? != some '\x7b') &&
    plainVariants variants) = true ↔ _
  rw [Bool.and_eq_true, Bool.and_eq_true, decide_eq_true_eq, List.all_eq_true, and_assoc]
  simp only [bne_iff_ne]

theorem plain_adjacent {tag content : String} : (adjacent name tag content variants).plain = true ↔
    tag ≠ content ∧ (variants.map Prod.fst).Nodup ∧ plainVariants variants = true := by
  change (tag != content && decide (variants.map Prod.fst).Nodup && plainVariants variants) = true ↔ _
  rw [Bool.and_eq_true, Bool.and_eq_true, decide_eq_true_eq, bne_iff_ne, and_assoc]

end

theorem plain_of_mem_items {items : List Shape} (h : plainItems items = true) : ∀ s ∈ items, s.plain = true := by
  induction items with
  | nil => simp
  | cons s rest ih =>
      obtain ⟨hfirst, hrest⟩ := Bool.and_eq_true_iff.1 h
      intro t ht
      rcases List.mem_cons.1 ht with rfl | ht
      · exact hfirst
      · exact ih hrest t ht

theorem plain_of_mem_fields {fields : List (Field × Shape)} (h : plainFields fields = true) :
    ∀ p ∈ fields, p.1.plain p.2 = true ∧ p.2.plain = true := by
  induction fields with
  | nil => simp
  | cons p rest ih =>
      obtain ⟨hfirst, hrest⟩ := Bool.and_eq_true_iff.1 h
      intro q hq
      rcases List.mem_cons.1 hq with rfl | hq
      · exact Bool.and_eq_true_iff.1 hfirst
      · exact ih hrest q hq

theorem plain_of_mem_variants {variants : List (String × Payload)} (h : plainVariants variants = true) :
    ∀ v ∈ variants, plainPayload v.2 = true := by
  induction variants with
  | nil => simp
  | cons v rest ih =>
      obtain ⟨hfirst, hrest⟩ := Bool.and_eq_true_iff.1 h
      intro w hw
      rcases List.mem_cons.1 hw with rfl | hw
      · exact hfirst
      · exact ih hrest w hw

/-- What a plain variant carries has a plain shape. -/
theorem plain_shape {payload : Payload} (h : plainPayload payload = true) (name : TypeName) :
    (payload.shape name).plain = true := by
  cases payload with
  | unit => rfl
  | newtype content => exact h
  | tuple items => exact h
  | fields parts => exact h

/-- What a document leaves out is an absent option, if it may be left out at all. -/
theorem missing_eq_absent {s : Shape} (h : s.missing?.isSome = true) : s.missing? = some .absent := by
  induction s using Shape.missing?.induct with
  | case1 content => rfl
  | case2 content ih => exact ih h
  | case3 name content ih => exact ih h
  | case4 s h₁ h₂ h₃ =>
      rw [missing?] at h
      · cases h
      · exact h₁
      · exact h₂
      · exact h₃

end Shape

/-- A field without further names is read under its own. -/
theorem Field.names_of_unaliased {f : Field} (hconstant : f.constant = none) (haliases : f.aliases = []) :
    f.names = [f.name] := by
  simp [Field.names, hconstant, haliases]

theorem Field.constant_of_plain {f : Field} {s : Shape} (h : f.plain s = true) : f.constant = none := by
  simp only [Field.plain, Bool.and_eq_true, Option.isNone_iff_eq_none] at h
  exact h.1.1

/-- A plain field is read under its own name. -/
theorem Field.names_of_plain {f : Field} {s : Shape} (h : f.plain s = true) : f.names = [f.name] := by
  have hconstant := Field.constant_of_plain h
  simp only [Field.plain, Bool.and_eq_true, List.isEmpty_iff] at h
  exact Field.names_of_unaliased hconstant h.1.2

end RecordTables
