import RecordTables.Proofs.Record.Presented

/-!
# Legible types

A legible type reads whatever it writes, though not always as the value that was written: an option around a unit
comes back as nothing, and a fraction comes back as a number that is near to it.  A field may be hidden from writing if
a document without it is complete, and from reading if an unknown entry is skipped.  What a check lets pass has to come
back as it was, for the check might refuse anything else: the content of a checked type is plain, and has neither
floats nor the record around it in it.
-/

namespace RecordTables

/-- The names under which a field is written or read. -/
def Field.allNames (f : Field) : List String := f.name :: f.aliases

/-- A field that documents of its record agree on: one that is not read is skipped, and one that is not written is
completed. -/
def Field.legible (strict : Bool) (f : Field) (s : Shape) : Bool :=
  if f.constant.isSome then !strict || f.writing == .never
  else f.writing == .always || f.default.isSome || s.missing?.isSome

/-- The names of the fields that a variant carries. -/
def Payload.fieldNames : Payload → List String
  | .fields parts => parts.map fun p => p.1.name
  | _ => []

namespace Shape

mutual

/-- Whether a type mentions neither floats nor the record around it. -/
def bare : Shape → Bool
  | .single => false
  | .double => false
  | .option content => content.bare
  | .box content => content.bare
  | .transparent _ content => content.bare
  | .newtype _ content => content.bare
  | .checked _ content _ => content.bare
  | .list item => item.bare
  | .array item _ => item.bare
  | .tuple items => bareItems items
  | .tupleStruct _ items => bareItems items
  | .map _ value => value.bare
  | .record _ _ fields => bareFields fields
  | .choice _ variants => barePayloads variants
  | .adjacent _ _ _ variants => barePayloads variants
  | .enclosing _ => false
  | _ => true

def bareItems : List Shape → Bool
  | [] => true
  | s :: rest => s.bare && bareItems rest

def bareFields : List (Field × Shape) → Bool
  | [] => true
  | (_, s) :: rest => s.bare && bareFields rest

def barePayloads : List (String × Payload) → Bool
  | [] => true
  | (_, payload) :: rest => barePayload payload && barePayloads rest

/-- Whether what a variant carries is bare. -/
def barePayload : Payload → Bool
  | .unit => true
  | .newtype content => content.bare
  | .tuple items => bareItems items
  | .fields fields => bareFields fields

end

/-- Whether a type reads the keys that it writes.  A key that has no text is never written. -/
def legibleKey : Shape → Bool
  | .option content => content.legibleKey
  | .box content => content.legibleKey
  | .transparent _ content => content.legibleKey
  | .newtype _ content => content.legibleKey
  | .checked _ content _ => content.plainKey
  | .guarded _ content _ => content.legibleKey
  | .choice _ variants => decide (variants.map Prod.fst).Nodup
  | .untagged _ alternatives => alternatives.contains .text
  | _ => true

mutual

/-- Whether a type reads the documents that it writes.  A recursive type reads the record around it, so it is legible
only if that is, which `looped` says. -/
def legible (looped : Bool) : Shape → Bool
  | .int type => decide (type.bits ≤ 128)
  | .option content => content.legible looped
  | .box content => content.legible looped
  | .transparent _ content => content.legible looped
  | .newtype _ content => content.legible looped
  | .checked _ content _ => content.legible looped && content.plain && content.bare
  | .guarded _ content _ => content.legible looped
  | .list item => item.legible looped
  | .array item _ => item.legible looped
  | .tuple items => legibleItems looped items
  | .tupleStruct _ items => legibleItems looped items
  | .map key value => key.legibleKey && value.legible looped
  | .record _ strict fields => decide (fields.flatMap fun p => p.1.allNames).Nodup && legibleFields true strict fields
  | .flattened _ fields =>
      decide (fields.flatMap fun p => p.1.allNames).Nodup && legibleFields looped false fields
  | .enclosing _ => looped
  | .choice _ variants =>
      decide (variants.map Prod.fst).Nodup && variants.all (fun v => v.1.toList.head? != some '\x7b') &&
        legibleVariants looped variants
  | .adjacent _ tag content variants =>
      tag != content && decide (variants.map Prod.fst).Nodup && legibleVariants looped variants
  | .tagged _ tag variants =>
      variants.all (fun v => v.2.fieldNames.all (· != tag)) && decide (variants.map Prod.fst).Nodup &&
        legibleTagged looped variants
  -- Pairs are read from a list, and presented as a map.
  | .pairs _ _ _ => false
  | _ => true

def legibleItems (looped : Bool) : List Shape → Bool
  | [] => true
  | s :: rest => s.legible looped && legibleItems looped rest

def legibleFields (looped strict : Bool) : List (Field × Shape) → Bool
  | [] => true
  | (f, s) :: rest => f.legible strict s && s.legible looped && legibleFields looped strict rest

def legibleVariants (looped : Bool) : List (String × Payload) → Bool
  | [] => true
  | (_, payload) :: rest => legiblePayload looped payload && legibleVariants looped rest

/-- Whether what a variant carries is legible.  Named fields are a record of their own. -/
def legiblePayload (looped : Bool) : Payload → Bool
  | .unit => true
  | .newtype content => content.legible looped
  | .tuple items => legibleItems looped items
  | .fields fields => decide (fields.flatMap fun p => p.1.allNames).Nodup && legibleFields true false fields

/-- Whether variants are legible whose fields stand beside their tag. -/
def legibleTagged (looped : Bool) : List (String × Payload) → Bool
  | [] => true
  | (_, .fields fields) :: rest =>
      decide (fields.flatMap fun p => p.1.allNames).Nodup && legibleFields looped false fields &&
        legibleTagged looped rest
  | _ :: rest => legibleTagged looped rest

end

/-! ## Parts of legible types -/

variable {looped : Bool}

section

variable {around content key value : Shape} {name : TypeName} {variants : List (String × Payload)}
  {fields : List (Field × Shape)} {strict : Bool}

theorem legible_checked {refusal : Datum → Option String} : (checked name content refusal).legible looped = true ↔
    content.legible looped = true ∧ content.plain = true ∧ content.bare = true := by
  change (content.legible looped && content.plain && content.bare) = true ↔ _
  rw [Bool.and_eq_true, Bool.and_eq_true, and_assoc]

theorem legible_map : (map key value).legible looped = true ↔ key.legibleKey = true ∧ value.legible looped = true :=
  Bool.and_eq_true_iff

theorem legible_record : (record name strict fields).legible looped = true ↔
    (fields.flatMap fun p => p.1.allNames).Nodup ∧ legibleFields true strict fields = true := by
  change (decide (fields.flatMap fun p => p.1.allNames).Nodup && legibleFields true strict fields) = true ↔ _
  rw [Bool.and_eq_true, decide_eq_true_eq]

theorem legible_flattened : (flattened name fields).legible looped = true ↔
    (fields.flatMap fun p => p.1.allNames).Nodup ∧ legibleFields looped false fields = true := by
  change (decide (fields.flatMap fun p => p.1.allNames).Nodup && legibleFields looped false fields) = true ↔ _
  rw [Bool.and_eq_true, decide_eq_true_eq]

theorem legible_choice : (choice name variants).legible looped = true ↔
    (variants.map Prod.fst).Nodup ∧ (∀ v ∈ variants, v.1.toList.head? ≠ some '\x7b') ∧
      legibleVariants looped variants = true := by
  change (decide (variants.map Prod.fst).Nodup && variants.all (fun v => v.1.toList.head? != some '\x7b') &&
    legibleVariants looped variants) = true ↔ _
  rw [Bool.and_eq_true, Bool.and_eq_true, decide_eq_true_eq, List.all_eq_true, and_assoc]
  simp only [bne_iff_ne]

theorem legible_adjacent {tag content : String} : (adjacent name tag content variants).legible looped = true ↔
    tag ≠ content ∧ (variants.map Prod.fst).Nodup ∧ legibleVariants looped variants = true := by
  change (tag != content && decide (variants.map Prod.fst).Nodup && legibleVariants looped variants) = true ↔ _
  rw [Bool.and_eq_true, Bool.and_eq_true, decide_eq_true_eq, bne_iff_ne, and_assoc]

theorem legible_tagged {tag : String} : (tagged name tag variants).legible looped = true ↔
    (∀ v ∈ variants, ∀ n ∈ v.2.fieldNames, n ≠ tag) ∧ (variants.map Prod.fst).Nodup ∧
      legibleTagged looped variants = true := by
  change (variants.all (fun v => v.2.fieldNames.all (· != tag)) && decide (variants.map Prod.fst).Nodup &&
    legibleTagged looped variants) = true ↔ _
  rw [Bool.and_eq_true, Bool.and_eq_true, decide_eq_true_eq, List.all_eq_true, and_assoc]
  simp only [List.all_eq_true, bne_iff_ne]

end

theorem legible_of_mem_items {items : List Shape} (h : legibleItems looped items = true) :
    ∀ s ∈ items, s.legible looped = true := by
  induction items with
  | nil => simp
  | cons s rest ih =>
      obtain ⟨hfirst, hrest⟩ := Bool.and_eq_true_iff.1 h
      intro t ht
      rcases List.mem_cons.1 ht with rfl | ht
      · exact hfirst
      · exact ih hrest t ht

theorem legible_of_mem_fields {strict : Bool} {fields : List (Field × Shape)}
    (h : legibleFields looped strict fields = true) :
    ∀ p ∈ fields, p.1.legible strict p.2 = true ∧ p.2.legible looped = true := by
  induction fields with
  | nil => simp
  | cons p rest ih =>
      obtain ⟨hfirst, hrest⟩ := Bool.and_eq_true_iff.1 h
      intro q hq
      rcases List.mem_cons.1 hq with rfl | hq
      · exact Bool.and_eq_true_iff.1 hfirst
      · exact ih hrest q hq

theorem legible_of_mem_variants {variants : List (String × Payload)} (h : legibleVariants looped variants = true) :
    ∀ v ∈ variants, legiblePayload looped v.2 = true := by
  induction variants with
  | nil => simp
  | cons v rest ih =>
      obtain ⟨hfirst, hrest⟩ := Bool.and_eq_true_iff.1 h
      intro w hw
      rcases List.mem_cons.1 hw with rfl | hw
      · exact hfirst
      · exact ih hrest w hw

/-- What a legible variant carries has a legible shape. -/
theorem legible_shape {payload : Payload} (h : legiblePayload looped payload = true) (name : TypeName) :
    (payload.shape name).legible looped = true := by
  cases payload with
  | unit => rfl
  | newtype content => exact h
  | tuple items => exact h
  | fields parts => exact h

/-- The fields beside a tag are legible. -/
theorem legible_of_mem_tagged {variants : List (String × Payload)} (h : legibleTagged looped variants = true)
    {variant : String} {fields : List (Field × Shape)} (hmem : (variant, .fields fields) ∈ variants) :
    (fields.flatMap fun p => p.1.allNames).Nodup ∧ legibleFields looped false fields = true := by
  induction variants with
  | nil => cases hmem
  | cons v rest ih =>
      obtain ⟨name, payload⟩ := v
      rcases List.mem_cons.1 hmem with heq | hmem
      · cases heq
        obtain ⟨hnodup, hfields⟩ := Bool.and_eq_true_iff.1 (Bool.and_eq_true_iff.1 h).1
        exact ⟨of_decide_eq_true hnodup, hfields⟩
      · refine ih ?_ hmem
        cases payload with
        | fields parts =>
            exact (Bool.and_eq_true_iff.1 h).2
        | _ => exact h

/-! ## Parts of bare types -/

theorem bare_of_mem_items {items : List Shape} (h : bareItems items = true) : ∀ s ∈ items, s.bare = true := by
  induction items with
  | nil => simp
  | cons s rest ih =>
      obtain ⟨hfirst, hrest⟩ := Bool.and_eq_true_iff.1 h
      intro t ht
      rcases List.mem_cons.1 ht with rfl | ht
      · exact hfirst
      · exact ih hrest t ht

theorem bare_of_mem_fields {fields : List (Field × Shape)} (h : bareFields fields = true) :
    ∀ p ∈ fields, p.2.bare = true := by
  induction fields with
  | nil => simp
  | cons p rest ih =>
      obtain ⟨hfirst, hrest⟩ := Bool.and_eq_true_iff.1 h
      intro q hq
      rcases List.mem_cons.1 hq with rfl | hq
      · exact hfirst
      · exact ih hrest q hq

theorem bare_of_mem_variants {variants : List (String × Payload)} (h : barePayloads variants = true) :
    ∀ v ∈ variants, barePayload v.2 = true := by
  induction variants with
  | nil => simp
  | cons v rest ih =>
      obtain ⟨hfirst, hrest⟩ := Bool.and_eq_true_iff.1 h
      intro w hw
      rcases List.mem_cons.1 hw with rfl | hw
      · exact hfirst
      · exact ih hrest w hw

/-- What a bare variant carries has a bare shape. -/
theorem bare_shape {payload : Payload} (h : barePayload payload = true) (name : TypeName) :
    (payload.shape name).bare = true := by
  cases payload with
  | unit => rfl
  | newtype content => exact h
  | tuple items => exact h
  | fields parts => exact h

end Shape

namespace Datum

theorem floatFreeItems_of_forall {items : List Datum} (h : ∀ d ∈ items, d.floatFree = true) :
    floatFreeItems items = true := by
  induction items with
  | nil => rfl
  | cons d rest ih =>
      rw [floatFreeItems, Bool.and_eq_true]
      exact ⟨h d (List.mem_cons_self ..), ih fun e he => h e (List.mem_cons_of_mem _ he)⟩

theorem floatFreeEntries_of_forall {entries : List (Datum × Datum)}
    (hkey : ∀ e ∈ entries, e.1.floatFree = true) (hvalue : ∀ e ∈ entries, e.2.floatFree = true) :
    floatFreeEntries entries = true := by
  induction entries with
  | nil => rfl
  | cons e rest ih =>
      obtain ⟨key, value⟩ := e
      rw [floatFreeEntries, Bool.and_eq_true, Bool.and_eq_true]
      have hrest := ih (fun e he => hkey e (List.mem_cons_of_mem _ he)) fun e he => hvalue e (List.mem_cons_of_mem _ he)
      exact ⟨⟨hkey (key, value) (List.mem_cons_self ..), hvalue (key, value) (List.mem_cons_self ..)⟩, hrest⟩

theorem floatFreeFields_of_forall {fields : List (String × Datum)} (h : ∀ p ∈ fields, p.2.floatFree = true) :
    floatFreeFields fields = true := by
  induction fields with
  | nil => rfl
  | cons p rest ih =>
      obtain ⟨name, value⟩ := p
      rw [floatFreeFields, Bool.and_eq_true]
      exact ⟨h (name, value) (List.mem_cons_self ..), ih fun q hq => h q (List.mem_cons_of_mem _ hq)⟩

end Datum

namespace Shape

variable {around : Shape}

/-- Every item of a tuple stands beside its shape. -/
theorem exists_mem_zip_of_length {shapes : List Shape} {items : List Datum} (hlength : items.length = shapes.length)
    {d : Datum} (hd : d ∈ items) : ∃ s, (s, d) ∈ shapes.zip items := by
  obtain ⟨i, hi, rfl⟩ := List.getElem_of_mem hd
  exact ⟨shapes[i], List.mem_iff_getElem.2 ⟨i, by simp [hlength] at hi ⊢; omega, by simp⟩⟩

/-- Plain keys are texts and integers. -/
theorem floatFree_of_plainKey {key : Shape} {d : Datum} (h : IsValue around key d) (hplain : key.plainKey = true) :
    d.floatFree = true := by
  induction h with
  | text | int => rfl
  | box h ih => exact ih hplain
  | transparent h ih => exact ih hplain
  | newtype h ih => exact ih hplain
  | _ => simp [plainKey] at hplain

/-- The values of a bare type have no floats. -/
theorem floatFree_of_bare {s : Shape} {d : Datum} (h : IsValue around s d) (hplain : s.plain = true)
    (hbare : s.bare = true) : d.floatFree = true := by
  induction h with
  | single | double | enclosing => simp [bare] at hbare
  | bool | int | char | text | bytes | unit | absent => rfl
  | present h ih => exact ih (plain_option.1 hplain).2 hbare
  | box h ih => exact ih hplain hbare
  | transparent h ih => exact ih hplain hbare
  | newtype h ih => exact ih hplain hbare
  | checked h hpass ih => exact ih hplain hbare
  | list h ih => exact Datum.floatFreeItems_of_forall fun d hd => ih d hd hplain hbare
  | array h ih => exact Datum.floatFreeItems_of_forall fun d hd => ih d hd hplain hbare
  | tuple hlength h ih =>
      refine Datum.floatFreeItems_of_forall fun d hd => ?_
      obtain ⟨s, hs⟩ := exists_mem_zip_of_length hlength hd
      have hmem := (List.of_mem_zip hs).1
      exact ih (s, d) hs (plain_of_mem_items hplain s hmem) (bare_of_mem_items hbare s hmem)
  | tupleStruct hlength h ih =>
      refine Datum.floatFreeItems_of_forall fun d hd => ?_
      obtain ⟨s, hs⟩ := exists_mem_zip_of_length hlength hd
      have hmem := (List.of_mem_zip hs).1
      exact ih (s, d) hs (plain_of_mem_items hplain s hmem) (bare_of_mem_items hbare s hmem)
  | map hkey hvalue hsorted ihkey ihvalue =>
      rw [plain_map] at hplain
      exact Datum.floatFreeEntries_of_forall (fun e he => floatFree_of_plainKey (hkey e he) hplain.1)
        fun e he => ihvalue e he hplain.2 hbare
  | record hfields h ih =>
      refine Datum.floatFreeFields_of_forall fun p hp => ?_
      obtain ⟨f, hf, _, _⟩ := mem_presentedFields.1 hp
      obtain ⟨s, hs⟩ := exists_mem_zip hfields hf
      have hmem := (of_mem_zip hfields hs).1
      exact ih _ hs (plain_of_mem_fields (plain_record.1 hplain).2 _ hmem).2 (bare_of_mem_fields hbare _ hmem)
  | @choice around name variants variant payload d hvariant h ih =>
      have hpayload := ih (plain_shape (plain_of_mem_variants (plain_choice.1 hplain).2.2 _ hvariant) name)
        (bare_shape (bare_of_mem_variants hbare _ hvariant) name)
      cases payload with
      | unit => rfl
      | _ => exact hpayload
  | adjacentUnit => rfl
  | @adjacentContent around name tag content variants variant payload d hvariant hpayload h ih =>
      have hcontent := ih (plain_shape (plain_of_mem_variants (plain_adjacent.1 hplain).2.2 _ hvariant) name)
        (bare_shape (bare_of_mem_variants hbare _ hvariant) name)
      simp [adjacentRecord, Datum.floatFree, Datum.floatFreeFields, hcontent]
  | _ => simp [plain] at hplain

end Shape

end RecordTables
