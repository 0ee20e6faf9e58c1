import RecordTables.Proofs.Number.Widening
import RecordTables.Proofs.Record.Cells
import RecordTables.Proofs.Record.ReadBack

/-!
# Stored fields read back

A field of a plain type reads its own value back from its column.  Scalars have a storage class of their own, a
variant that carries nothing is its bare name, and all else goes through the text of its document, for which
`readsBack_of_isValue` stands.
-/

namespace RecordTables

open RecordTables.Json (Document)

/-- What a column holds whole.  A float stands directly in its field, and a single is a number; a document has no
floats and no more levels than its reader may enter. -/
def Datum.storedWhole : Datum → Bool
  | .single x => x.value != .nan
  | .double _ => true
  | .present d => d.storedWhole
  | .newtype d => d.storedWhole
  | d => d.floatFree && d.document?.all fun doc => decide (doc.depth ≤ Shape.maxLevels)

/-- A document is held whole if it has no floats and few enough levels. -/
theorem Datum.storedWhole_compound {d : Datum} (h : d.isCompound = true) (hwhole : d.storedWhole = true) :
    d.floatFree = true ∧ ∀ doc, d.document? = some doc → doc.depth ≤ Shape.maxLevels := by
  have hparts : d.storedWhole = (d.floatFree && d.document?.all fun doc => decide (doc.depth ≤ Shape.maxLevels)) := by
    cases d with
    | unit | list | map | record | variant => rfl
    | _ => cases h
  rw [hparts, Bool.and_eq_true] at hwhole
  refine ⟨hwhole.1, fun doc hdoc => ?_⟩
  have hall := hwhole.2
  rwa [hdoc, Option.all_some, decide_eq_true_eq] at hall

namespace Shape

variable {around : Shape}

/-- A field reads its value back from what it is stored as. -/
def Restores (around s : Shape) (d : Datum) : Prop :=
  ∀ (column : String) (v : Value), d.encodeField = .ok v → decodeField around ⟨column, v⟩ s = .ok d

/-! ## Scalars -/

theorem restores_bool (b : Bool) : Restores around .bool (.bool b) := by
  intro column v hv
  cases hv
  rw [decodeField_bool]
  cases b <;> rfl

theorem restores_int {type : IntType} {n : Int} (hn : type.holds n = true) :
    Restores around (.int type) (.int type n) := by
  intro column v hv
  obtain ⟨hstorable, m, rfl, rfl⟩ := Datum.encodeField_int hv
  have hcell : (Cell.mk column (.int m)).integerOf type = .ok m.toInt := by
    show (if type.holds m.toInt then Except.ok m.toInt else _) = _
    rw [if_pos hn]
  rw [decodeField_int _ hstorable, hcell]
  rfl

theorem restores_single {x : Single} (hx : x.value ≠ .nan) : Restores around .single (.single x) := by
  intro column v hv
  cases hv
  rw [decodeField_single]
  show Except.ok (Datum.single x.widen.narrow) = _
  rw [Single.narrow_widen hx]

theorem restores_double (x : Double) : Restores around .double (.double x) := by
  intro column v hv
  cases hv
  rw [decodeField_double]
  rfl

theorem restores_char (c : Char) : Restores around .char (.char c) := by
  intro column v hv
  cases hv
  have hcell : (Cell.mk column (.text (String.singleton c))).char = .ok c := by
    have hchars : (String.singleton c).toList = [c] := String.toList_singleton c
    simp only [Cell.char, Cell.text, bind, Except.bind, hchars, onlyChar?]
  rw [decodeField_char, hcell]
  rfl

theorem restores_text (s : String) : Restores around .text (.text s) := by
  intro column v hv
  cases hv
  rw [decodeField_text]
  rfl

theorem restores_bytes {name : TypeName} (content : ByteArray) : Restores around (.bytes name) (.bytes content) := by
  intro column v hv
  cases hv
  rw [decodeField_bytes]
  rfl

/-! ## Wrappers -/

theorem restores_absent {content : Shape} : Restores around (.option content) .absent := by
  intro column v hv
  cases hv
  rfl

theorem restores_present {content : Shape} {d : Datum} (hnull : d.encodeField ≠ .ok .null)
    (h : Restores around content d) : Restores around (.option content) (.present d) := by
  intro column v hv
  rw [Datum.encodeField] at hv
  have hvalue : v.isNull = false := by
    cases v with
    | null => exact absurd hv hnull
    | _ => rfl
  rw [decodeField_option, hvalue, h column v hv]
  rfl

theorem restores_newtype {content : Shape} {name : TypeName} {d : Datum} (h : Restores around content d) :
    Restores around (.newtype name content) (.newtype d) := by
  intro column v hv
  rw [Datum.encodeField] at hv
  rw [decodeField_newtype, h column v hv]
  rfl

theorem restores_checked {content : Shape} {name : TypeName} {refusal : Datum → Option String} {d : Datum}
    (hpass : refusal d = none) (h : Restores around content d) :
    Restores around (.checked name content refusal) d := by
  intro column v hv
  rw [decodeField_checked, h column v hv]
  exact Datum.pass_eq_ok.2 ⟨hpass, rfl⟩

/-! ## Documents -/

/-- The document of a column is the one that was written. -/
theorem cell_document {s : Shape} {d : Datum} {column : String} {doc : Document} (hread : ReadsBack around s d)
    (hfree : d.floatFree = true) (hdoc : d.document? = some doc) (hdepth : doc.depth ≤ maxLevels) :
    (Cell.mk column (.text doc.text)).document around s = .ok d := by
  have hparse := Datum.parse_document hfree hdoc
  have hvalue : readIn? around s doc = some d := hread maxLevels doc hdoc hdepth
  simp only [Cell.document, bind, Except.bind, hparse, Option.bind_some, hvalue]

/-- A field that is stored as its document reads it back. -/
theorem restores_document {s : Shape} {d : Datum} (h : IsValue around s d)
    (haround : around.plain = true ∨ s.bare = true) (hplain : s.plain = true) (hshape : s.readsDocument = true)
    (hdatum : d.isCompound = true)
    (hwhole : d.storedWhole = true) : Restores around s d := by
  intro column v hv
  obtain ⟨hfree, hdepth⟩ := Datum.storedWhole_compound hdatum hwhole
  rw [Datum.encodeField_compound hdatum] at hv
  obtain ⟨doc, hdoc, rfl⟩ := Datum.documentText_ok hv
  rw [decodeField_document _ hshape]
  exact cell_document (readsBack_of_isValue h haround hplain hfree) hfree hdoc (hdepth doc hdoc)

/-! ## Variants -/

/-- A variant that carries nothing is found by its bare name. -/
theorem restores_unitVariant {name : TypeName} {variants : List (String × Payload)}
    (hnodup : (variants.map Prod.fst).Nodup) {variant : String} (h : (variant, .unit) ∈ variants) :
    Restores around (.choice name variants) (.unitVariant variant) := by
  intro column v hv
  cases hv
  rw [decodeField_choice, lookup_of_mem hnodup h]
  rfl

/-- The text of an object starts with its brace. -/
theorem head_text_object (entries : List (List Json.Piece × Document)) :
    (Document.text (.object entries)).toList.head? = some '\x7b' := by
  rw [Document.text, String.toList_ofList]
  cases entries with
  | nil => rw [Document.chars]; rfl
  | cons e rest => rw [Document.chars]; rfl

/-- A variant that carries something is stored as its document, whose text is no name of a variant. -/
theorem restores_variant {name : TypeName} {variants : List (String × Payload)} {variant : String} {d : Datum}
    (h : IsValue around (.choice name variants) (.variant variant d))
    (haround : around.plain = true ∨ (Shape.choice name variants).bare = true)
    (hplain : (Shape.choice name variants).plain = true) (hwhole : (Datum.variant variant d).storedWhole = true) :
    Restores around (.choice name variants) (.variant variant d) := by
  intro column v hv
  obtain ⟨hfree, hdepth⟩ := Datum.storedWhole_compound rfl hwhole
  obtain ⟨doc, hdoc, rfl⟩ := Datum.documentText_ok hv
  have hread : (Cell.mk column (.text doc.text)).document around (.choice name variants) =
      .ok (.variant variant d) :=
    cell_document (readsBack_of_isValue h haround hplain hfree) hfree hdoc (hdepth doc hdoc)
  -- The text is first looked up among the names of the variants, none of which starts with a brace.
  have hunknown : variants.lookup doc.text = none := by
    apply lookup_eq_none_of_not_mem
    intro hmem
    obtain ⟨w, hw, hname⟩ := List.mem_map.1 hmem
    have hbrace : w.1.toList.head? ≠ some '\x7b' := (plain_choice.1 hplain).2.1 w hw
    rw [Datum.document?] at hdoc
    obtain ⟨inner, _, rfl⟩ := Option.map_eq_some_iff.1 hdoc
    apply hbrace
    rw [hname]
    exact head_text_object _
  rw [decodeField_choice, hunknown]
  exact hread

/-! ## All plain types -/

/-- Only what may present itself as nothing is stored as NULL. -/
theorem encodeField_ne_null {s : Shape} {d : Datum} (h : IsValue around s d) (hnull : s.mayBeNull = false)
    (hplain : s.plain = true) : d.encodeField ≠ .ok .null := by
  have htext : ∀ {e : Datum}, e.isCompound = true → e.encodeField ≠ .ok .null := by
    intro e he hv
    rw [Datum.encodeField_compound he] at hv
    obtain ⟨doc, _, htext⟩ := Datum.documentText_ok hv
    cases htext
  induction h with
  | bool | single | double | char | text | bytes =>
      intro hv
      cases hv
  | int hn =>
      intro hv
      obtain ⟨_, m, hm, _⟩ := Datum.encodeField_int hv
      cases hm
  | unit | absent | present => simp [mayBeNull] at hnull
  | box h ih => exact ih hnull hplain
  | transparent h ih => exact ih hnull hplain
  | newtype h ih => exact ih hnull hplain
  | checked h hpass ih => exact ih hnull hplain
  | list | array | tuple | tupleStruct | map | record | adjacentUnit | adjacentContent => exact htext rfl
  | enclosing h ih =>
      cases h
      exact htext rfl
  | @choice _ _ _ variant payload d hvariant h ih =>
      cases payload with
      | unit =>
          intro hv
          cases hv
      | _ => exact htext rfl
  | _ => simp [plain] at hplain

/-- Every value of a plain type is read back from its field, if the column holds it whole. -/
theorem restores_of_isValue {s : Shape} {d : Datum} (h : IsValue around s d)
    (haround : around.plain = true ∨ s.bare = true) (hplain : s.plain = true) (hwhole : d.storedWhole = true) :
    Restores around s d := by
  -- Wrappers and scalars are stored as themselves; every compound goes through its document as a whole.
  induction h with
  | bool b => exact restores_bool b
  | int hn => exact restores_int hn
  | single x =>
      rw [Datum.storedWhole, bne_iff_ne] at hwhole
      exact restores_single hwhole
  | double x => exact restores_double x
  | char c => exact restores_char c
  | text s => exact restores_text s
  | bytes content => exact restores_bytes content
  | absent => exact restores_absent
  | present h ih =>
      rw [plain_option] at hplain
      exact restores_present (encodeField_ne_null h hplain.1 hplain.2) (ih haround hplain.2 hwhole)
  | box h ih => exact ih haround hplain hwhole
  | transparent h ih => exact ih haround hplain hwhole
  | newtype h ih => exact restores_newtype (ih haround hplain hwhole)
  | checked h hpass ih => exact restores_checked hpass (ih haround hplain hwhole)
  | unit => exact restores_document .unit haround hplain rfl rfl hwhole
  | list h => exact restores_document (.list h) haround hplain rfl rfl hwhole
  | array h => exact restores_document (.array h) haround hplain rfl rfl hwhole
  | tuple hlength h => exact restores_document (.tuple hlength h) haround hplain rfl rfl hwhole
  | tupleStruct hlength h => exact restores_document (.tupleStruct hlength h) haround hplain rfl rfl hwhole
  | map hkey hvalue hsorted => exact restores_document (.map hkey hvalue hsorted) haround hplain rfl rfl hwhole
  | record hfields h => exact restores_document (.record hfields h) haround hplain rfl rfl hwhole
  | @enclosing _ _ _ _ e h =>
      have hcompound : e.isCompound = true := by
        cases h
        rfl
      exact restores_document (.enclosing h) haround hplain rfl hcompound hwhole
  | adjacentUnit hvariant => exact restores_document (.adjacentUnit hvariant) haround hplain rfl rfl hwhole
  | adjacentContent hvariant hpayload h =>
      exact restores_document (.adjacentContent hvariant hpayload h) haround hplain rfl rfl hwhole
  | @choice around name variants variant payload d hvariant h ih =>
      have hvalue : IsValue around (.choice name variants) (payload.datum variant d) := .choice hvariant h
      cases payload with
      | unit =>
          exact restores_unitVariant (plain_choice.1 hplain).1 hvariant
      | _ => exact restores_variant hvalue haround hplain hwhole
  | _ => simp [plain] at hplain

end Shape

end RecordTables
