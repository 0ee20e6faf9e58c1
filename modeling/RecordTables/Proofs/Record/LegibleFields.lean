import RecordTables.Proofs.Record.LegibleDocuments
import RecordTables.Proofs.Record.Stored

/-!
# Fields of legible types read

A field of a legible type reads some value from whatever one of its values is stored as.  Floats in documents have to
be finite, and documents no deeper than their reader may enter; a float that stands directly in its field may be
anything.
-/

namespace RecordTables

open RecordTables.Json (Document)
open RecordTables.Json.Number (Readable)

/-- What a column holds so that a document in it may be read. -/
def Datum.storedFinite : Datum → Bool
  | .single _ => true
  | .double _ => true
  | .present d => d.storedFinite
  | .newtype d => d.storedFinite
  | d => d.finite && d.document?.all fun doc => decide (doc.depth ≤ Shape.maxLevels)

/-- A guarded value presents itself as one that is wrapped, or refuses to. -/
theorem Datum.presented_eq (refusal : Datum → Option String) (d : Datum) :
    d.presented refusal = .newtype d ∨ ∃ why, d.presented refusal = .refused why := by
  unfold Datum.presented
  split
  · exact .inr ⟨_, rfl⟩
  · exact .inl rfl

theorem Datum.storedFinite_compound {d : Datum} (h : d.isCompound = true) (hfinite : d.storedFinite = true) :
    d.finite = true ∧ ∀ doc, d.document? = some doc → doc.depth ≤ Shape.maxLevels := by
  have hparts : d.storedFinite = (d.finite && d.document?.all fun doc => decide (doc.depth ≤ Shape.maxLevels)) := by
    cases d with
    | unit | list | map | record | variant => rfl
    | _ => cases h
  rw [hparts, Bool.and_eq_true] at hfinite
  refine ⟨hfinite.1, fun doc hdoc => ?_⟩
  have hall := hfinite.2
  rwa [hdoc, Option.all_some, decide_eq_true_eq] at hall

namespace Shape

/-! ## The class -/

/-- A double, also behind wrappers. -/
def isDouble : Shape → Bool
  | .double => true
  | .option content => content.isDouble
  | .box content => content.isDouble
  | .transparent _ content => content.isDouble
  | .newtype _ content => content.isDouble
  | .checked _ content _ => content.isDouble
  | _ => false

/-- Whether a field reads what it writes.  A double that stands directly in its field keeps all of its bits, so it may
be checked.  A type with a tag among its fields cannot be a field, as no sample of it is ever read. -/
def legibleField (looped : Bool) : Shape → Bool
  | .option content => content.legibleField looped
  | .box content => content.legibleField looped
  | .transparent _ content => content.legibleField looped
  | .newtype _ content => content.legibleField looped
  | .guarded _ content _ => content.legibleField looped
  | .checked _ content _ => content.legibleField looped && content.plain && (content.bare || content.isDouble)
  | .tagged _ _ _ => false
  | s => s.legible looped

/-! ## Fields -/

/-- A field reads some value from what it is stored as. -/
def Fills (around s : Shape) (d : Datum) : Prop :=
  ∀ (column : String) (v : Value), d.encodeField = .ok v → ∃ e, decodeField around ⟨column, v⟩ s = .ok e

variable {around : Shape}

theorem Restores.fills {s : Shape} {d : Datum} (h : Restores around s d) : Fills around s d :=
  fun column v hv => ⟨d, h column v hv⟩

theorem fills_single (x : Single) : Fills around .single (.single x) := by
  intro column v hv
  cases hv
  exact ⟨_, rfl⟩

theorem fills_present {content : Shape} {d : Datum} (h : Fills around content d) :
    Fills around (.option content) (.present d) := by
  intro column v hv
  rw [Datum.encodeField] at hv
  rw [decodeField_option]
  split
  · exact ⟨_, rfl⟩
  · obtain ⟨e, he⟩ := h column v hv
    exact ⟨.present e, by rw [he]; rfl⟩

theorem fills_newtype {content : Shape} {name : TypeName} {d : Datum} (h : Fills around content d) :
    Fills around (.newtype name content) (.newtype d) := by
  intro column v hv
  rw [Datum.encodeField] at hv
  obtain ⟨e, he⟩ := h column v hv
  exact ⟨.newtype e, by rw [decodeField_newtype, he]; rfl⟩

/-- A value that refuses to present itself is not stored. -/
theorem fills_guarded {content : Shape} {name : TypeName} {refusal : Datum → Option String} {d : Datum}
    (h : d.presented refusal = .newtype d → Fills around content d) :
    Fills around (.guarded name content refusal) (d.presented refusal) := by
  intro column v hv
  rcases Datum.presented_eq refusal d with hpresented | ⟨why, hrefused⟩
  · rw [hpresented, Datum.encodeField] at hv
    obtain ⟨e, he⟩ := h hpresented column v hv
    exact ⟨e.presented refusal, by rw [decodeField_guarded, he]; rfl⟩
  · rw [hrefused] at hv
    cases hv

/-- The text of a document that is read is a cell that is read. -/
theorem cell_document_of_reads {s : Shape} {d : Datum} {column : String} {doc : Document} (hread : Reads around s d)
    (hdoc : d.document? = some doc) (hdepth : doc.depth ≤ maxLevels) :
    ∃ e, (Cell.mk column (.text doc.text)).document around s = .ok e := by
  obtain ⟨hspells, hlevels⟩ := hread doc hdoc
  have hparse := Json.parse_text_reread (hspells.mono fun _ hn => hn.printed)
  obtain ⟨e, he⟩ := hlevels maxLevels hdepth
  have hvalue : readIn? around s doc.reread = some e := he
  exact ⟨e, by simp only [Cell.document, bind, Except.bind, hparse, Option.bind_some, hvalue]⟩

/-- A compound is stored as its document. -/
theorem document_of_compound {d : Datum} (hdatum : d.isCompound = true) (hfinite : d.storedFinite = true) {v : Value}
    (hv : d.encodeField = .ok v) :
    ∃ doc, d.document? = some doc ∧ v = .text doc.text ∧ d.finite = true ∧ doc.depth ≤ maxLevels := by
  obtain ⟨hfloats, hdepth⟩ := Datum.storedFinite_compound hdatum hfinite
  rw [Datum.encodeField_compound hdatum] at hv
  obtain ⟨doc, hdoc, rfl⟩ := Datum.documentText_ok hv
  exact ⟨doc, hdoc, rfl, hfloats, hdepth doc hdoc⟩

theorem fills_document {s : Shape} {d : Datum} {looped : Bool} (h : IsValue around s d)
    (haround : looped = true → around.legible true = true) (hlegible : s.legible looped = true)
    (hshape : ∀ cell, decodeField around cell s = cell.document around s) (hdatum : d.isCompound = true)
    (hfinite : d.storedFinite = true) : Fills around s d := by
  intro column v hv
  obtain ⟨doc, hdoc, rfl, hfloats, hdepth⟩ := document_of_compound hdatum hfinite hv
  rw [hshape]
  exact cell_document_of_reads (reads_of_isValue h haround hlegible hfloats) hdoc hdepth

/-- A variant that carries something is stored as its document, whose text is no name of a variant. -/
theorem fills_variant {name : TypeName} {variants : List (String × Payload)} {variant : String} {d : Datum}
    {looped : Bool} (h : IsValue around (.choice name variants) (.variant variant d))
    (haround : looped = true → around.legible true = true)
    (hlegible : (Shape.choice name variants).legible looped = true)
    (hfinite : (Datum.variant variant d).storedFinite = true) :
    Fills around (.choice name variants) (.variant variant d) := by
  intro column v hv
  obtain ⟨doc, hdoc, rfl, hfloats, hdepth⟩ := document_of_compound rfl hfinite hv
  -- The text is first looked up among the names of the variants, none of which starts with a brace.
  have hunknown : variants.lookup doc.text = none := by
    apply lookup_eq_none_of_not_mem
    intro hmem
    obtain ⟨w, hw, hname⟩ := List.mem_map.1 hmem
    rw [Datum.document?] at hdoc
    obtain ⟨inner, _, rfl⟩ := Option.map_eq_some_iff.1 hdoc
    apply (legible_choice.1 hlegible).2.1 w hw
    rw [hname]
    exact head_text_object _
  rw [decodeField_choice, hunknown]
  exact cell_document_of_reads (reads_of_isValue h haround hlegible hfloats) hdoc hdepth

/-- A value of the most general type is stored as something that reads as one. -/
theorem fills_anything {name : TypeName} {d : Datum} (h : IsValue around (.anything name) d) :
    Fills around (.anything name) d := by
  intro column v hv
  obtain ⟨e, he⟩ : ∃ e, v.general? = some e := by
    cases h with
    | anyNull | anyBool | anyDouble | anyText =>
        cases hv
        exact ⟨_, rfl⟩
    | anyInt hn =>
        obtain ⟨_, m, rfl, _⟩ := Datum.encodeField_int hv
        exact ⟨_, rfl⟩
    | anyList | anyMap =>
        rw [Datum.encodeField_compound rfl] at hv
        obtain ⟨doc, _, rfl⟩ := Datum.documentText_ok hv
        exact ⟨_, rfl⟩
  exact ⟨e, by simp only [decodeField, he]⟩

theorem fills_untagged {name : TypeName} {alternatives : List Scalar} {d : Datum}
    (h : IsValue around (.untagged name alternatives) d) : Fills around (.untagged name alternatives) d := by
  intro column v hv
  have hsome : ∃ scalar ∈ alternatives, (scalar.ofValue? v).isSome = true := by
    cases h with
    | untaggedInt hscalar hn =>
        obtain ⟨_, m, rfl, _⟩ := Datum.encodeField_int hv
        exact ⟨_, hscalar, rfl⟩
    | untaggedDouble hscalar x =>
        cases hv
        exact ⟨_, hscalar, rfl⟩
    | untaggedText hscalar s =>
        cases hv
        exact ⟨_, hscalar, rfl⟩
  obtain ⟨e, he⟩ := Option.isSome_iff_exists.1 (List.findSome?_isSome_iff.2 hsome)
  exact ⟨e, by simp only [decodeField, he]⟩

/-- Whatever has no floats is whole. -/
theorem storedWhole_of_floatFree {d : Datum} (hfree : d.floatFree = true) (hfinite : d.storedFinite = true) :
    d.storedWhole = true := by
  induction d using Datum.storedWhole.induct with
  | case1 x => cases hfree
  | case2 x => rfl
  | case3 d ih => exact ih hfree hfinite
  | case4 d ih => exact ih hfree hfinite
  | case5 d hsingle hdouble hpresent hnewtype =>
      rw [Datum.storedFinite, Bool.and_eq_true] at hfinite
      · rw [Datum.storedWhole, Bool.and_eq_true]
        · exact ⟨hfree, hfinite.2⟩
        all_goals assumption
      all_goals assumption

/-- A double that stands in its field is read back, whatever bits it has. -/
theorem restores_of_isDouble {s : Shape} {d : Datum} (h : IsValue around s d) (hplain : s.plain = true)
    (hdouble : s.isDouble = true) : Restores around s d := by
  induction h with
  | double x => exact restores_double x
  | absent => exact restores_absent
  | present h ih =>
      rw [plain_option] at hplain
      exact restores_present (encodeField_ne_null h hplain.1 hplain.2) (ih hplain.2 hdouble)
  | box h ih => exact ih hplain hdouble
  | transparent h ih => exact ih hplain hdouble
  | newtype h ih => exact restores_newtype (ih hplain hdouble)
  | checked h hpass ih => exact restores_checked hpass (ih hplain hdouble)
  | _ => simp [isDouble] at hdouble

/-- What a check has let pass is read as it was, so that the check lets it pass again. -/
theorem restores_of_exact {s : Shape} {d : Datum} (h : IsValue around s d) (hplain : s.plain = true)
    (hexact : s.bare = true ∨ s.isDouble = true) (hfinite : d.storedFinite = true) : Restores around s d := by
  rcases hexact with hbare | hdouble
  · exact restores_of_isValue h (.inr hbare) hplain (storedWhole_of_floatFree (floatFree_of_bare h hplain hbare) hfinite)
  · exact restores_of_isDouble h hplain hdouble

theorem legibleField_checked {name : TypeName} {content : Shape} {refusal : Datum → Option String} {looped : Bool} :
    (checked name content refusal).legibleField looped = true ↔
      content.legibleField looped = true ∧ content.plain = true ∧ (content.bare = true ∨ content.isDouble = true) := by
  rw [legibleField, Bool.and_eq_true, Bool.and_eq_true, Bool.or_eq_true, and_assoc]

/-- A field of a legible type reads something from whatever it is stored as. -/
theorem fills_of_legible {s : Shape} {d : Datum} {looped : Bool} (h : IsValue around s d)
    (haround : looped = true → around.legible true = true) (hlegible : s.legibleField looped = true)
    (hfinite : d.storedFinite = true) : Fills around s d := by
  -- Wrappers and scalars are stored as themselves; every compound goes through its document as a whole.
  induction h with
  | bool b => exact (restores_bool b).fills
  | int hn => exact (restores_int hn).fills
  | single x => exact fills_single x
  | double x => exact (restores_double x).fills
  | char c => exact (restores_char c).fills
  | text s => exact (restores_text s).fills
  | label s =>
      intro column v hv
      cases hv
      exact ⟨.text s, rfl⟩
  | bytes content => exact (restores_bytes content).fills
  | ignored => exact fun column v hv => ⟨.unit, rfl⟩
  | absent => exact restores_absent.fills
  | present h ih => exact fills_present (ih haround hlegible hfinite)
  | box h ih => exact ih haround hlegible hfinite
  | transparent h ih => exact ih haround hlegible hfinite
  | newtype h ih => exact fills_newtype (ih haround hlegible hfinite)
  | checked h hpass ih =>
      obtain ⟨_, hplain, hexact⟩ := legibleField_checked.1 hlegible
      exact (restores_checked hpass (restores_of_exact h hplain hexact hfinite)).fills
  | @guarded around content name refusal d h ih =>
      refine fills_guarded fun hpresented => ih haround hlegible ?_
      rwa [hpresented] at hfinite
  | unit => exact fills_document .unit haround hlegible (fun _ => rfl) rfl hfinite
  | list h => exact fills_document (.list h) haround hlegible (fun _ => rfl) rfl hfinite
  | array h => exact fills_document (.array h) haround hlegible (fun _ => rfl) rfl hfinite
  | tuple hlength h => exact fills_document (.tuple hlength h) haround hlegible (fun _ => rfl) rfl hfinite
  | tupleStruct hlength h => exact fills_document (.tupleStruct hlength h) haround hlegible (fun _ => rfl) rfl hfinite
  | map hkey hvalue hsorted =>
      exact fills_document (.map hkey hvalue hsorted) haround hlegible (fun _ => rfl) rfl hfinite
  | record hfields h => exact fills_document (.record hfields h) haround hlegible (fun _ => rfl) rfl hfinite
  | flattened hfields h => exact fills_document (.flattened hfields h) haround hlegible (fun _ => rfl) rfl hfinite
  | @enclosing _ _ _ _ e h =>
      have hcompound : e.isCompound = true := by
        cases h
        rfl
      exact fills_document (.enclosing h) haround hlegible (fun _ => rfl) hcompound hfinite
  | adjacentUnit hvariant => exact fills_document (.adjacentUnit hvariant) haround hlegible (fun _ => rfl) rfl hfinite
  | adjacentContent hvariant hpayload h =>
      exact fills_document (.adjacentContent hvariant hpayload h) haround hlegible (fun _ => rfl) rfl hfinite
  | @choice around name variants variant payload d hvariant h =>
      have hvalue : IsValue around (.choice name variants) (payload.datum variant d) := .choice hvariant h
      cases payload with
      | unit => exact (restores_unitVariant (legible_choice.1 hlegible).1 hvariant).fills
      | _ => exact fills_variant hvalue haround hlegible hfinite
  | untaggedInt hscalar hn => exact fills_untagged (.untaggedInt hscalar hn)
  | untaggedDouble hscalar x => exact fills_untagged (.untaggedDouble hscalar x)
  | untaggedText hscalar s => exact fills_untagged (.untaggedText hscalar s)
  | anyNull => exact fills_anything .anyNull
  | anyBool b => exact fills_anything (.anyBool b)
  | anyInt hn => exact fills_anything (.anyInt hn)
  | anyDouble hx => exact fills_anything (.anyDouble hx)
  | anyText s => exact fills_anything (.anyText s)
  | anyList h => exact fills_anything (.anyList h)
  | anyMap hkey hvalue hsorted => exact fills_anything (.anyMap hkey hvalue hsorted)
  -- Pairs are no field that reads what it writes, and a type with a tag among its fields is none at all.
  | _ => cases hlegible

end Shape

end RecordTables
