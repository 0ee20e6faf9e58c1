import RecordTables.Proofs.Record.Legible
import RecordTables.Proofs.Record.Levels
import RecordTables.Proofs.Record.Scalars

/-!
# Documents of plain types read back

The document of a value of a plain type reads as the value, if the value has no floats and the reader may enter as
many levels as the document has.  There is one lemma for each kind of type; `readsBack_of_isValue` puts them together
by induction on the value.
-/

namespace RecordTables.Shape

open RecordTables.Json (Document Piece itemsDepth entriesDepth depth_le_itemsDepth depth_le_entriesDepth)
open RecordTables.Datum (documents_cons entryDocuments_cons fieldDocuments_cons)

/-- The document of a value reads as the value wherever its levels may be entered. -/
def ReadsBack (around s : Shape) (d : Datum) : Prop :=
  ∀ (levels : Nat) (doc : Document), d.document? = some doc → doc.depth ≤ levels →
    readLevels levels around s doc = some d

variable {around : Shape}

/-! ## Scalars -/

theorem readsBack_bool (b : Bool) : ReadsBack around .bool (.bool b) := by
  intro levels doc hdoc _
  cases hdoc
  exact readLevels_bool b

theorem readsBack_int {type : IntType} {n : Int} (hn : type.holds n = true) :
    ReadsBack around (.int type) (.int type n) := by
  intro levels doc hdoc _
  cases hdoc
  rw [readLevels_int, IntType.read_ofInt hn]
  rfl

theorem readsBack_char (c : Char) : ReadsBack around .char (.char c) := by
  intro levels doc hdoc _
  cases hdoc
  have hchars : Piece.chars? [Piece.ofChar c] = some [c] := Json.chars_map_ofChar [c]
  rw [readLevels_char, hchars]
  rfl

theorem readsBack_text (s : String) : ReadsBack around .text (.text s) := by
  intro levels doc hdoc _
  cases hdoc
  rw [readLevels_text, Json.text_ofString]
  rfl

theorem readsBack_bytes {name : TypeName} (content : ByteArray) :
    ReadsBack around (.bytes name) (.bytes content) := by
  intro levels doc hdoc hdepth
  cases hdoc
  cases levels with
  | zero => simp [Document.depth] at hdepth
  | succ levels =>
      rw [readLevels_bytes, byteItems_map, Option.map_some, toList_toArray]

theorem readsBack_unit {name : TypeName} : ReadsBack around (.unit name) .unit := by
  intro levels doc hdoc _
  cases hdoc
  exact readLevels_unit

/-! ## Wrappers -/

theorem readsBack_absent {content : Shape} : ReadsBack around (.option content) .absent := by
  intro levels doc hdoc _
  cases hdoc
  exact readLevels_null

/-- An option is told from its absence, as its content is never null. -/
theorem readsBack_present {content : Shape} {d : Datum} (hnull : d.document? ≠ some .null)
    (h : ReadsBack around content d) : ReadsBack around (.option content) (.present d) := by
  intro levels doc hdoc hdepth
  rw [Datum.document?] at hdoc
  have hdoc' : doc ≠ .null := by
    rintro rfl
    exact hnull hdoc
  rw [readLevels_option hdoc', h levels doc hdoc hdepth]
  rfl

theorem readsBack_box {content : Shape} {d : Datum} (h : ReadsBack around content d) :
    ReadsBack around (.box content) d := by
  intro levels doc hdoc hdepth
  rw [readLevels_box, h levels doc hdoc hdepth]

theorem readsBack_transparent {name : TypeName} {content : Shape} {d : Datum} (h : ReadsBack around content d) :
    ReadsBack around (.transparent name content) d := by
  intro levels doc hdoc hdepth
  rw [readLevels_transparent, h levels doc hdoc hdepth]

theorem readsBack_newtype {name : TypeName} {content : Shape} {d : Datum} (h : ReadsBack around content d) :
    ReadsBack around (.newtype name content) (.newtype d) := by
  intro levels doc hdoc hdepth
  rw [Datum.document?] at hdoc
  rw [readLevels_newtype, h levels doc hdoc hdepth]
  rfl

theorem readsBack_checked {name : TypeName} {content : Shape} {refusal : Datum → Option String} {d : Datum}
    (hpass : refusal d = none) (h : ReadsBack around content d) :
    ReadsBack around (.checked name content refusal) d := by
  intro levels doc hdoc hdepth
  rw [readLevels_checked, h levels doc hdoc hdepth]
  simp [hpass]

/-! ## Lists and tuples -/

/-- Items that read back one by one read back together. -/
theorem mapM_documents {read : Document → Option Datum} {items : List Datum} {docs : List Document}
    (hdocs : Datum.documents? items = some docs)
    (h : ∀ d ∈ items, ∀ doc ∈ docs, d.document? = some doc → read doc = some d) : docs.mapM read = some items := by
  induction items generalizing docs with
  | nil =>
      cases hdocs
      rfl
  | cons d items ih =>
      obtain ⟨doc, docs', rfl, hdoc, hrest⟩ := documents_cons hdocs
      have hfirst := h d (List.mem_cons_self ..) doc (List.mem_cons_self ..) hdoc
      have hothers := ih hrest fun e he doc' hdoc' =>
        h e (List.mem_cons_of_mem _ he) doc' (List.mem_cons_of_mem _ hdoc')
      rw [List.mapM_cons, hfirst, hothers]
      rfl

theorem length_documents {items : List Datum} {docs : List Document} (h : Datum.documents? items = some docs) :
    docs.length = items.length := by
  induction items generalizing docs with
  | nil =>
      cases h
      rfl
  | cons d items ih =>
      obtain ⟨doc, docs', rfl, _, hrest⟩ := documents_cons h
      rw [List.length_cons, List.length_cons, ih hrest]

/-- The same for items that each have a shape of their own. -/
theorem mapM_zip_documents {read : Shape → Document → Option Datum} {shapes : List Shape} {items : List Datum}
    {docs : List Document} (hdocs : Datum.documents? items = some docs) (hlength : items.length = shapes.length)
    (h : ∀ p ∈ shapes.zip items, ∀ doc ∈ docs, p.2.document? = some doc → read p.1 doc = some p.2) :
    ((shapes.zip docs).mapM fun (s, d) => read s d) = some items := by
  induction items generalizing shapes docs with
  | nil =>
      cases hdocs
      rw [List.zip_nil_right]
      rfl
  | cons d items ih =>
      obtain ⟨doc, docs', rfl, hdoc, hrest⟩ := documents_cons hdocs
      cases shapes with
      | nil => simp at hlength
      | cons s shapes =>
          rw [List.length_cons, List.length_cons, Nat.add_right_cancel_iff] at hlength
          have hfirst := h (s, d) (by simp) doc (List.mem_cons_self ..) hdoc
          have hothers := ih hrest hlength fun p hp doc' hdoc' =>
            h p (by simp [hp]) doc' (List.mem_cons_of_mem _ hdoc')
          rw [List.zip_cons_cons, List.mapM_cons, hothers]
          simp only [hfirst]
          rfl

/-- A compound has the document of its parts, and its reader enters one level for the parts. -/
theorem readsBack_of_parts {α : Type} {s : Shape} {d : Datum} (parts : Option α) (whole : α → Document)
    (partsDepth : α → Nat) (hdocument : d.document? = parts.map whole)
    (hwhole : ∀ x, (whole x).depth = partsDepth x + 1)
    (h : ∀ levels x, parts = some x → partsDepth x ≤ levels →
      readLevels (levels + 1) around s (whole x) = some d) : ReadsBack around s d := by
  intro levels doc hdoc hdepth
  rw [hdocument] at hdoc
  obtain ⟨x, hx, rfl⟩ := Option.map_eq_some_iff.1 hdoc
  rw [hwhole] at hdepth
  cases levels with
  | zero => omega
  | succ levels => exact h levels x hx (by omega)

/-- The items of a list, all read by one shape. -/
theorem mapM_list {levels : Nat} {item : Shape} {items : List Datum} {docs : List Document}
    (hdocs : Datum.documents? items = some docs) (hdepth : itemsDepth docs ≤ levels)
    (h : ∀ d ∈ items, ReadsBack around item d) : docs.mapM (readLevels levels around item) = some items :=
  mapM_documents hdocs fun d hd doc hdoc hd' =>
    h d hd levels doc hd' (Nat.le_trans (depth_le_itemsDepth doc hdoc) hdepth)

theorem readsBack_list {item : Shape} {items : List Datum} (h : ∀ d ∈ items, ReadsBack around item d) :
    ReadsBack around (.list item) (.list items) := by
  apply readsBack_of_parts (Datum.documents? items) .array itemsDepth rfl (fun _ => rfl)
  intro levels docs hdocs hdepth
  rw [readLevels_list, mapM_list hdocs hdepth h]
  rfl

theorem readsBack_array {item : Shape} {items : List Datum} (h : ∀ d ∈ items, ReadsBack around item d) :
    ReadsBack around (.array item items.length) (.list items) := by
  apply readsBack_of_parts (Datum.documents? items) .array itemsDepth rfl (fun _ => rfl)
  intro levels docs hdocs hdepth
  rw [readLevels_array, if_pos (length_documents hdocs), mapM_list hdocs hdepth h]
  rfl

/-- The items of a tuple, each read by its shape. -/
theorem mapM_tuple {levels : Nat} {shapes : List Shape} {items : List Datum} {docs : List Document}
    (hdocs : Datum.documents? items = some docs) (hlength : items.length = shapes.length)
    (hdepth : itemsDepth docs ≤ levels) (h : ∀ p ∈ shapes.zip items, ReadsBack around p.1 p.2) :
    ((shapes.zip docs).mapM fun (s, d) => readLevels levels around s d) = some items :=
  mapM_zip_documents hdocs hlength fun p hp doc hdoc hd =>
    h p hp levels doc hd (Nat.le_trans (depth_le_itemsDepth doc hdoc) hdepth)

theorem readsBack_tuple {shapes : List Shape} {items : List Datum} (hlength : items.length = shapes.length)
    (h : ∀ p ∈ shapes.zip items, ReadsBack around p.1 p.2) : ReadsBack around (.tuple shapes) (.list items) := by
  apply readsBack_of_parts (Datum.documents? items) .array itemsDepth rfl (fun _ => rfl)
  intro levels docs hdocs hdepth
  have hitems := mapM_tuple hdocs hlength hdepth h
  rw [readLevels_tuple, if_pos ((length_documents hdocs).trans hlength), hitems]
  rfl

theorem readsBack_tupleStruct {name : TypeName} {shapes : List Shape} {items : List Datum}
    (hlength : items.length = shapes.length) (h : ∀ p ∈ shapes.zip items, ReadsBack around p.1 p.2) :
    ReadsBack around (.tupleStruct name shapes) (.list items) := by
  apply readsBack_of_parts (Datum.documents? items) .array itemsDepth rfl (fun _ => rfl)
  intro levels docs hdocs hdepth
  have hitems := mapM_tuple hdocs hlength hdepth h
  rw [readLevels_tupleStruct, if_pos ((length_documents hdocs).trans hlength), hitems]
  rfl

/-! ## Maps -/

/-- The key of a plain type is read from its text. -/
theorem readKey_keyText {key : Shape} {d : Datum} {k : String} (hplain : key.plainKey = true)
    (h : IsValue around key d) (hk : d.keyText? = some k) : readKey? (Piece.ofString k) key = some d := by
  induction h generalizing k with
  | text s =>
      obtain rfl := Option.some.inj hk
      simp [readKey?]
  | int hn =>
      obtain rfl := Option.some.inj hk
      simp [readKey?, keyNumber_integerText, IntType.read_ofInt hn]
  | box h ih =>
      rw [plainKey] at hplain
      rw [readKey?, ih hplain hk]
  | transparent h ih =>
      rw [plainKey] at hplain
      rw [readKey?, ih hplain hk]
  | newtype h ih =>
      rw [plainKey] at hplain
      rw [Datum.keyText?] at hk
      rw [readKey?, ih hplain hk]
      rfl
  | _ => simp [plainKey] at hplain

theorem mapM_entryDocuments {readKey : List Piece → Option Datum} {read : Document → Option Datum}
    {entries : List (Datum × Datum)} {docs : List (List Piece × Document)}
    (hdocs : Datum.entryDocuments? entries = some docs)
    (hkey : ∀ e ∈ entries, ∀ k, e.1.keyText? = some k → readKey (Piece.ofString k) = some e.1)
    (h : ∀ e ∈ entries, ∀ doc ∈ docs, e.2.document? = some doc.2 → read doc.2 = some e.2) :
    (docs.mapM fun (key, d) => do
      let k ← readKey key
      let v ← read d
      some (k, v)) = some entries := by
  induction entries generalizing docs with
  | nil =>
      cases hdocs
      rfl
  | cons e entries ih =>
      obtain ⟨key, value⟩ := e
      obtain ⟨k, doc, docs', rfl, hk, hdoc, hrest⟩ := entryDocuments_cons hdocs
      have hfirst := hkey (key, value) (List.mem_cons_self ..) k hk
      have hvalue := h (key, value) (List.mem_cons_self ..) (Piece.ofString k, doc) (List.mem_cons_self ..) hdoc
      have hothers := ih hrest (fun e he => hkey e (List.mem_cons_of_mem _ he)) fun e he doc' hdoc' =>
        h e (List.mem_cons_of_mem _ he) doc' (List.mem_cons_of_mem _ hdoc')
      rw [List.mapM_cons, hothers]
      simp only [hfirst, hvalue]
      rfl

theorem readsBack_map {key value : Shape} {entries : List (Datum × Datum)} (hplain : key.plainKey = true)
    (hkey : ∀ e ∈ entries, IsValue around key e.1) (h : ∀ e ∈ entries, ReadsBack around value e.2)
    (hsorted : entries.Pairwise fun a b => a.1.keyBefore b.1 = true) :
    ReadsBack around (.map key value) (.map entries) := by
  apply readsBack_of_parts (Datum.entryDocuments? entries) .object entriesDepth rfl (fun _ => rfl)
  intro levels docs hdocs hdepth
  have hentries := @mapM_entryDocuments (fun k => readKey? k key) (readLevels levels around value) entries docs
    hdocs (fun e he k hk => readKey_keyText hplain (hkey e he) hk)
    (fun e he doc hdoc hd => h e he levels doc.2 hd (Nat.le_trans (depth_le_entriesDepth doc hdoc) hdepth))
  rw [readLevels_map, readEntries?, hentries]
  -- The reader puts the keys in order, and they were written in order.
  exact congrArg some (Datum.mapOf_of_sorted hsorted)

/-! ## Records -/

theorem readsBack_record {name : TypeName} {strict : Bool} {fields : List (Field × Shape)}
    {values : List (Field × Datum)} (hplain : (Shape.record name strict fields).plain = true)
    (hfields : values.map Prod.fst = fields.map Prod.fst)
    (h : ∀ p ∈ fields.zip values, ReadsBack (.record name strict fields) p.1.2 p.2.2) :
    ReadsBack around (.record name strict fields) (.record (presentedFields values)) := by
  rw [plain_record] at hplain
  apply readsBack_of_parts (Datum.fieldDocuments? (presentedFields values)) .object entriesDepth rfl (fun _ => rfl)
  intro levels docs hdocs hdepth
  have hread := @readRecord_documents (readLevels levels (.record name strict fields)) strict fields values docs
    hplain.2 hplain.1 hfields hdocs fun p hp doc hdoc hd =>
      h p hp levels doc.2 hd (Nat.le_trans (depth_le_entriesDepth doc hdoc) hdepth)
  rw [readLevels_record, hread]

/-- A recursive type reads the record around it. -/
theorem readsBack_enclosing {name other : TypeName} {strict : Bool} {fields : List (Field × Shape)} {d : Datum}
    (h : ReadsBack (.record name strict fields) (.record name strict fields) d) :
    ReadsBack (.record name strict fields) (.enclosing other) d := by
  intro levels doc hdoc hdepth
  rw [readLevels_enclosing]
  exact h levels doc hdoc hdepth

/-! ## Variants -/

/-- A variant that carries nothing is a string. -/
theorem readsBack_unitVariant {name : TypeName} {variants : List (String × Payload)}
    (hnodup : (variants.map Prod.fst).Nodup) {variant : String} (h : (variant, .unit) ∈ variants) :
    ReadsBack around (.choice name variants) (.unitVariant variant) := by
  intro levels doc hdoc _
  cases hdoc
  rw [readLevels_bareVariant]
  simp [readBareVariant?, lookup_of_mem hnodup h]

/-- A variant that carries something is an object of one entry. -/
theorem readsBack_variant {name : TypeName} {variants : List (String × Payload)}
    (hnodup : (variants.map Prod.fst).Nodup) {variant : String} {payload : Payload} {d : Datum}
    (hvariant : (variant, payload) ∈ variants) (hpayload : payload ≠ .unit)
    (h : ReadsBack around (payload.shape name) d) :
    ReadsBack around (.choice name variants) (.variant variant d) := by
  have hdatum : payload.datum variant d = .variant variant d := by
    cases payload with
    | unit => exact absurd rfl hpayload
    | _ => rfl
  apply readsBack_of_parts d.document? (fun inner => .object [(Piece.ofString variant, inner)]) Document.depth rfl
  · intro inner
    show max inner.depth 0 + 1 = inner.depth + 1
    omega
  · intro levels inner hinner hdepth
    have hread := h levels inner hinner hdepth
    rw [readLevels_choice]
    simp [readChoice?, lookup_of_mem hnodup hvariant, hread, hdatum]

/-- The names of variants, as variants that carry nothing, are as distinct as the variants. -/
theorem nodup_bareVariants {variants : List (String × Payload)} (hnodup : (variants.map Prod.fst).Nodup) :
    ((bareVariants variants).map Prod.fst).Nodup := by
  have hnames : (bareVariants variants).map Prod.fst = variants.map Prod.fst := by
    simp [bareVariants, Function.comp_def]
  rw [hnames]
  exact hnodup

theorem mem_bareVariants {variants : List (String × Payload)} {variant : String} {payload : Payload}
    (h : (variant, payload) ∈ variants) : (variant, .unit) ∈ bareVariants variants :=
  List.mem_map.2 ⟨(variant, payload), h, rfl⟩

/-- The tag of an adjacently tagged variant. -/
theorem readTag_variant {name : TypeName} {variants : List (String × Payload)}
    (hnodup : (variants.map Prod.fst).Nodup) {variant : String} {payload : Payload}
    (hvariant : (variant, payload) ∈ variants) (levels : Nat) :
    readLevels levels around (.choice name (bareVariants variants)) (.string (Piece.ofString variant)) =
      some (.unitVariant variant) := by
  exact readsBack_unitVariant (nodup_bareVariants hnodup) (mem_bareVariants hvariant) levels _ rfl (Nat.zero_le _)

theorem adjacentEntries_tag {tag content : String} (t : Document) :
    adjacentEntries tag content [(Piece.ofString tag, t)] none none = some (some t, none) := by
  show (Piece.text? (Piece.ofString tag)).bind _ = _
  rw [Json.text_ofString, Option.bind_some, if_pos rfl]
  rfl

theorem adjacentEntries_both {tag content : String} (htag : tag ≠ content) (t c : Document) :
    adjacentEntries tag content [(Piece.ofString tag, t), (Piece.ofString content, c)] none none =
      some (some t, some c) := by
  show (Piece.text? (Piece.ofString tag)).bind _ = _
  rw [Json.text_ofString, Option.bind_some, if_pos rfl]
  show (Piece.text? (Piece.ofString content)).bind _ = _
  rw [Json.text_ofString, Option.bind_some, if_neg htag.symm, if_pos rfl]
  rfl

theorem readsBack_adjacentUnit {name : TypeName} {tag content : String} {variants : List (String × Payload)}
    (hnodup : (variants.map Prod.fst).Nodup) {variant : String} (hvariant : (variant, .unit) ∈ variants) :
    ReadsBack around (.adjacent name tag content variants) (adjacentRecord tag content variant none) := by
  intro levels doc hdoc hdepth
  have hdoc' : doc = .object [(Piece.ofString tag, .string (Piece.ofString variant))] :=
    (Option.some.inj hdoc).symm
  subst hdoc'
  cases levels with
  | zero => simp [Document.depth] at hdepth
  | succ levels =>
      have htag := @readTag_variant around name variants hnodup variant .unit hvariant levels
      rw [readLevels_adjacent]
      simp [readAdjacent?, adjacentEntries_tag, htag, lookup_of_mem hnodup hvariant, readContent?]

theorem readsBack_adjacentContent {name : TypeName} {tag content : String} {variants : List (String × Payload)}
    (htag : tag ≠ content) (hnodup : (variants.map Prod.fst).Nodup) {variant : String} {payload : Payload} {d : Datum}
    (hvariant : (variant, payload) ∈ variants) (hpayload : payload ≠ .unit)
    (h : ReadsBack around (payload.shape name) d) :
    ReadsBack around (.adjacent name tag content variants) (adjacentRecord tag content variant (some d)) := by
  intro levels doc hdoc hdepth
  -- The record has two fields, so its document has two entries.
  obtain ⟨inner, hinner, rfl⟩ : ∃ inner, d.document? = some inner ∧ doc =
      .object [(Piece.ofString tag, .string (Piece.ofString variant)), (Piece.ofString content, inner)] := by
    rw [adjacentRecord, Datum.document?] at hdoc
    obtain ⟨docs, hdocs, rfl⟩ := Option.map_eq_some_iff.1 hdoc
    obtain ⟨_, docs', rfl, htagged, hrest⟩ := fieldDocuments_cons hdocs
    obtain ⟨inner, docs'', rfl, hinner, hnil⟩ := fieldDocuments_cons hrest
    cases htagged
    cases hnil
    exact ⟨inner, hinner, rfl⟩
  rw [Document.depth, Json.entriesDepth, Json.entriesDepth, Json.entriesDepth] at hdepth
  cases levels with
  | zero => simp at hdepth
  | succ levels =>
      have hread := h levels inner hinner (by omega)
      have hname := @readTag_variant around name variants hnodup variant payload hvariant levels
      have hcontent : readContent? (readLevels levels around) name payload (some inner) = some (some d) := by
        cases payload with
        | unit => exact absurd rfl hpayload
        | _ => simp [readContent?, hread]
      rw [readLevels_adjacent]
      simp [readAdjacent?, adjacentEntries_both htag, hname, lookup_of_mem hnodup hvariant, hcontent]

/-! ## All plain types -/

/-- Only what may present itself as nothing has the document null. -/
theorem document_ne_null {s : Shape} {d : Datum} (h : IsValue around s d) (hnull : s.mayBeNull = false)
    (hplain : s.plain = true) (hfree : d.floatFree = true) : d.document? ≠ some .null := by
  have hmapped : ∀ {α : Type} (docs : Option α) (f : α → Document), (∀ x, f x ≠ .null) → docs.map f ≠ some .null := by
    intro α docs f hf hmap
    obtain ⟨x, _, hx⟩ := Option.map_eq_some_iff.1 hmap
    exact hf x hx
  induction h with
  | bool | int | char | text | bytes => simp [Datum.document?]
  | single | double => simp [Datum.floatFree] at hfree
  | unit | absent | present => simp [mayBeNull] at hnull
  | box h ih => exact ih hnull hplain hfree
  | transparent h ih => exact ih hnull hplain hfree
  | newtype h ih =>
      rw [Datum.document?]
      exact ih hnull hplain hfree
  | checked h hpass ih => exact ih hnull hplain hfree
  | list | array | tuple | tupleStruct | map | record | adjacentContent =>
      exact hmapped _ _ fun _ => by simp
  | enclosing h ih =>
      cases h
      exact hmapped _ _ fun _ => by simp
  | @choice _ _ _ variant payload d hvariant h ih =>
      cases payload with
      | unit => simp [Payload.datum, Datum.document?]
      | _ => exact hmapped _ _ fun _ => by simp
  | adjacentUnit hvariant => simp [adjacentRecord, Datum.document?, Datum.fieldDocuments?]
  | _ => simp [plain] at hplain

/-- Every value of a plain type without floats reads back from its document.  The record around it is plain, too,
as far as the type mentions it: that is what a recursive type unrolls to. -/
theorem readsBack_of_isValue {s : Shape} {d : Datum} (h : IsValue around s d) (haround : around.plain = true ∨ s.bare = true)
    (hplain : s.plain = true) (hfree : d.floatFree = true) : ReadsBack around s d := by
  -- The induction is on the typing of the value and not on its type, since a recursive type names the record
  -- around it, which is no part of it.
  induction h with
  | bool b => exact readsBack_bool b
  | int hn => exact readsBack_int hn
  | single | double => simp [Datum.floatFree] at hfree
  | char c => exact readsBack_char c
  | text s => exact readsBack_text s
  | bytes content => exact readsBack_bytes content
  | unit => exact readsBack_unit
  | absent => exact readsBack_absent
  | present h ih =>
      rw [plain_option] at hplain
      rw [Datum.floatFree] at hfree
      exact readsBack_present (document_ne_null h hplain.1 hplain.2 hfree) (ih haround hplain.2 hfree)
  | box h ih => exact readsBack_box (ih haround hplain hfree)
  | transparent h ih => exact readsBack_transparent (ih haround hplain hfree)
  | newtype h ih => exact readsBack_newtype (ih haround hplain hfree)
  | checked h hpass ih => exact readsBack_checked hpass (ih haround hplain hfree)
  | list h ih =>
      rw [Datum.floatFree] at hfree
      exact readsBack_list fun d hd => ih d hd haround hplain (Datum.floatFree_of_mem_items hfree d hd)
  | array h ih =>
      rw [Datum.floatFree] at hfree
      exact readsBack_array fun d hd => ih d hd haround hplain (Datum.floatFree_of_mem_items hfree d hd)
  | tuple hlength h ih =>
      rw [plain] at hplain
      rw [Datum.floatFree] at hfree
      refine readsBack_tuple hlength fun p hp => ih p hp ?_ ?_ ?_
      · exact haround.imp_right fun hbare => bare_of_mem_items hbare p.1 (List.of_mem_zip hp).1
      · exact plain_of_mem_items hplain p.1 (List.of_mem_zip hp).1
      · exact Datum.floatFree_of_mem_items hfree p.2 (List.of_mem_zip hp).2
  | tupleStruct hlength h ih =>
      rw [plain] at hplain
      rw [Datum.floatFree] at hfree
      refine readsBack_tupleStruct hlength fun p hp => ih p hp ?_ ?_ ?_
      · exact haround.imp_right fun hbare => bare_of_mem_items hbare p.1 (List.of_mem_zip hp).1
      · exact plain_of_mem_items hplain p.1 (List.of_mem_zip hp).1
      · exact Datum.floatFree_of_mem_items hfree p.2 (List.of_mem_zip hp).2
  | map hkey hvalue hsorted ihkey ihvalue =>
      rw [plain_map] at hplain
      rw [Datum.floatFree] at hfree
      exact readsBack_map hplain.1 hkey
        (fun e he => ihvalue e he haround hplain.2 (Datum.floatFree_of_mem_entries hfree e he).2) hsorted
  | @record around name strict fields values hfields h ih =>
      refine readsBack_record hplain hfields fun p hp => ?_
      obtain ⟨hfield, hvalue, hsame⟩ := of_mem_zip hfields hp
      obtain ⟨hplainField, hplainShape⟩ := plain_of_mem_fields (plain_record.1 hplain).2 p.1 hfield
      refine ih p hp (.inl hplain) hplainShape ?_
      -- What is not presented is not in the record, but then it is an absence.
      by_cases hpresents : p.1.1.presents p.2.2 = true
      · have hmem : (p.1.1.name, p.2.2) ∈ presentedFields values :=
          mem_presentedFields.2 ⟨p.1.1, hsame ▸ hvalue, hpresents, rfl⟩
        rw [Datum.floatFree] at hfree
        exact Datum.floatFree_of_mem_fields hfree _ hmem
      · obtain ⟨habsent, _⟩ := Field.absent_of_not_presents hplainField (by simpa using hpresents)
        rw [habsent]
        rfl
  | enclosing h ih =>
      have hrecord := haround.resolve_right (by simp [bare])
      exact readsBack_enclosing (ih (.inl hrecord) hrecord hfree)
  | @choice around name variants variant payload d hvariant h ih =>
      obtain ⟨hnodup, _, hvariants⟩ := plain_choice.1 hplain
      have hpayload := plain_of_mem_variants hvariants _ hvariant
      cases payload with
      | unit => exact readsBack_unitVariant hnodup hvariant
      | _ =>
          have hcarried := haround.imp_right fun hbare => bare_shape (bare_of_mem_variants hbare _ hvariant) name
          refine readsBack_variant hnodup hvariant (by simp) (ih hcarried (plain_shape hpayload name) ?_)
          simpa [Payload.datum, Datum.floatFree] using hfree
  | adjacentUnit hvariant =>
      exact readsBack_adjacentUnit (plain_adjacent.1 hplain).2.1 hvariant
  | @adjacentContent _ name _ _ _ _ _ _ hvariant hpayload h ih =>
      obtain ⟨htag, hnodup, hvariants⟩ := plain_adjacent.1 hplain
      have hcarried := haround.imp_right fun hbare => bare_shape (bare_of_mem_variants hbare _ hvariant) name
      refine readsBack_adjacentContent htag hnodup hvariant hpayload
        (ih hcarried (plain_shape (plain_of_mem_variants hvariants _ hvariant) _) ?_)
      simpa [adjacentRecord, Datum.floatFree, Datum.floatFreeFields] using hfree
  | _ => simp [plain] at hplain

end RecordTables.Shape
