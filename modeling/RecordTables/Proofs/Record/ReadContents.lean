import RecordTables.Proofs.Record.DocumentParts

/-!
# Contents that are read

The documents of scalars, of wrapped values and of lists, tuples and maps are read as some value, if those of their
parts are.  A float need not be read as the one that was written, and a key that has a text is read from it.
-/

namespace RecordTables

open RecordTables.Json (Document Piece SpellsItems SpellsEntries itemsDepth entriesDepth depth_le_itemsDepth
  depth_le_entriesDepth spellsItems_of_forall rereadItems rereadEntries)
open RecordTables.Json.Number (Readable)

namespace Shape

/-- The document of a value is read as some value wherever its levels may be entered. -/
def Reads (around s : Shape) (d : Datum) : Prop :=
  ∀ doc, d.document? = some doc → doc.Spells Readable ∧
    ∀ levels, doc.depth ≤ levels → ∃ e, readLevels levels around s doc.reread = some e

variable {around : Shape}

/-! ## Scalars -/

theorem reads_bool (b : Bool) : Reads around .bool (.bool b) := by
  intro doc hdoc
  cases hdoc
  exact ⟨by rw [Document.Spells]; trivial, fun levels _ => ⟨_, readLevels_bool b⟩⟩

theorem reread_ofInt (n : Int) : (Json.Number.ofInt n).reread = .ofInt n := Json.reread_whole _ _

/-- A whole number of at most sixteen bytes is read as it was. -/
theorem reads_int {type : IntType} {n : Int} (hbits : type.bits ≤ 128) (hn : type.holds n = true) :
    Reads around (.int type) (.int type n) := by
  intro doc hdoc
  cases hdoc
  have hbounds := IntType.holds_bounds hbits hn
  have hreadable : Readable (.ofInt n) := Json.readable_whole _ (by omega)
  refine ⟨by rw [Document.Spells]; exact hreadable, fun levels _ => ⟨.int type n, ?_⟩⟩
  rw [Document.reread, reread_ofInt, readLevels_int, IntType.read_ofInt hn]
  rfl

theorem single_of_double {n : Json.Number} (h : n.double?.isSome = true) : ∃ x, n.single? = some x := by
  obtain ⟨y, hy⟩ := Option.isSome_iff_exists.1 h
  cases n with
  | single x => exact ⟨x, rfl⟩
  | _ =>
      rw [Json.Number.single?]
      split
      · exact ⟨_, rfl⟩
      · exact ⟨_, by rw [hy]; rfl⟩
      · simp

theorem general_of_double {n : Json.Number} (h : n.double?.isSome = true) : ∃ d, generalNumber? n = some d := by
  obtain ⟨y, hy⟩ := Option.isSome_iff_exists.1 h
  rw [generalNumber?]
  split
  · exact ⟨_, rfl⟩
  · exact ⟨_, by rw [hy]; rfl⟩

theorem document_single {x : Single} (hx : x.isFinite = true) :
    (Datum.single x).document? = some (.number (.single x)) := by
  rw [Datum.document?, if_pos hx]

theorem document_double {x : Double} (hx : x.isFinite = true) :
    (Datum.double x).document? = some (.number (.real x)) := by
  rw [Datum.document?, if_pos hx]

theorem reads_single {x : Single} (hx : x.isFinite = true) : Reads around .single (.single x) := by
  intro doc hdoc
  rw [document_single hx] at hdoc
  cases hdoc
  have hreadable := Json.readable_single hx
  obtain ⟨y, hy⟩ := single_of_double hreadable.value
  refine ⟨by rw [Document.Spells]; exact hreadable, fun levels _ => ⟨.single y, ?_⟩⟩
  rw [Document.reread, readLevels_single, hy]
  rfl

theorem reads_double {x : Double} (hx : x.isFinite = true) : Reads around .double (.double x) := by
  intro doc hdoc
  rw [document_double hx] at hdoc
  cases hdoc
  have hreadable := Json.readable_real hx
  obtain ⟨y, hy⟩ := Option.isSome_iff_exists.1 hreadable.value
  refine ⟨by rw [Document.Spells]; exact hreadable, fun levels _ => ⟨.double y, ?_⟩⟩
  rw [Document.reread, readLevels_double, hy]
  rfl

theorem reads_char (c : Char) : Reads around .char (.char c) := by
  intro doc hdoc
  cases hdoc
  have hchars : Piece.chars? [Piece.ofChar c] = some [c] := Json.chars_map_ofChar [c]
  refine ⟨by rw [Document.Spells]; exact ⟨String.singleton c, by simp [Piece.ofString]⟩, fun levels _ => ⟨.char c, ?_⟩⟩
  rw [Document.reread, readLevels_char, hchars]
  rfl

theorem reads_text (s : String) : Reads around .text (.text s) := by
  intro doc hdoc
  cases hdoc
  refine ⟨by rw [Document.Spells]; exact ⟨s, rfl⟩, fun levels _ => ⟨.text s, ?_⟩⟩
  rw [Document.reread, readLevels_text, Json.text_ofString]
  rfl

theorem reads_label {name : TypeName} (s : String) : Reads around (.label name) (.text s) := by
  intro doc hdoc
  cases hdoc
  refine ⟨by rw [Document.Spells]; exact ⟨s, rfl⟩, fun levels _ => ⟨.text s, ?_⟩⟩
  rw [Document.reread, readLevels_label, Json.text_ofString]
  rfl

theorem reads_bytes {name : TypeName} (content : ByteArray) : Reads around (.bytes name) (.bytes content) := by
  intro doc hdoc
  cases hdoc
  have hwritten : (Document.array (content.toList.map fun b => .number (.whole false b.toNat))).Written :=
    Datum.written_document (d := .bytes content) rfl rfl
  constructor
  · rw [Document.Spells]
    refine spellsItems_of_forall fun doc hdoc => ?_
    obtain ⟨b, _, rfl⟩ := List.mem_map.1 hdoc
    have hb : b.toNat < 256 := b.toNat_lt
    rw [Document.Spells]
    exact Json.readable_whole _ (by omega)
  · intro levels hdepth
    rw [hwritten.reread_eq]
    exact ⟨_, readsBack_bytes content levels _ rfl hdepth⟩

theorem reads_unit {name : TypeName} : Reads around (.unit name) .unit := by
  intro doc hdoc
  cases hdoc
  exact ⟨by rw [Document.Spells]; trivial, fun levels _ => ⟨_, readLevels_unit⟩⟩

theorem reads_ignored {name : TypeName} : Reads around (.ignored name) .unit := by
  intro doc hdoc
  cases hdoc
  exact ⟨by rw [Document.Spells]; trivial, fun levels _ => ⟨_, by rw [readLevels_ignored]; rfl⟩⟩

/-! ## Wrappers -/

theorem reads_absent {content : Shape} : Reads around (.option content) .absent := by
  intro doc hdoc
  cases hdoc
  exact ⟨by rw [Document.Spells]; trivial, fun levels _ => ⟨_, readLevels_null⟩⟩

/-- What is present may be read as absent, but it is read. -/
theorem reads_present {content : Shape} {d : Datum} (h : Reads around content d) :
    Reads around (.option content) (.present d) := by
  intro doc hdoc
  rw [Datum.document?] at hdoc
  obtain ⟨hspells, hread⟩ := h doc hdoc
  refine ⟨hspells, fun levels hdepth => ?_⟩
  by_cases hnull : doc.reread = .null
  · exact ⟨_, by rw [hnull, readLevels_null]⟩
  · obtain ⟨e, he⟩ := hread levels hdepth
    exact ⟨_, by rw [readLevels_option hnull, he]; rfl⟩

theorem reads_box {content : Shape} {d : Datum} (h : Reads around content d) : Reads around (.box content) d := by
  intro doc hdoc
  obtain ⟨hspells, hread⟩ := h doc hdoc
  refine ⟨hspells, fun levels hdepth => ?_⟩
  rw [readLevels_box]
  exact hread levels hdepth

theorem reads_transparent {name : TypeName} {content : Shape} {d : Datum} (h : Reads around content d) :
    Reads around (.transparent name content) d := by
  intro doc hdoc
  obtain ⟨hspells, hread⟩ := h doc hdoc
  refine ⟨hspells, fun levels hdepth => ?_⟩
  rw [readLevels_transparent]
  exact hread levels hdepth

theorem reads_newtype {name : TypeName} {content : Shape} {d : Datum} (h : Reads around content d) :
    Reads around (.newtype name content) (.newtype d) := by
  intro doc hdoc
  rw [Datum.document?] at hdoc
  obtain ⟨hspells, hread⟩ := h doc hdoc
  refine ⟨hspells, fun levels hdepth => ?_⟩
  obtain ⟨e, he⟩ := hread levels hdepth
  exact ⟨_, by rw [readLevels_newtype, he]; rfl⟩

theorem reads_guarded {name : TypeName} {content : Shape} {refusal : Datum → Option String} {d : Datum}
    (h : Reads around content d) : Reads around (.guarded name content refusal) (d.presented refusal) := by
  intro doc hdoc
  -- A value that refuses to present itself has no document.
  have hcontent : d.document? = some doc := by
    unfold Datum.presented at hdoc
    split at hdoc
    · cases hdoc
    · rwa [Datum.document?] at hdoc
  obtain ⟨hspells, hread⟩ := h doc hcontent
  refine ⟨hspells, fun levels hdepth => ?_⟩
  obtain ⟨e, he⟩ := hread levels hdepth
  exact ⟨_, by rw [readLevels_guarded, he]; rfl⟩

/-- What a check has let pass is read back as it was, and passes again. -/
theorem reads_checked {name : TypeName} {content : Shape} {refusal : Datum → Option String} {d : Datum}
    (h : Reads around content d) (hvalue : IsValue around content d) (hplain : content.plain = true)
    (hbare : content.bare = true) (hpass : refusal d = none) : Reads around (.checked name content refusal) d := by
  intro doc hdoc
  have hfree := floatFree_of_bare hvalue hplain hbare
  refine ⟨(h doc hdoc).1, fun levels hdepth => ⟨d, ?_⟩⟩
  rw [(Datum.written_document hfree hdoc).reread_eq]
  exact readsBack_checked hpass (readsBack_of_isValue hvalue (.inr hbare) hplain hfree) levels doc hdoc hdepth

/-! ## Lists and tuples -/

/-- Reading all items succeeds if reading each of them does. -/
theorem mapM_of_forall {α β : Type} {f : α → Option β} {xs : List α} (h : ∀ x ∈ xs, ∃ y, f x = some y) :
    ∃ ys, xs.mapM f = some ys := by
  induction xs with
  | nil => exact ⟨[], rfl⟩
  | cons x rest ih =>
      obtain ⟨y, hy⟩ := h x (List.mem_cons_self ..)
      obtain ⟨ys, hys⟩ := ih fun x' hx => h x' (List.mem_cons_of_mem _ hx)
      exact ⟨y :: ys, by simp [List.mapM_cons, hy, hys]⟩

/-- A compound is written and read part by part, one level deeper. -/
theorem reads_of_parts {α : Type} {s : Shape} {d : Datum} (parts : Option α) (whole : α → Document)
    (partsDepth : α → Nat) (hdocument : d.document? = parts.map whole)
    (hwhole : ∀ x, (whole x).depth = partsDepth x + 1)
    (h : ∀ x, parts = some x → (whole x).Spells Readable ∧
      ∀ levels, partsDepth x ≤ levels → ∃ e, readLevels (levels + 1) around s (whole x).reread = some e) :
    Reads around s d := by
  intro doc hdoc
  rw [hdocument] at hdoc
  obtain ⟨x, hx, rfl⟩ := Option.map_eq_some_iff.1 hdoc
  refine ⟨(h x hx).1, fun levels hdepth => ?_⟩
  rw [hwhole] at hdepth
  cases levels with
  | zero => omega
  | succ levels => exact (h x hx).2 levels (by omega)

/-- The items of a list, all read by one shape. -/
theorem mapM_items {item : Shape} {items : List Datum} {docs : List Document}
    (hdocs : Datum.documents? items = some docs) (h : ∀ d ∈ items, Reads around item d) :
    SpellsItems Readable docs ∧ ∀ levels, itemsDepth docs ≤ levels →
      ∃ es, (rereadItems docs).mapM (readLevels levels around item) = some es := by
  have hread : ∀ doc ∈ docs, ∃ d, d.document? = some doc ∧ Reads around item d := by
    intro doc hdoc
    obtain ⟨d, hd, hsame⟩ := Datum.mem_documents hdocs doc hdoc
    exact ⟨d, hsame, h d hd⟩
  constructor
  · refine spellsItems_of_forall fun doc hdoc => ?_
    obtain ⟨d, hsame, hd⟩ := hread doc hdoc
    exact (hd doc hsame).1
  · intro levels hdepth
    rw [Json.rereadItems_eq_map]
    refine mapM_of_forall fun other hother => ?_
    obtain ⟨doc, hdoc, rfl⟩ := List.mem_map.1 hother
    obtain ⟨d, hsame, hd⟩ := hread doc hdoc
    exact (hd doc hsame).2 levels (Nat.le_trans (depth_le_itemsDepth doc hdoc) hdepth)

theorem reads_list {item : Shape} {items : List Datum} (h : ∀ d ∈ items, Reads around item d) :
    Reads around (.list item) (.list items) := by
  refine reads_of_parts (Datum.documents? items) .array itemsDepth rfl (fun _ => rfl) fun docs hdocs => ?_
  obtain ⟨hspells, hread⟩ := mapM_items hdocs h
  refine ⟨by rw [Document.Spells]; exact hspells, fun levels hdepth => ?_⟩
  obtain ⟨es, hes⟩ := hread levels hdepth
  exact ⟨.list es, by rw [Document.reread, readLevels_list, hes]; rfl⟩

theorem length_rereadItems {items : List Datum} {docs : List Document} (hdocs : Datum.documents? items = some docs) :
    (rereadItems docs).length = items.length := by
  rw [Json.rereadItems_eq_map, List.length_map, length_documents hdocs]

theorem reads_array {item : Shape} {items : List Datum} (h : ∀ d ∈ items, Reads around item d) :
    Reads around (.array item items.length) (.list items) := by
  refine reads_of_parts (Datum.documents? items) .array itemsDepth rfl (fun _ => rfl) fun docs hdocs => ?_
  obtain ⟨hspells, hread⟩ := mapM_items hdocs h
  refine ⟨by rw [Document.Spells]; exact hspells, fun levels hdepth => ?_⟩
  obtain ⟨es, hes⟩ := hread levels hdepth
  exact ⟨.list es, by rw [Document.reread, readLevels_array, if_pos (length_rereadItems hdocs), hes]; rfl⟩

/-- The items of a tuple, each read by its shape. -/
theorem mapM_zip_items {shapes : List Shape} {items : List Datum} {docs : List Document}
    (hdocs : Datum.documents? items = some docs) (hlength : items.length = shapes.length)
    (h : ∀ p ∈ shapes.zip items, Reads around p.1 p.2) :
    SpellsItems Readable docs ∧ ∀ levels, itemsDepth docs ≤ levels →
      ∃ es, ((shapes.zip (rereadItems docs)).mapM fun (s, d) => readLevels levels around s d) = some es := by
  constructor
  · refine spellsItems_of_forall fun doc hdoc => ?_
    obtain ⟨d, hd, hsame⟩ := Datum.mem_documents hdocs doc hdoc
    obtain ⟨s, hs⟩ := exists_mem_zip_of_length hlength hd
    exact (h _ hs doc hsame).1
  · intro levels hdepth
    refine mapM_of_forall fun q hq => ?_
    rw [Json.rereadItems_eq_map, List.zip_map_right] at hq
    obtain ⟨p, hp, rfl⟩ := List.mem_map.1 hq
    obtain ⟨d, hd, hsame⟩ := Datum.mem_zip_documents hdocs p hp
    have hdoc : p.2 ∈ docs := (List.of_mem_zip hp).2
    exact (h _ hd p.2 hsame).2 levels (Nat.le_trans (depth_le_itemsDepth _ hdoc) hdepth)

theorem reads_tuple {shapes : List Shape} {items : List Datum} (hlength : items.length = shapes.length)
    (h : ∀ p ∈ shapes.zip items, Reads around p.1 p.2) : Reads around (.tuple shapes) (.list items) := by
  refine reads_of_parts (Datum.documents? items) .array itemsDepth rfl (fun _ => rfl) fun docs hdocs => ?_
  obtain ⟨hspells, hread⟩ := mapM_zip_items hdocs hlength h
  refine ⟨by rw [Document.Spells]; exact hspells, fun levels hdepth => ?_⟩
  obtain ⟨es, hes⟩ := hread levels hdepth
  refine ⟨.list es, ?_⟩
  rw [Document.reread, readLevels_tuple, if_pos ((length_rereadItems hdocs).trans hlength), hes]
  rfl

theorem reads_tupleStruct {name : TypeName} {shapes : List Shape} {items : List Datum}
    (hlength : items.length = shapes.length) (h : ∀ p ∈ shapes.zip items, Reads around p.1 p.2) :
    Reads around (.tupleStruct name shapes) (.list items) := by
  refine reads_of_parts (Datum.documents? items) .array itemsDepth rfl (fun _ => rfl) fun docs hdocs => ?_
  obtain ⟨hspells, hread⟩ := mapM_zip_items hdocs hlength h
  refine ⟨by rw [Document.Spells]; exact hspells, fun levels hdepth => ?_⟩
  obtain ⟨es, hes⟩ := hread levels hdepth
  refine ⟨.list es, ?_⟩
  rw [Document.reread, readLevels_tupleStruct, if_pos ((length_rereadItems hdocs).trans hlength), hes]
  rfl

/-! ## Maps -/

/-- The text of a number is read as a number between quotes, too. -/
theorem keyNumber_text {n : Json.Number} (h : n.Readable) : keyNumber? (Piece.ofString n.text) = some n.reread := by
  have hplain : Piece.plainChars? (Piece.ofString n.text) = some n.text.toList :=
    Json.plainChars_of_plain h.unescaped
  have hread := h.printed.reads [] Json.stops_nil
  rw [List.append_nil] at hread
  simp only [keyNumber?, hplain, Option.bind_eq_bind, Option.bind_some]
  rw [show n.text.toList.map Text.Symbol.char = Json.symbols n.text.toList from rfl, hread]

/-- A key that has a text is read from it. -/
theorem readKey_of_keyText {key : Shape} {d : Datum} {k : String} (h : IsValue around key d)
    (hlegible : key.legibleKey = true) (hk : d.keyText? = some k) : ∃ e, readKey? (Piece.ofString k) key = some e := by
  induction h generalizing k with
  | bool b =>
      cases hk
      cases b <;> exact ⟨_, rfl⟩
  | @int _ type n hn =>
      cases hk
      exact ⟨.int type n, by simp [readKey?, keyNumber_integerText, IntType.read_ofInt hn]⟩
  | single x =>
      rw [Datum.keyText?] at hk
      split at hk
      · rename_i hx
        cases hk
        have hreadable := Json.readable_single hx
        obtain ⟨y, hy⟩ := single_of_double hreadable.value
        exact ⟨.single y, by simp [readKey?, keyNumber_text hreadable, hy]⟩
      · cases hk
  | double x =>
      rw [Datum.keyText?] at hk
      split at hk
      · rename_i hx
        cases hk
        have hreadable := Json.readable_real hx
        obtain ⟨y, hy⟩ := Option.isSome_iff_exists.1 hreadable.value
        exact ⟨.double y, by simp [readKey?, keyNumber_text hreadable, hy]⟩
      · cases hk
  | char c =>
      cases hk
      have hchars : Piece.chars? (Piece.ofString (String.singleton c)) = some [c] := by
        simpa [Piece.ofString] using Json.chars_map_ofChar [c]
      exact ⟨.char c, by simp [readKey?, hchars, onlyChar?]⟩
  | text s =>
      cases hk
      exact ⟨.text s, by simp [readKey?]⟩
  | label s =>
      cases hk
      exact ⟨.text s, by simp [readKey?]⟩
  | present h ih =>
      obtain ⟨e, he⟩ := ih hlegible hk
      exact ⟨.present e, by rw [readKey?, he]; rfl⟩
  | box h ih =>
      obtain ⟨e, he⟩ := ih hlegible hk
      exact ⟨e, by rw [readKey?, he]⟩
  | transparent h ih =>
      obtain ⟨e, he⟩ := ih hlegible hk
      exact ⟨e, by rw [readKey?, he]⟩
  | newtype h ih =>
      obtain ⟨e, he⟩ := ih hlegible hk
      exact ⟨.newtype e, by rw [readKey?, he]; rfl⟩
  | @checked _ _ _ _ d h hpass ih =>
      have hread := readKey_keyText hlegible h hk
      exact ⟨d, by simp only [readKey?, hread, Option.bind_eq_bind, Option.bind_some, hpass]⟩
  | guarded h ih =>
      unfold Datum.presented at hk
      split at hk
      · cases hk
      · obtain ⟨e, he⟩ := ih hlegible hk
        exact ⟨_, by rw [readKey?, he]; rfl⟩
  | @choice _ _ variants variant payload d hvariant h ih =>
      cases payload with
      | unit =>
          cases hk
          have hnodup : (variants.map Prod.fst).Nodup := by simpa [legibleKey] using hlegible
          exact ⟨.unitVariant variant, by simp [readKey?, lookup_of_mem hnodup hvariant]⟩
      | _ => cases hk
  | untaggedInt | untaggedText =>
      exact ⟨.text k, by simpa [readKey?, legibleKey] using hlegible⟩
  | untaggedDouble => exact ⟨.text k, by simpa [readKey?, legibleKey] using hlegible⟩
  | anyBool | anyInt | anyDouble | anyText => exact ⟨.text k, by simp [readKey?]⟩
  | enclosing h ih =>
      cases h
      cases hk
  | _ => cases hk

theorem reads_map {key value : Shape} {entries : List (Datum × Datum)} (hlegible : key.legibleKey = true)
    (hkey : ∀ e ∈ entries, IsValue around key e.1) (h : ∀ e ∈ entries, Reads around value e.2) :
    Reads around (.map key value) (.map entries) := by
  refine reads_of_parts (Datum.entryDocuments? entries) .object entriesDepth rfl (fun _ => rfl) fun docs hdocs => ?_
  constructor
  · rw [Document.Spells]
    refine Json.spellsEntries_of_forall fun p hp => ?_
    obtain ⟨e, he, k, _, hname, hdoc⟩ := Datum.mem_entryDocuments hdocs p hp
    exact ⟨⟨k, hname⟩, (h e he _ hdoc).1⟩
  · intro levels hdepth
    have hentry : ∀ q ∈ rereadEntries docs, ∃ e, ((readKey? q.1 key).bind fun k =>
        (readLevels levels around value q.2).bind fun v => some (k, v)) = some e := by
      rw [Json.rereadEntries_eq_map]
      intro q hq
      obtain ⟨p, hp, rfl⟩ := List.mem_map.1 hq
      obtain ⟨e, he, k, hk, hname, hdoc⟩ := Datum.mem_entryDocuments hdocs p hp
      obtain ⟨k', hk'⟩ := readKey_of_keyText (hkey e he) hlegible hk
      obtain ⟨v, hv⟩ := (h e he _ hdoc).2 levels (Nat.le_trans (depth_le_entriesDepth p hp) hdepth)
      exact ⟨(k', v), by simp [hname, hk', hv]⟩
    obtain ⟨values, hvalues⟩ := mapM_of_forall hentry
    rw [Document.reread, readLevels_map]
    exact ⟨_, Option.bind_eq_some_iff.2 ⟨values, hvalues, rfl⟩⟩

end Shape

end RecordTables
