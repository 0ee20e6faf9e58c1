import RecordTables.Proofs.Json.RoundTrip
import RecordTables.Record.Datum

/-!
# Documents of data

A datum without floats has a document of whole numbers and texts, so the text of the document reads as the document.
`Document.depth` counts the levels that a reader has to enter.
-/

namespace RecordTables

open RecordTables.Json (Document Piece SpellsItems SpellsEntries spellsItems_of_forall)
open RecordTables.Json.Number (IsWhole)

namespace Json

mutual

/-- The levels of arrays and objects in a document. -/
def Document.depth : Document → Nat
  | .array items => itemsDepth items + 1
  | .object entries => entriesDepth entries + 1
  | _ => 0

def itemsDepth : List Document → Nat
  | [] => 0
  | d :: rest => max d.depth (itemsDepth rest)

def entriesDepth : List (List Piece × Document) → Nat
  | [] => 0
  | (_, d) :: rest => max d.depth (entriesDepth rest)

end

theorem depth_le_itemsDepth {items : List Document} : ∀ d ∈ items, d.depth ≤ itemsDepth items := by
  induction items with
  | nil => simp
  | cons d rest ih =>
      intro e he
      rw [itemsDepth]
      rcases List.mem_cons.1 he with rfl | he
      · omega
      · have := ih e he
        omega

theorem depth_le_entriesDepth {entries : List (List Piece × Document)} :
    ∀ e ∈ entries, e.2.depth ≤ entriesDepth entries := by
  induction entries with
  | nil => simp
  | cons e rest ih =>
      intro e' he
      rw [entriesDepth]
      rcases List.mem_cons.1 he with rfl | he
      · omega
      · have := ih e' he
        omega

end Json

namespace Datum

mutual

/-- Whether no float occurs in a datum. -/
def floatFree : Datum → Bool
  | .single _ => false
  | .double _ => false
  | .present d => d.floatFree
  | .newtype d => d.floatFree
  | .list items => floatFreeItems items
  | .map entries => floatFreeEntries entries
  | .record fields => floatFreeFields fields
  | .variant _ payload => payload.floatFree
  | _ => true

def floatFreeItems : List Datum → Bool
  | [] => true
  | d :: rest => d.floatFree && floatFreeItems rest

def floatFreeEntries : List (Datum × Datum) → Bool
  | [] => true
  | (key, value) :: rest => key.floatFree && value.floatFree && floatFreeEntries rest

def floatFreeFields : List (String × Datum) → Bool
  | [] => true
  | (_, value) :: rest => value.floatFree && floatFreeFields rest

end

theorem floatFree_of_mem_items {items : List Datum} (h : floatFreeItems items = true) :
    ∀ d ∈ items, d.floatFree = true := by
  induction items with
  | nil => simp
  | cons d rest ih =>
      rw [floatFreeItems, Bool.and_eq_true] at h
      intro e he
      rcases List.mem_cons.1 he with rfl | he
      · exact h.1
      · exact ih h.2 e he

theorem floatFree_of_mem_entries {entries : List (Datum × Datum)} (h : floatFreeEntries entries = true) :
    ∀ e ∈ entries, e.1.floatFree = true ∧ e.2.floatFree = true := by
  induction entries with
  | nil => simp
  | cons e rest ih =>
      rw [floatFreeEntries, Bool.and_eq_true, Bool.and_eq_true] at h
      intro e' he
      rcases List.mem_cons.1 he with rfl | he
      · exact h.1
      · exact ih h.2 e' he

theorem floatFree_of_mem_fields {fields : List (String × Datum)} (h : floatFreeFields fields = true) :
    ∀ p ∈ fields, p.2.floatFree = true := by
  induction fields with
  | nil => simp
  | cons p rest ih =>
      rw [floatFreeFields, Bool.and_eq_true] at h
      intro q hq
      rcases List.mem_cons.1 hq with rfl | hq
      · exact h.1
      · exact ih h.2 q hq

/-! ## Documents of parts -/

theorem documents_cons {d : Datum} {rest : List Datum} {docs : List Document}
    (h : documents? (d :: rest) = some docs) :
    ∃ doc docs', docs = doc :: docs' ∧ d.document? = some doc ∧ documents? rest = some docs' := by
  rw [documents?] at h
  obtain ⟨doc, hdoc, h⟩ := Option.bind_eq_some_iff.1 h
  obtain ⟨docs', hdocs, h⟩ := Option.bind_eq_some_iff.1 h
  exact ⟨doc, docs', (Option.some.inj h).symm, hdoc, hdocs⟩

theorem entryDocuments_cons {key value : Datum} {rest : List (Datum × Datum)}
    {docs : List (List Piece × Document)} (h : entryDocuments? ((key, value) :: rest) = some docs) :
    ∃ k doc docs', docs = (Piece.ofString k, doc) :: docs' ∧ key.keyText? = some k ∧
      value.document? = some doc ∧ entryDocuments? rest = some docs' := by
  rw [entryDocuments?] at h
  obtain ⟨k, hk, h⟩ := Option.bind_eq_some_iff.1 h
  obtain ⟨doc, hdoc, h⟩ := Option.bind_eq_some_iff.1 h
  obtain ⟨docs', hdocs, h⟩ := Option.bind_eq_some_iff.1 h
  exact ⟨k, doc, docs', (Option.some.inj h).symm, hk, hdoc, hdocs⟩

theorem fieldDocuments_cons {name : String} {value : Datum} {rest : List (String × Datum)}
    {docs : List (List Piece × Document)} (h : fieldDocuments? ((name, value) :: rest) = some docs) :
    ∃ doc docs', docs = (Piece.ofString name, doc) :: docs' ∧ value.document? = some doc ∧
      fieldDocuments? rest = some docs' := by
  rw [fieldDocuments?] at h
  obtain ⟨doc, hdoc, h⟩ := Option.bind_eq_some_iff.1 h
  obtain ⟨docs', hdocs, h⟩ := Option.bind_eq_some_iff.1 h
  exact ⟨doc, docs', (Option.some.inj h).symm, hdoc, hdocs⟩

mutual

/-- Data without floats have documents that read back. -/
theorem written_document : ∀ {d : Datum} {doc : Document}, d.floatFree = true → d.document? = some doc →
    doc.Written
  | .bool b, _, _, h => by
      cases h
      rw [Document.Written, Document.Spells]; trivial
  | .int type n, _, _, h => by
      cases h
      rw [Document.Written, Document.Spells]; exact ⟨_, _, rfl⟩
  | .single x, _, hfree, _ => by simp [floatFree] at hfree
  | .double x, _, hfree, _ => by simp [floatFree] at hfree
  | .char c, _, _, h => by
      cases h
      rw [Document.Written, Document.Spells]; exact ⟨String.singleton c, by simp [Piece.ofString]⟩
  | .text s, _, _, h => by
      cases h
      rw [Document.Written, Document.Spells]; exact ⟨s, rfl⟩
  | .bytes content, _, _, h => by
      cases h
      rw [Document.Written, Document.Spells]
      apply spellsItems_of_forall
      intro doc hdoc
      obtain ⟨b, _, rfl⟩ := List.mem_map.1 hdoc
      rw [Document.Spells]; exact ⟨_, _, rfl⟩
  | .absent, _, _, h => by
      cases h
      rw [Document.Written, Document.Spells]; trivial
  | .unit, _, _, h => by
      cases h
      rw [Document.Written, Document.Spells]; trivial
  | .present d, _, hfree, h => by
      rw [floatFree] at hfree
      rw [document?] at h
      exact written_document hfree h
  | .newtype d, _, hfree, h => by
      rw [floatFree] at hfree
      rw [document?] at h
      exact written_document hfree h
  | .list items, _, hfree, h => by
      rw [floatFree] at hfree
      rw [document?] at h
      obtain ⟨docs, hdocs, rfl⟩ := Option.map_eq_some_iff.1 h
      rw [Document.Written, Document.Spells]; exact written_documents hfree hdocs
  | .map entries, _, hfree, h => by
      rw [floatFree] at hfree
      rw [document?] at h
      obtain ⟨docs, hdocs, rfl⟩ := Option.map_eq_some_iff.1 h
      rw [Document.Written, Document.Spells]; exact written_entryDocuments hfree hdocs
  | .record fields, _, hfree, h => by
      rw [floatFree] at hfree
      rw [document?] at h
      obtain ⟨docs, hdocs, rfl⟩ := Option.map_eq_some_iff.1 h
      rw [Document.Written, Document.Spells]; exact written_fieldDocuments hfree hdocs
  | .unitVariant name, _, _, h => by
      cases h
      rw [Document.Written, Document.Spells]; exact ⟨name, rfl⟩
  | .variant name payload, _, hfree, h => by
      rw [floatFree] at hfree
      rw [document?] at h
      obtain ⟨doc, hdoc, rfl⟩ := Option.map_eq_some_iff.1 h
      rw [Document.Written, Document.Spells, SpellsEntries, SpellsEntries]
      exact ⟨⟨name, rfl⟩, written_document hfree hdoc, trivial⟩
  | .refused why, _, _, h => by cases h

theorem written_documents : ∀ {items : List Datum} {docs : List Document}, floatFreeItems items = true →
    documents? items = some docs → SpellsItems IsWhole docs
  | [], _, _, h => by
      cases h
      rw [SpellsItems]; trivial
  | d :: rest, _, hfree, h => by
      rw [floatFreeItems, Bool.and_eq_true] at hfree
      obtain ⟨doc, docs', rfl, hdoc, hdocs⟩ := documents_cons h
      rw [SpellsItems]; exact ⟨written_document hfree.1 hdoc, written_documents hfree.2 hdocs⟩

theorem written_entryDocuments : ∀ {entries : List (Datum × Datum)} {docs : List (List Piece × Document)},
    floatFreeEntries entries = true → entryDocuments? entries = some docs → SpellsEntries IsWhole docs
  | [], _, _, h => by
      cases h
      rw [SpellsEntries]; trivial
  | (key, value) :: rest, _, hfree, h => by
      rw [floatFreeEntries, Bool.and_eq_true, Bool.and_eq_true] at hfree
      obtain ⟨k, doc, docs', rfl, _, hdoc, hdocs⟩ := entryDocuments_cons h
      rw [SpellsEntries]
      exact ⟨⟨k, rfl⟩, written_document hfree.1.2 hdoc, written_entryDocuments hfree.2 hdocs⟩

theorem written_fieldDocuments : ∀ {fields : List (String × Datum)} {docs : List (List Piece × Document)},
    floatFreeFields fields = true → fieldDocuments? fields = some docs → SpellsEntries IsWhole docs
  | [], _, _, h => by
      cases h
      rw [SpellsEntries]; trivial
  | (name, value) :: rest, _, hfree, h => by
      rw [floatFreeFields, Bool.and_eq_true] at hfree
      obtain ⟨doc, docs', rfl, hdoc, hdocs⟩ := fieldDocuments_cons h
      rw [SpellsEntries]
      exact ⟨⟨name, rfl⟩, written_document hfree.1 hdoc, written_fieldDocuments hfree.2 hdocs⟩

end

/-- The text of a datum without floats reads as its document. -/
theorem parse_document {d : Datum} {doc : Document} (hfree : d.floatFree = true) (h : d.document? = some doc) :
    Document.parse? (Text.Symbol.ofString doc.text) = some doc :=
  Json.parse_text (written_document hfree h)

end Datum

end RecordTables
