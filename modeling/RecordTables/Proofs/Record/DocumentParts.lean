import RecordTables.Proofs.Json.Reals
import RecordTables.Proofs.Record.ReadBack

/-!
# Documents and their parts

Each part of the document of a compound value is the document of a part of the value.  What is written may be skipped,
which is how parts that a reader does not know are passed over.
-/

namespace RecordTables

open RecordTables.Json (Document Piece)

namespace Datum

mutual

/-- Whether all floats of a datum are finite, those of keys apart. -/
def finite : Datum → Bool
  | .single x => x.isFinite
  | .double x => x.isFinite
  | .present d => d.finite
  | .newtype d => d.finite
  | .list items => finiteItems items
  | .map entries => finiteEntries entries
  | .record fields => finiteFields fields
  | .variant _ payload => payload.finite
  | _ => true

def finiteItems : List Datum → Bool
  | [] => true
  | d :: rest => d.finite && finiteItems rest

def finiteEntries : List (Datum × Datum) → Bool
  | [] => true
  | (_, value) :: rest => value.finite && finiteEntries rest

def finiteFields : List (String × Datum) → Bool
  | [] => true
  | (_, value) :: rest => value.finite && finiteFields rest

end

theorem finite_of_mem_items {items : List Datum} (h : finiteItems items = true) : ∀ d ∈ items, d.finite = true := by
  induction items with
  | nil => simp
  | cons d rest ih =>
      rw [finiteItems, Bool.and_eq_true] at h
      intro e he
      rcases List.mem_cons.1 he with rfl | he
      · exact h.1
      · exact ih h.2 e he

theorem finite_of_mem_entries {entries : List (Datum × Datum)} (h : finiteEntries entries = true) :
    ∀ e ∈ entries, e.2.finite = true := by
  induction entries with
  | nil => simp
  | cons e rest ih =>
      rw [finiteEntries, Bool.and_eq_true] at h
      intro e' he
      rcases List.mem_cons.1 he with rfl | he
      · exact h.1
      · exact ih h.2 e' he

theorem finite_of_mem_fields {fields : List (String × Datum)} (h : finiteFields fields = true) :
    ∀ p ∈ fields, p.2.finite = true := by
  induction fields with
  | nil => simp
  | cons p rest ih =>
      rw [finiteFields, Bool.and_eq_true] at h
      intro q hq
      rcases List.mem_cons.1 hq with rfl | hq
      · exact h.1
      · exact ih h.2 q hq

/-! ## Documents come from parts -/

theorem mem_documents {items : List Datum} {docs : List Document} (h : documents? items = some docs) :
    ∀ doc ∈ docs, ∃ d ∈ items, d.document? = some doc := by
  induction items generalizing docs with
  | nil =>
      cases h
      simp
  | cons d rest ih =>
      obtain ⟨doc, docs', rfl, hdoc, hrest⟩ := documents_cons h
      intro other hother
      rcases List.mem_cons.1 hother with rfl | hother
      · exact ⟨d, List.mem_cons_self .., hdoc⟩
      · obtain ⟨e, he, hsame⟩ := ih hrest other hother
        exact ⟨e, List.mem_cons_of_mem _ he, hsame⟩

theorem mem_zip_documents {shapes : List Shape} {items : List Datum} {docs : List Document}
    (h : documents? items = some docs) :
    ∀ p ∈ shapes.zip docs, ∃ d, (p.1, d) ∈ shapes.zip items ∧ d.document? = some p.2 := by
  induction items generalizing shapes docs with
  | nil =>
      cases h
      simp
  | cons d rest ih =>
      obtain ⟨doc, docs', rfl, hdoc, hrest⟩ := documents_cons h
      cases shapes with
      | nil => simp
      | cons s shapes =>
          intro p hp
          rcases List.mem_cons.1 hp with rfl | hp
          · exact ⟨d, List.mem_cons_self .., hdoc⟩
          · obtain ⟨e, he, hsame⟩ := ih hrest p hp
            exact ⟨e, List.mem_cons_of_mem _ he, hsame⟩

theorem mem_entryDocuments {entries : List (Datum × Datum)} {docs : List (List Piece × Document)}
    (h : entryDocuments? entries = some docs) :
    ∀ p ∈ docs, ∃ e ∈ entries, ∃ k, e.1.keyText? = some k ∧ p.1 = Piece.ofString k ∧ e.2.document? = some p.2 := by
  induction entries generalizing docs with
  | nil =>
      cases h
      simp
  | cons e rest ih =>
      obtain ⟨k, doc, docs', rfl, hk, hdoc, hrest⟩ := entryDocuments_cons h
      intro p hp
      rcases List.mem_cons.1 hp with rfl | hp
      · exact ⟨e, List.mem_cons_self .., k, hk, rfl, hdoc⟩
      · obtain ⟨e', he, hsame⟩ := ih hrest p hp
        exact ⟨e', List.mem_cons_of_mem _ he, hsame⟩

theorem mem_fieldDocuments {fields : List (String × Datum)} {docs : List (List Piece × Document)}
    (h : fieldDocuments? fields = some docs) :
    ∀ p ∈ docs, ∃ f ∈ fields, p.1 = Piece.ofString f.1 ∧ f.2.document? = some p.2 := by
  induction fields generalizing docs with
  | nil =>
      cases h
      simp
  | cons f rest ih =>
      obtain ⟨doc, docs', rfl, hdoc, hrest⟩ := fieldDocuments_cons h
      intro p hp
      rcases List.mem_cons.1 hp with rfl | hp
      · exact ⟨f, List.mem_cons_self .., rfl, hdoc⟩
      · obtain ⟨f', hf, hsame⟩ := ih hrest p hp
        exact ⟨f', List.mem_cons_of_mem _ hf, hsame⟩

end Datum

namespace Json

theorem rereadItems_eq_map (items : List Document) : rereadItems items = items.map Document.reread := by
  induction items with
  | nil => rfl
  | cons d rest ih => rw [rereadItems, ih, List.map_cons]

theorem rereadEntries_eq_map (entries : List (List Piece × Document)) :
    rereadEntries entries = entries.map fun e => (e.1, e.2.reread) := by
  induction entries with
  | nil => rfl
  | cons e rest ih =>
      obtain ⟨key, d⟩ := e
      rw [rereadEntries, ih, List.map_cons]

section

variable {P : Number → Prop}

theorem spells_of_mem_entries {entries : List (List Piece × Document)} (h : SpellsEntries P entries) :
    ∀ e ∈ entries, (∃ s : String, e.1 = Piece.ofString s) ∧ e.2.Spells P := by
  induction entries with
  | nil => simp
  | cons e rest ih =>
      obtain ⟨key, d⟩ := e
      rw [SpellsEntries] at h
      intro e' he
      rcases List.mem_cons.1 he with rfl | he
      · exact ⟨h.1, h.2.1⟩
      · exact ih h.2.2 e' he

theorem spellsEntries_of_forall {entries : List (List Piece × Document)}
    (h : ∀ e ∈ entries, (∃ s : String, e.1 = Piece.ofString s) ∧ e.2.Spells P) : SpellsEntries P entries := by
  induction entries with
  | nil => rw [SpellsEntries]; trivial
  | cons e rest ih =>
      obtain ⟨key, d⟩ := e
      rw [SpellsEntries]
      obtain ⟨hkey, hvalue⟩ := h (key, d) (List.mem_cons_self ..)
      exact ⟨hkey, hvalue, ih fun e' he => h e' (List.mem_cons_of_mem _ he)⟩

/-- What is written as a text may be skipped. -/
theorem skippable_ofString (s : String) : Piece.skippable (Piece.ofString s) = true := by
  rw [Piece.skippable, List.all_eq_true]
  intro p hp
  obtain ⟨c, _, rfl⟩ := List.mem_map.1 hp
  by_cases h : (c = '"' || c = '\\' || c < ' ') = true
  · rw [Piece.ofChar, if_pos h]
  · rw [Piece.ofChar, if_neg h]
    simp only [Bool.or_eq_true, decide_eq_true_eq, not_or] at h
    simpa [Text.Symbol.isControl] using h.2

mutual

/-- What is written may be skipped. -/
theorem Document.Spells.skippable : ∀ {d : Document}, d.Spells P → d.reread.skippable = true
  | .null, _ => rfl
  | .bool _, _ => rfl
  | .number _, _ => rfl
  | .string _, h => by
      rw [Document.Spells] at h
      obtain ⟨s, rfl⟩ := h
      exact skippable_ofString s
  | .array _, h => by
      rw [Document.Spells] at h
      exact skippableItems_of_spells h
  | .object _, h => by
      rw [Document.Spells] at h
      exact skippableEntries_of_spells h

theorem skippableItems_of_spells : ∀ {items : List Document}, SpellsItems P items →
    skippableItems (rereadItems items) = true
  | [], _ => rfl
  | _ :: _, h => by
      rw [SpellsItems] at h
      rw [rereadItems, skippableItems, h.1.skippable, skippableItems_of_spells h.2]
      rfl

theorem skippableEntries_of_spells : ∀ {entries : List (List Piece × Document)}, SpellsEntries P entries →
    skippableEntries (rereadEntries entries) = true
  | [], _ => rfl
  | (_, _) :: _, h => by
      rw [SpellsEntries] at h
      obtain ⟨⟨s, rfl⟩, hvalue, hrest⟩ := h
      rw [rereadEntries, skippableEntries, skippable_ofString, hvalue.skippable, skippableEntries_of_spells hrest]
      rfl

end

end

end Json

end RecordTables
