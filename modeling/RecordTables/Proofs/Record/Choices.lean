import RecordTables.Proofs.Record.Cells
import RecordTables.Proofs.Record.Levels

/-!
# Variants in documents and in cells

A variant is written as its bare name or as an object with one entry, and a column holds the name itself or a document
of either kind.  `ReadsVariant` says what a document stands for, without saying how it is read.
-/

namespace RecordTables

open RecordTables.Json (Document Piece)

namespace Cell

variable {around s : Shape} {d : Datum}

/-- Whatever is read as a document is read from one. -/
theorem document_ok {cell : Cell} (h : cell.document around s = .ok d) :
    ∃ doc, Shape.readIn? around s doc = some d := by
  unfold document at h
  -- The symbols come first, by the kind of the value, and then one and the same reading.
  split at h
  all_goals
    obtain ⟨symbols, hsymbols, h⟩ := Outcome.bind_eq_ok.1 h
    dsimp only at h
    split at h
    · rename_i e he
      cases h
      obtain ⟨doc, -, hdoc⟩ := Option.bind_eq_some_iff.1 he
      exact ⟨doc, hdoc⟩
    · cases h

theorem document_text {column text : String} :
    (Cell.mk column (.text text)).document around s =
      ((Document.parse? (Text.Symbol.ofString text)).bind (Shape.readIn? around s)).elim (.error .json) .ok := by
  unfold document
  dsimp only [bind, Except.bind]
  cases (Document.parse? (Text.Symbol.ofString text)).bind (Shape.readIn? around s) with
  | none => rfl
  | some d => rfl

/-- A text is read as a document if it is the text of one that fits. -/
theorem document_text_ok {column text : String} :
    (Cell.mk column (.text text)).document around s = .ok d ↔
      ∃ doc, Document.parse? (Text.Symbol.ofString text) = some doc ∧ Shape.readIn? around s doc = some d := by
  rw [document_text, ← Option.bind_eq_some_iff]
  cases (Document.parse? (Text.Symbol.ofString text)).bind (Shape.readIn? around s) with
  | none =>
      constructor
      · intro h
        cases h
      · intro h
        cases h
  | some e =>
      constructor
      · intro h
        cases h
        rfl
      · intro h
        cases h
        rfl

end Cell

namespace Shape

variable {around : Shape} {name : TypeName} {variants : List (String × Payload)} {doc : Document} {d : Datum}
  {levels : Nat}

/-- A string stands for the variant of this name, which carries nothing; an object with one entry stands for the
variant under its key, with what the value of the entry stands for. -/
inductive ReadsVariant (levels : Nat) (around : Shape) (name : TypeName) (variants : List (String × Payload)) :
    Document → Datum → Prop
  | bare {pieces : List Piece} {variant : String} (hname : Piece.text? pieces = some variant)
      (hvariant : variants.lookup variant = some .unit) :
      ReadsVariant levels around name variants (.string pieces) (.unitVariant variant)
  | entry {key : List Piece} {variant : String} {payload : Payload} {carried : Document} {d : Datum}
      (hname : Piece.text? key = some variant) (hvariant : variants.lookup variant = some payload)
      (hcarried : readLevels levels around (payload.shape name) carried = some d) :
      ReadsVariant levels around name variants (.object [(key, carried)]) (payload.datum variant d)

theorem readBareVariant_eq_some {pieces : List Piece} :
    readBareVariant? variants pieces = some d ↔
      ∃ variant, Piece.text? pieces = some variant ∧ variants.lookup variant = some .unit ∧ .unitVariant variant = d := by
  unfold readBareVariant?
  refine Option.bind_eq_some_iff.trans ?_
  refine exists_congr fun variant => and_congr_right fun _ => ?_
  cases variants.lookup variant with
  | none => simp
  | some payload => cases payload <;> simp

theorem readChoice_eq_some {read : Shape → Document → Option Datum} :
    readChoice? read name variants doc = some d ↔
      ∃ key carried variant payload e, doc = .object [(key, carried)] ∧ Piece.text? key = some variant ∧
        variants.lookup variant = some payload ∧ read (payload.shape name) carried = some e ∧
          payload.datum variant e = d := by
  constructor
  · intro h
    unfold readChoice? at h
    split at h
    · rename_i key carried
      obtain ⟨variant, hname, h⟩ := Option.bind_eq_some_iff.1 h
      obtain ⟨payload, hvariant, h⟩ := Option.bind_eq_some_iff.1 h
      obtain ⟨e, he, h⟩ := Option.bind_eq_some_iff.1 h
      exact ⟨key, carried, variant, payload, e, rfl, hname, hvariant, he, Option.some.inj h⟩
    · cases h
  · rintro ⟨key, carried, variant, payload, e, rfl, hname, hvariant, he, rfl⟩
    rw [readChoice?, hname]
    simp [hvariant, he]

/-- A choice reads the documents that stand for its variants.  The object of a variant takes one level. -/
theorem readLevels_choice_iff :
    readLevels (levels + 1) around (.choice name variants) doc = some d ↔
      ReadsVariant levels around name variants doc d := by
  have hobject : (∀ pieces, doc ≠ .string pieces) →
      (readLevels (levels + 1) around (.choice name variants) doc = some d ↔
        ReadsVariant levels around name variants doc d) := by
    intro hstring
    have hread : readLevels (levels + 1) around (.choice name variants) doc =
        readChoice? (readLevels levels around) name variants doc := by
      cases doc with
      | string pieces => exact absurd rfl (hstring pieces)
      | _ => rfl
    rw [hread, readChoice_eq_some]
    constructor
    · rintro ⟨key, carried, variant, payload, e, rfl, hname, hvariant, he, rfl⟩
      exact .entry hname hvariant he
    · intro h
      cases h with
      | bare => exact absurd rfl (hstring _)
      | entry hname hvariant he => exact ⟨_, _, _, _, _, rfl, hname, hvariant, he, rfl⟩
  cases doc with
  | string pieces =>
      rw [readLevels_bareVariant, readBareVariant_eq_some]
      constructor
      · rintro ⟨variant, hname, hvariant, rfl⟩
        exact .bare hname hvariant
      · intro h
        cases h with
        | bare hname hvariant => exact ⟨_, hname, hvariant, rfl⟩
  | _ => exact hobject (fun _ h => by cases h)

/-- The levels that are left within a variant. -/
theorem readIn_choice_iff :
    readIn? around (.choice name variants) doc = some d ↔
      ReadsVariant (maxLevels - 1) around name variants doc d :=
  readLevels_choice_iff

/-- A variant that is told by its bare name carries nothing. -/
theorem decodeBareVariant_ok {variant : String} {payload : Payload} :
    decodeBareVariant variant payload = .ok d ↔ payload = .unit ∧ d = .unitVariant variant := by
  cases payload with
  | unit =>
      constructor
      · intro h
        cases h
        exact ⟨rfl, rfl⟩
      · rintro ⟨-, rfl⟩
        rfl
  | newtype | tuple | fields =>
      constructor
      · intro h
        cases h
      · rintro ⟨h, -⟩
        cases h

/-- Whatever a choice is read from, it is one of the variants. -/
theorem datum_of_decodeField_choice {cell : Cell} (h : decodeField around cell (.choice name variants) = .ok d) :
    ∃ variant payload e, variants.lookup variant = some payload ∧ d = payload.datum variant e := by
  have hdocument : cell.document around (.choice name variants) = .ok d →
      ∃ variant payload e, variants.lookup variant = some payload ∧ d = payload.datum variant e := by
    intro h
    obtain ⟨doc, hdoc⟩ := Cell.document_ok h
    cases readIn_choice_iff.1 hdoc with
    | bare hname hvariant => exact ⟨_, .unit, .unit, hvariant, rfl⟩
    | entry hname hvariant hcarried => exact ⟨_, _, _, hvariant, rfl⟩
  rw [decodeField] at h
  split at h
  · split at h
    · rename_i payload hvariant
      obtain ⟨rfl, rfl⟩ := decodeBareVariant_ok.1 h
      exact ⟨_, .unit, .unit, hvariant, rfl⟩
    · exact hdocument h
  · exact hdocument h

/-- Without what they carry, the variants keep their names. -/
theorem lookup_bareVariants (variants : List (String × Payload)) (variant : String) :
    (bareVariants variants).lookup variant = (variants.lookup variant).map fun _ => .unit := by
  unfold bareVariants
  induction variants with
  | nil => rfl
  | cons p rest ih =>
      obtain ⟨other, payload⟩ := p
      rw [List.map_cons, List.lookup_cons, List.lookup_cons, ih]
      cases variant == other <;> rfl

/-- A tag is read as the name of a variant, whatever the variant carries. -/
theorem unitVariant_of_decodeField {cell : Cell}
    (h : decodeField around cell (.choice name (bareVariants variants)) = .ok d) :
    ∃ variant payload, d = .unitVariant variant ∧ variants.lookup variant = some payload := by
  obtain ⟨variant, payload, e, hvariant, rfl⟩ := datum_of_decodeField_choice h
  rw [lookup_bareVariants] at hvariant
  obtain ⟨inner, hinner, rfl⟩ := Option.map_eq_some_iff.1 hvariant
  exact ⟨variant, inner, rfl, hinner⟩

end Shape

end RecordTables
