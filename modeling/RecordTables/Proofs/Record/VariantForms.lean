import RecordTables.Gallery.Fields
import RecordTables.Proofs.Json.Grammar
import RecordTables.Proofs.Record.Choices
import RecordTables.Proofs.Record.Presented

/-!
# Bare names and documents of variants

A column that holds the name of a variant is read by this name, before anything else is tried, and any other text is
read as a document.  The two ways do not contradict each other: the name and the string of the name mean the same, and
what is no name means what its document means.
-/

namespace RecordTables.Shape

open RecordTables.Json
open RecordTables.Text (Symbol)

/-- A text holds one document, and nothing but blanks around it. -/
def HoldsDocument (t : String) (doc : Document) : Prop :=
  ∃ before text after, Symbol.ofString t = before ++ (text ++ after) ∧ Blanks before ∧ Blanks after ∧
    DocumentText text doc

/-- A text holds a string of the given text. -/
def HoldsString (t s : String) : Prop :=
  ∃ pieces, HoldsDocument t (.string pieces) ∧ Piece.text? pieces = some s

theorem holdsDocument_iff {t : String} {doc : Document} :
    HoldsDocument t doc ↔ Document.parse? (Symbol.ofString t) = some doc :=
  parse_eq_some_iff.symm

/-- A text is written as a string of it. -/
theorem holdsString_literal (s : String) : HoldsString (Document.string (Piece.ofString s)).text s := by
  refine ⟨Piece.ofString s, holdsDocument_iff.2 (parse_text ?_), text_ofString s⟩
  rw [Document.Written, Document.Spells]
  exact ⟨s, rfl⟩

variable {around : Shape} {name : TypeName} {variants : List (String × Payload)} {column : String} {d : Datum}

theorem decodeField_variantName {variant : String} {payload : Payload}
    (hvariant : variants.lookup variant = some payload) :
    decodeField around ⟨column, .text variant⟩ (.choice name variants) = .ok d ↔
      payload = .unit ∧ d = .unitVariant variant := by
  rw [decodeField_choice, hvariant]
  exact decodeBareVariant_ok

theorem decodeField_otherText {t : String} (ht : t ∉ variants.map Prod.fst) :
    decodeField around ⟨column, .text t⟩ (.choice name variants) = .ok d ↔
      ∃ doc, HoldsDocument t doc ∧ ReadsVariant (maxLevels - 1) around name variants doc d := by
  rw [decodeField_choice, lookup_eq_none_of_not_mem ht]
  refine Cell.document_text_ok.trans (exists_congr fun doc => ?_)
  rw [holdsDocument_iff, readIn_choice_iff]

/-- A string of the name of a variant means what the name means. -/
theorem decodeField_holdsString {variant t : String} {payload : Payload}
    (hvariant : variants.lookup variant = some payload) (ht : t ∉ variants.map Prod.fst)
    (hstring : HoldsString t variant) :
    decodeField around ⟨column, .text variant⟩ (.choice name variants) = .ok d ↔
      decodeField around ⟨column, .text t⟩ (.choice name variants) = .ok d := by
  obtain ⟨pieces, hdocument, htext⟩ := hstring
  rw [decodeField_variantName hvariant, decodeField_otherText ht]
  constructor
  · rintro ⟨rfl, rfl⟩
    exact ⟨_, hdocument, .bare htext hvariant⟩
  · rintro ⟨doc, hdoc, hreads⟩
    -- The text holds one document only, which is the string.
    rw [holdsDocument_iff] at hdoc hdocument
    rw [hdocument] at hdoc
    cases hdoc
    cases hreads with
    | bare hname hunit =>
        rw [htext] at hname
        cases hname
        rw [hvariant] at hunit
        exact ⟨Option.some.inj hunit, rfl⟩

/-- What a column of text means for a type with variants. -/
structure VariantForms (around : Shape) (column : String) (name : TypeName) (variants : List (String × Payload)) :
    Prop where
  /-- The bare name of a variant is read exactly if the variant carries nothing, and then as the variant. -/
  bare : ∀ variant payload, (variant, payload) ∈ variants → ∀ d,
    decodeField around ⟨column, .text variant⟩ (.choice name variants) = .ok d ↔
      payload = .unit ∧ d = .unitVariant variant
  /-- The literal of the name means the same, unless it is a name of its own. -/
  literal : ∀ variant ∈ variants.map Prod.fst,
    (Document.string (Piece.ofString variant)).text ∉ variants.map Prod.fst → ∀ d,
      decodeField around ⟨column, .text variant⟩ (.choice name variants) = .ok d ↔
        decodeField around ⟨column, .text (Document.string (Piece.ofString variant)).text⟩ (.choice name variants) = .ok d
  /-- So does every other string of the name, however it is written. -/
  spelled : ∀ variant ∈ variants.map Prod.fst, ∀ t ∉ variants.map Prod.fst, HoldsString t variant → ∀ d,
    decodeField around ⟨column, .text variant⟩ (.choice name variants) = .ok d ↔
      decodeField around ⟨column, .text t⟩ (.choice name variants) = .ok d
  /-- A text that is no name is read exactly if it holds one document and that stands for a variant. -/
  document : ∀ t ∉ variants.map Prod.fst, ∀ d,
    decodeField around ⟨column, .text t⟩ (.choice name variants) = .ok d ↔
      ∃ doc, HoldsDocument t doc ∧ ReadsVariant (maxLevels - 1) around name variants doc d

/-- **Bare names and documents of variants never contradict each other.** -/
theorem variantForms (around : Shape) (column : String) (name : TypeName) {variants : List (String × Payload)}
    (hnodup : (variants.map Prod.fst).Nodup) : VariantForms around column name variants := by
  have hlookup : ∀ variant ∈ variants.map Prod.fst, ∃ payload, variants.lookup variant = some payload := by
    intro variant hvariant
    obtain ⟨⟨_, payload⟩, hmem, rfl⟩ := List.mem_map.1 hvariant
    exact ⟨payload, lookup_of_mem hnodup hmem⟩
  constructor
  case bare => exact fun variant payload hmem d => decodeField_variantName (lookup_of_mem hnodup hmem)
  case literal =>
    intro variant hvariant hliteral d
    obtain ⟨payload, hpayload⟩ := hlookup variant hvariant
    exact decodeField_holdsString hpayload hliteral (holdsString_literal variant)
  case spelled =>
    intro variant hvariant t ht hstring d
    obtain ⟨payload, hpayload⟩ := hlookup variant hvariant
    exact decodeField_holdsString hpayload ht hstring
  case document => exact fun t ht d => decodeField_otherText ht

/-- A name with a quote in it is read as such and as the literal in which the quote is escaped. -/
theorem variantForms_quoted :
    ([("a\"b", Payload.unit), ("Custom", .newtype (.int Gallery.u8))].map Prod.fst).Nodup ∧
      decodeField .bool ⟨"v", .text "a\"b"⟩
        (.choice (.simple "Quoted") [("a\"b", .unit), ("Custom", .newtype (.int Gallery.u8))]) =
          .ok (.unitVariant "a\"b") ∧
      decodeField .bool ⟨"v", .text (Document.string (Piece.ofString "a\"b")).text⟩
        (.choice (.simple "Quoted") [("a\"b", .unit), ("Custom", .newtype (.int Gallery.u8))]) =
          .ok (.unitVariant "a\"b") := by
  have hnodup : ([("a\"b", Payload.unit), ("Custom", .newtype (.int Gallery.u8))].map Prod.fst).Nodup := by
    simp
  have hforms := variantForms .bool "v" (.simple "Quoted") hnodup
  have hbare := (hforms.bare "a\"b" .unit (by simp) (.unitVariant "a\"b")).2 ⟨rfl, rfl⟩
  exact ⟨hnodup, hbare, (hforms.literal "a\"b" (by simp) (by decide) _).1 hbare⟩

end RecordTables.Shape
