import Mathlib.Data.List.Forall2
import RecordTables.Proofs.Text.ByteOrder

/-!
# Bytes that are a text

The bytes of a character take one of nine forms, each of them a row of ranges.  A sequence of bytes is the UTF-8 of some
text exactly if it is made of such forms: longer forms than a character needs, surrogates, code points beyond the last
one and forms that break off are in no row.
-/

namespace RecordTables

open String (utf8EncodeChar)

namespace Text

/-- The forms of a character: the range of each of its bytes. -/
def forms : List (List (Nat × Nat)) :=
  [[(0x00, 0x7f)],
    [(0xc2, 0xdf), (0x80, 0xbf)],
    [(0xe0, 0xe0), (0xa0, 0xbf), (0x80, 0xbf)],
    [(0xe1, 0xec), (0x80, 0xbf), (0x80, 0xbf)],
    [(0xed, 0xed), (0x80, 0x9f), (0x80, 0xbf)],
    [(0xee, 0xef), (0x80, 0xbf), (0x80, 0xbf)],
    [(0xf0, 0xf0), (0x90, 0xbf), (0x80, 0xbf), (0x80, 0xbf)],
    [(0xf1, 0xf3), (0x80, 0xbf), (0x80, 0xbf), (0x80, 0xbf)],
    [(0xf4, 0xf4), (0x80, 0x8f), (0x80, 0xbf), (0x80, 0xbf)]]

/-- Bytes that are in the ranges of a form, one by one. -/
def Fits (form : List (Nat × Nat)) (bytes : List UInt8) : Prop :=
  List.Forall₂ (fun range byte => range.1 ≤ byte.toNat ∧ byte.toNat ≤ range.2) form bytes

/-- The bytes of one character. -/
def IsForm (bytes : List UInt8) : Prop := ∃ form ∈ forms, Fits form bytes

/-- Bytes that are those of characters, one after the other. -/
def WellFormed (bytes : List UInt8) : Prop := ∃ pieces : List (List UInt8), (∀ p ∈ pieces, IsForm p) ∧ bytes = pieces.flatten

/-! ## Characters have forms -/

theorem fits_cons {low high : Nat} {byte : UInt8} {form : List (Nat × Nat)} {bytes : List UInt8} :
    Fits ((low, high) :: form) (byte :: bytes) ↔ (low ≤ byte.toNat ∧ byte.toNat ≤ high) ∧ Fits form bytes :=
  List.forall₂_cons

theorem fits_nil : Fits [] [] := .nil

theorem of_fits_cons {range : Nat × Nat} {form : List (Nat × Nat)} {bytes : List UInt8} (h : Fits (range :: form) bytes) :
    ∃ byte rest, (range.1 ≤ byte.toNat ∧ byte.toNat ≤ range.2) ∧ Fits form rest ∧ bytes = byte :: rest :=
  List.forall₂_cons_left_iff.1 h

/-- The digits of a code point stay within a byte. -/
theorem fits_digit {low high n : Nat} {form : List (Nat × Nat)} {bytes : List UInt8} (hlow : low ≤ n) (hhigh : n ≤ high)
    (hbyte : high < 256) (hrest : Fits form bytes) : Fits ((low, high) :: form) (UInt8.ofNat n :: bytes) := by
  rw [fits_cons, UInt8.toNat_ofNat_of_lt' (Nat.lt_of_le_of_lt hhigh hbyte)]
  exact ⟨⟨hlow, hhigh⟩, hrest⟩

theorem isForm_utf8EncodeChar (c : Char) : IsForm (utf8EncodeChar c) := by
  have hvalid : c.toNat < 0xd800 ∨ 0xdfff < c.toNat ∧ c.toNat < 0x110000 := c.valid
  rcases utf8EncodeChar_cases c with ⟨hn, hform⟩ | ⟨hn, hform⟩ | ⟨hn, hform⟩ | ⟨hn, hform⟩ <;> rw [hform]
  · refine ⟨[(0x00, 0x7f)], by decide, fits_digit ?_ ?_ ?_ fits_nil⟩ <;> omega
  · refine ⟨[(0xc2, 0xdf), (0x80, 0xbf)], by decide, fits_digit ?_ ?_ ?_ (fits_digit ?_ ?_ ?_ fits_nil)⟩ <;> omega
  · have hrest : Fits [(0x80, 0xbf)] [UInt8.ofNat (c.toNat % 64 + 128)] := by
      refine fits_digit ?_ ?_ ?_ fits_nil <;> omega
    -- The first byte leaves the second one free, but at the least code point of this length and at the surrogates.
    rcases (by omega : c.toNat < 0x1000 ∨ (0x1000 ≤ c.toNat ∧ c.toNat < 0xd000) ∨
      (0xd000 ≤ c.toNat ∧ c.toNat < 0xd800) ∨ 0xe000 ≤ c.toNat) with h | h | h | h
    · refine ⟨[(0xe0, 0xe0), (0xa0, 0xbf), (0x80, 0xbf)], by decide, fits_digit ?_ ?_ ?_ (fits_digit ?_ ?_ ?_ hrest)⟩ <;>
        omega
    · refine ⟨[(0xe1, 0xec), (0x80, 0xbf), (0x80, 0xbf)], by decide, fits_digit ?_ ?_ ?_ (fits_digit ?_ ?_ ?_ hrest)⟩ <;>
        omega
    · refine ⟨[(0xed, 0xed), (0x80, 0x9f), (0x80, 0xbf)], by decide, fits_digit ?_ ?_ ?_ (fits_digit ?_ ?_ ?_ hrest)⟩ <;>
        omega
    · refine ⟨[(0xee, 0xef), (0x80, 0xbf), (0x80, 0xbf)], by decide, fits_digit ?_ ?_ ?_ (fits_digit ?_ ?_ ?_ hrest)⟩ <;>
        omega
  · have hrest : Fits [(0x80, 0xbf), (0x80, 0xbf)]
        [UInt8.ofNat (c.toNat / 64 % 64 + 128), UInt8.ofNat (c.toNat % 64 + 128)] := by
      refine fits_digit ?_ ?_ ?_ (fits_digit ?_ ?_ ?_ fits_nil) <;> omega
    rcases (by omega : c.toNat < 0x40000 ∨ (0x40000 ≤ c.toNat ∧ c.toNat < 0x100000) ∨ 0x100000 ≤ c.toNat) with h | h | h
    · refine ⟨[(0xf0, 0xf0), (0x90, 0xbf), (0x80, 0xbf), (0x80, 0xbf)], by decide,
        fits_digit ?_ ?_ ?_ (fits_digit ?_ ?_ ?_ hrest)⟩ <;> omega
    · refine ⟨[(0xf1, 0xf3), (0x80, 0xbf), (0x80, 0xbf), (0x80, 0xbf)], by decide,
        fits_digit ?_ ?_ ?_ (fits_digit ?_ ?_ ?_ hrest)⟩ <;> omega
    · refine ⟨[(0xf4, 0xf4), (0x80, 0x8f), (0x80, 0xbf), (0x80, 0xbf)], by decide,
        fits_digit ?_ ?_ ?_ (fits_digit ?_ ?_ ?_ hrest)⟩ <;> omega

/-! ## Forms are characters -/

theorem exists_char {n : Nat} (h : n.isValidChar) : ∃ c : Char, c.toNat = n := by
  have hlt : n < UInt32.size := by
    have hmax : UInt32.size = 0x100000000 := rfl
    omega
  exact ⟨⟨UInt32.ofNatLT n hlt, h⟩, rfl⟩

theorem byte_eq {byte : UInt8} {n : Nat} (h : byte.toNat = n) : byte = UInt8.ofNat n := by
  rw [← h, UInt8.ofNat_toNat]

section Bytes

variable {a b c d : UInt8}

theorem char_of_one (ha : a.toNat ≤ 0x7f) : ∃ ch, [a] = utf8EncodeChar ch := by
  obtain ⟨ch, hch⟩ := exists_char (n := a.toNat) (by omega)
  refine ⟨ch, ?_⟩
  rcases utf8EncodeChar_cases ch with ⟨hn, hform⟩ | ⟨hn, -⟩ | ⟨hn, -⟩ | ⟨hn, -⟩
  · rw [hform, List.cons.injEq]
    exact ⟨byte_eq hch.symm, rfl⟩
  all_goals omega

theorem char_of_two (ha : 0xc2 ≤ a.toNat ∧ a.toNat ≤ 0xdf) (hb : 0x80 ≤ b.toNat ∧ b.toNat ≤ 0xbf) :
    ∃ ch, [a, b] = utf8EncodeChar ch := by
  obtain ⟨ch, hch⟩ := exists_char (n := (a.toNat - 192) * 64 + (b.toNat - 128)) (by omega)
  refine ⟨ch, ?_⟩
  rcases utf8EncodeChar_cases ch with ⟨hn, -⟩ | ⟨hn, hform⟩ | ⟨hn, -⟩ | ⟨hn, -⟩
  · omega
  · rw [hform]
    simp only [List.cons.injEq, and_true]
    exact ⟨byte_eq (by omega), byte_eq (by omega)⟩
  all_goals omega

/-- Three bytes that are neither a form that is too long nor a surrogate. -/
theorem char_of_three (ha : 0xe0 ≤ a.toNat ∧ a.toNat ≤ 0xef) (hb : 0x80 ≤ b.toNat ∧ b.toNat ≤ 0xbf)
    (hc : 0x80 ≤ c.toNat ∧ c.toNat ≤ 0xbf) (hlong : a.toNat = 0xe0 → 0xa0 ≤ b.toNat)
    (hsurrogate : a.toNat = 0xed → b.toNat ≤ 0x9f) : ∃ ch, [a, b, c] = utf8EncodeChar ch := by
  obtain ⟨ch, hch⟩ := exists_char
    (n := (a.toNat - 224) * 4096 + (b.toNat - 128) * 64 + (c.toNat - 128)) (by omega)
  refine ⟨ch, ?_⟩
  rcases utf8EncodeChar_cases ch with ⟨hn, -⟩ | ⟨hn, -⟩ | ⟨hn, hform⟩ | ⟨hn, -⟩
  · omega
  · omega
  · rw [hform]
    simp only [List.cons.injEq, and_true]
    exact ⟨byte_eq (by omega), byte_eq (by omega), byte_eq (by omega)⟩
  · omega

/-- Four bytes that are neither a form that is too long nor beyond the last code point. -/
theorem char_of_four (ha : 0xf0 ≤ a.toNat ∧ a.toNat ≤ 0xf4) (hb : 0x80 ≤ b.toNat ∧ b.toNat ≤ 0xbf)
    (hc : 0x80 ≤ c.toNat ∧ c.toNat ≤ 0xbf) (hd : 0x80 ≤ d.toNat ∧ d.toNat ≤ 0xbf)
    (hlong : a.toNat = 0xf0 → 0x90 ≤ b.toNat) (hbeyond : a.toNat = 0xf4 → b.toNat ≤ 0x8f) :
    ∃ ch, [a, b, c, d] = utf8EncodeChar ch := by
  obtain ⟨ch, hch⟩ := exists_char
    (n := (a.toNat - 240) * 262144 + (b.toNat - 128) * 4096 + (c.toNat - 128) * 64 + (d.toNat - 128)) (by omega)
  refine ⟨ch, ?_⟩
  rcases utf8EncodeChar_cases ch with ⟨hn, -⟩ | ⟨hn, -⟩ | ⟨hn, -⟩ | ⟨hn, hform⟩
  · omega
  · omega
  · omega
  · rw [hform]
    simp only [List.cons.injEq, and_true]
    exact ⟨byte_eq (by omega), byte_eq (by omega), byte_eq (by omega), byte_eq (by omega)⟩

end Bytes

/-- A row of three ranges is one of characters if its first two ranges keep to the code points of this length. -/
theorem char_of_fits_three {first second : Nat × Nat} {bytes : List UInt8}
    (h : Fits [first, second, (0x80, 0xbf)] bytes)
    (hrow : ∀ a b, first.1 ≤ a → a ≤ first.2 → second.1 ≤ b → b ≤ second.2 → (0xe0 ≤ a ∧ a ≤ 0xef) ∧
      (0x80 ≤ b ∧ b ≤ 0xbf) ∧ (a = 0xe0 → 0xa0 ≤ b) ∧ (a = 0xed → b ≤ 0x9f)) : ∃ ch, bytes = utf8EncodeChar ch := by
  obtain ⟨a, as, ha, has, rfl⟩ := of_fits_cons h
  obtain ⟨b, bs, hb, hbs, rfl⟩ := of_fits_cons has
  obtain ⟨c, cs, hc, hcs, rfl⟩ := of_fits_cons hbs
  cases hcs
  obtain ⟨hlead, hsecond, hlong, hsurrogate⟩ := hrow a.toNat b.toNat ha.1 ha.2 hb.1 hb.2
  exact char_of_three hlead hsecond hc hlong hsurrogate

theorem char_of_fits_four {first second : Nat × Nat} {bytes : List UInt8}
    (h : Fits [first, second, (0x80, 0xbf), (0x80, 0xbf)] bytes)
    (hrow : ∀ a b, first.1 ≤ a → a ≤ first.2 → second.1 ≤ b → b ≤ second.2 → (0xf0 ≤ a ∧ a ≤ 0xf4) ∧
      (0x80 ≤ b ∧ b ≤ 0xbf) ∧ (a = 0xf0 → 0x90 ≤ b) ∧ (a = 0xf4 → b ≤ 0x8f)) : ∃ ch, bytes = utf8EncodeChar ch := by
  obtain ⟨a, as, ha, has, rfl⟩ := of_fits_cons h
  obtain ⟨b, bs, hb, hbs, rfl⟩ := of_fits_cons has
  obtain ⟨c, cs, hc, hcs, rfl⟩ := of_fits_cons hbs
  obtain ⟨d, ds, hd, hds, rfl⟩ := of_fits_cons hcs
  cases hds
  obtain ⟨hlead, hsecond, hlong, hbeyond⟩ := hrow a.toNat b.toNat ha.1 ha.2 hb.1 hb.2
  exact char_of_four hlead hsecond hc hd hlong hbeyond

theorem exists_char_of_isForm {bytes : List UInt8} (h : IsForm bytes) : ∃ c, bytes = utf8EncodeChar c := by
  obtain ⟨form, hform, hfits⟩ := h
  simp only [forms, List.mem_cons, List.not_mem_nil, or_false] at hform
  rcases hform with rfl | rfl | rfl | rfl | rfl | rfl | rfl | rfl | rfl
  · obtain ⟨a, as, ha, has, rfl⟩ := of_fits_cons hfits
    cases has
    exact char_of_one ha.2
  · obtain ⟨a, as, ha, has, rfl⟩ := of_fits_cons hfits
    obtain ⟨b, bs, hb, hbs, rfl⟩ := of_fits_cons has
    cases hbs
    exact char_of_two ha hb
  iterate 4
    exact char_of_fits_three hfits fun a b _ _ _ _ => by omega
  iterate 3
    exact char_of_fits_four hfits fun a b _ _ _ _ => by omega

theorem isForm_iff {bytes : List UInt8} : IsForm bytes ↔ ∃ c, bytes = utf8EncodeChar c := by
  constructor
  · exact exists_char_of_isForm
  · rintro ⟨c, rfl⟩
    exact isForm_utf8EncodeChar c

/-- Bytes are made of forms exactly if they are the bytes of some characters. -/
theorem wellFormed_iff {bytes : List UInt8} : WellFormed bytes ↔ ∃ cs : List Char, bytes = cs.flatMap utf8EncodeChar := by
  constructor
  · rintro ⟨pieces, hpieces, rfl⟩
    induction pieces with
    | nil => exact ⟨[], rfl⟩
    | cons p rest ih =>
        rw [List.forall_mem_cons] at hpieces
        obtain ⟨c, rfl⟩ := isForm_iff.1 hpieces.1
        obtain ⟨cs, hcs⟩ := ih hpieces.2
        exact ⟨c :: cs, by rw [List.flatten_cons, hcs, List.flatMap_cons]⟩
  · rintro ⟨cs, rfl⟩
    exact ⟨cs.map utf8EncodeChar, List.forall_mem_map.2 fun c _ => isForm_utf8EncodeChar c, List.flatMap_def⟩

theorem isValidUTF8_iff {bytes : ByteArray} : bytes.IsValidUTF8 ↔ WellFormed bytes.toList := by
  rw [wellFormed_iff]
  constructor
  · rintro ⟨cs, rfl⟩
    exact ⟨cs, by rw [toList_eq_data, List.utf8Encode, List.toList_data_toByteArray]⟩
  · rintro ⟨cs, h⟩
    refine ⟨cs, ?_⟩
    rw [List.utf8Encode, ← h]
    apply ByteArray.ext
    rw [← Array.toList_inj, List.toList_data_toByteArray, toList_eq_data]

end Text

open Text (WellFormed isValidUTF8_iff)

/-! ## Values on their way to the store and back -/

namespace StoredValue

/-- What a stored value is made of, its storage class apart. -/
inductive Content where
  | nothing
  | integer (n : Int64)
  | pattern (bits : UInt64)
  | bytes (content : ByteArray)

def content : StoredValue → Content
  | .null => .nothing
  | .int n => .integer n
  | .real x => .pattern x.bits
  | .text bytes => .bytes bytes
  | .blob bytes => .bytes bytes

/-- The storage class of a stored value; `null` has none. -/
def columnType? : StoredValue → Option ColumnType
  | .null => none
  | .int _ => some .integer
  | .real _ => some .real
  | .text _ => some .text
  | .blob _ => some .blob

/-- What is left of a stored value that is read and handed over again. -/
structure Kept (before after : StoredValue) : Prop where
  content : after.content = before.content
  columnType : (∀ bytes, before = .text bytes → WellFormed bytes.toList) → after.columnType? = before.columnType?
  /-- Only a text can change its class: if its bytes are those of no text, and then it is a blob. -/
  blob : ∀ bytes, before = .text bytes → (after.columnType? = some .blob ↔ ¬ WellFormed bytes.toList)

end StoredValue

namespace Value

/-- Bytes that are a text are read as this text, and all others as a blob. -/
theorem ofStored_text (bytes : ByteArray) :
    (WellFormed bytes.toList ∧ ∃ s : String, s.toUTF8 = bytes ∧ ofStored (.text bytes) = .text s) ∨
      ¬ WellFormed bytes.toList ∧ ofStored (.text bytes) = .blob bytes := by
  rw [← isValidUTF8_iff]
  by_cases h : bytes.IsValidUTF8
  · refine .inl ⟨h, String.fromUTF8 bytes h, rfl, ?_⟩
    simp only [ofStored, String.fromUTF8?, dif_pos h]
  · refine .inr ⟨h, ?_⟩
    simp only [ofStored, String.fromUTF8?, dif_neg h]

theorem kept_toStored_ofStored (r : StoredValue) : r.Kept (ofStored r).toStored := by
  cases r with
  | text bytes =>
      rcases ofStored_text bytes with ⟨hwell, s, hs, hread⟩ | ⟨hill, hread⟩ <;> rw [hread]
      · refine ⟨congrArg StoredValue.Content.bytes hs, fun _ => rfl, ?_⟩
        rintro _ ⟨⟩
        simp [toStored, StoredValue.columnType?, hwell]
      · refine ⟨rfl, fun hall => absurd (hall bytes rfl) hill, ?_⟩
        rintro _ ⟨⟩
        simp [toStored, StoredValue.columnType?, hill]
  | _ => exact ⟨rfl, fun _ => rfl, fun _ h => by cases h⟩

/-- Nothing is lost between values and the store.  A value that is handed over and read again is the value, and a stored
value that is read and handed over again has the same integer, bits or bytes; a text is read as the text that has its
bytes, if there is one. -/
theorem crosses_unaltered :
    (∀ v : Value, ofStored v.toStored = v ∧ v.toStored.columnType? = v.columnType?) ∧
      (∀ r : StoredValue, r.Kept (ofStored r).toStored) ∧
      ∀ bytes s, ofStored (.text bytes) = .text s ↔ s.toUTF8 = bytes := by
  refine ⟨fun v => ⟨ofStored_toStored v, ?_⟩, kept_toStored_ofStored, fun bytes s => ⟨fun h => ?_, ?_⟩⟩
  · cases v <;> rfl
  · rcases ofStored_text bytes with ⟨-, s', hs, hread⟩ | ⟨-, hread⟩
    · rw [h] at hread
      cases hread
      exact hs
    · rw [h] at hread
      cases hread
  · rintro rfl
    exact ofStored_toStored (.text s)

/-- A form that is too long, a surrogate and a form that breaks off are no text. -/
example : [⟨#[0xc0, 0x80]⟩, ⟨#[0xed, 0xa0, 0x80]⟩, ⟨#[0x61, 0xe2, 0x82]⟩].map (fun b => ofStored (.text b)) =
    [.blob ⟨#[0xc0, 0x80]⟩, .blob ⟨#[0xed, 0xa0, 0x80]⟩, .blob ⟨#[0x61, 0xe2, 0x82]⟩] := by
  decide

end Value

end RecordTables
