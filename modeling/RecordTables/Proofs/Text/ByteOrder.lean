import RecordTables.Proofs.Record.Scalars
import RecordTables.Schema.Ascending

/-!
# The order of texts and of their bytes

Texts are ordered by their code points.  `bytesBefore_iff` says that this is the order of their UTF-8 bytes, in which
sorted maps and the engine keep them.
-/

namespace RecordTables

open String (utf8EncodeChar)

/-! ## Characters -/

theorem byte_lt {m n : Nat} (hm : m < 256) (hn : n < 256) : UInt8.ofNat m < UInt8.ofNat n ↔ m < n := by
  rw [UInt8.lt_iff_toNat_lt, UInt8.toNat_ofNat_of_lt' hm, UInt8.toNat_ofNat_of_lt' hn]

theorem byte_inj {m n : Nat} (hm : m < 256) (hn : n < 256) : UInt8.ofNat m = UInt8.ofNat n ↔ m = n := by
  rw [← UInt8.toNat_inj, UInt8.toNat_ofNat_of_lt' hm, UInt8.toNat_ofNat_of_lt' hn]

theorem toNat_lt_codePoints (c : Char) : c.toNat < 0x110000 := by
  have hvalid : c.toNat < 0xd800 ∨ 0xdfff < c.toNat ∧ c.toNat < 0x110000 := c.valid
  omega

/-- The forms of a character: its code point in digits of six bits, the first of which is marked with the length of the
form. -/
theorem utf8EncodeChar_cases (c : Char) :
    (c.toNat < 0x80 ∧ utf8EncodeChar c = [.ofNat c.toNat]) ∨
    ((0x80 ≤ c.toNat ∧ c.toNat < 0x800) ∧
      utf8EncodeChar c = [.ofNat (c.toNat / 64 + 192), .ofNat (c.toNat % 64 + 128)]) ∨
    ((0x800 ≤ c.toNat ∧ c.toNat < 0x10000) ∧ utf8EncodeChar c =
      [.ofNat (c.toNat / 4096 + 224), .ofNat (c.toNat / 64 % 64 + 128), .ofNat (c.toNat % 64 + 128)]) ∨
    ((0x10000 ≤ c.toNat ∧ c.toNat < 0x110000) ∧ utf8EncodeChar c =
      [.ofNat (c.toNat / 262144 + 240), .ofNat (c.toNat / 4096 % 64 + 128), .ofNat (c.toNat / 64 % 64 + 128),
        .ofNat (c.toNat % 64 + 128)]) := by
  have hmax := toNat_lt_codePoints c
  rw [utf8EncodeChar, Char.toNat_val]
  split
  · exact .inl ⟨by omega, rfl⟩
  · split
    · rw [Nat.mod_eq_of_lt (show c.toNat / 64 < 32 by omega)]
      exact .inr (.inl ⟨by omega, rfl⟩)
    · split
      · rw [Nat.mod_eq_of_lt (show c.toNat / 4096 < 16 by omega)]
        exact .inr (.inr (.inl ⟨by omega, rfl⟩))
      · rw [Nat.mod_eq_of_lt (show c.toNat / 262144 < 8 by omega)]
        exact .inr (.inr (.inr ⟨by omega, rfl⟩))

/-- The form of a smaller character is before that of a greater one, whatever follows them. -/
theorem utf8EncodeChar_append_lt {c d : Char} (h : c < d) (before after : List UInt8) :
    utf8EncodeChar c ++ before < utf8EncodeChar d ++ after := by
  have hlt : c.toNat < d.toNat := UInt32.lt_iff_toNat_lt.1 (Char.lt_def.1 h)
  -- A longer form starts with a greater byte; of two forms of one length, the first digits that differ decide.
  rcases utf8EncodeChar_cases c with ⟨hc, hform⟩ | ⟨hc, hform⟩ | ⟨hc, hform⟩ | ⟨hc, hform⟩ <;>
    rcases utf8EncodeChar_cases d with ⟨hd, hform'⟩ | ⟨hd, hform'⟩ | ⟨hd, hform'⟩ | ⟨hd, hform'⟩ <;>
    rw [hform, hform'] <;>
    simp (disch := omega) only [List.cons_append, List.nil_append, List.cons_lt_cons_iff, byte_lt, byte_inj] <;>
    omega

theorem utf8EncodeChar_ne_nil (c : Char) : utf8EncodeChar c ≠ [] := by
  rcases utf8EncodeChar_cases c with ⟨-, hform⟩ | ⟨-, hform⟩ | ⟨-, hform⟩ | ⟨-, hform⟩ <;> simp [hform]

/-! ## Texts -/

theorem flatMap_utf8EncodeChar_lt {before after : List Char} (h : before < after) :
    before.flatMap utf8EncodeChar < after.flatMap utf8EncodeChar := by
  induction h with
  | nil =>
      rename_i d after
      rw [List.flatMap_nil, List.flatMap_cons]
      cases hform : utf8EncodeChar d with
      | nil => exact absurd hform (utf8EncodeChar_ne_nil d)
      | cons byte bytes => exact List.nil_lt_cons ..
  | cons _ ih =>
      rw [List.flatMap_cons, List.flatMap_cons]
      exact List.append_left_lt ih
  | rel h =>
      rw [List.flatMap_cons, List.flatMap_cons]
      exact utf8EncodeChar_append_lt h ..

theorem toList_toUTF8 (s : String) : s.toUTF8.toList = s.toList.flatMap utf8EncodeChar := by
  rw [toList_eq_data]
  show s.toByteArray.data.toList = _
  rw [← String.utf8Encode_toList, List.utf8Encode, List.toList_data_toByteArray]

/-- The order of texts by their UTF-8 bytes. -/
def BytesBefore (a b : String) : Prop := a.toUTF8.toList < b.toUTF8.toList

theorem bytesBefore_of_lt {a b : String} (h : a < b) : BytesBefore a b := by
  rw [BytesBefore, toList_toUTF8, toList_toUTF8]
  exact flatMap_utf8EncodeChar_lt h

/-- The order of texts is that of their bytes. -/
theorem bytesBefore_iff {a b : String} : BytesBefore a b ↔ a < b := by
  refine ⟨fun h => Decidable.byContradiction fun hnot => ?_, bytesBefore_of_lt⟩
  by_cases heq : a = b
  · subst heq
    exact List.lt_irrefl _ h
  · exact List.lt_asymm h (bytesBefore_of_lt (lt_of_not_lt_of_ne hnot heq))

end RecordTables
