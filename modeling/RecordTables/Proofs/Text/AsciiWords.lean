import Mathlib.Data.List.Infix
import RecordTables.Proofs.Text.ByteOrder

/-!
# Words of ASCII among bytes

A word of ASCII occurs in a text exactly if its bytes occur among those of the text: no byte of it can belong to another
character.
-/

namespace RecordTables

open String (utf8EncodeChar)

theorem utf8EncodeChar_of_ascii {c : Char} (h : c.toNat < 0x80) : utf8EncodeChar c = [.ofNat c.toNat] := by
  rcases utf8EncodeChar_cases c with ⟨-, hform⟩ | ⟨hc, -⟩ | ⟨hc, -⟩ | ⟨hc, -⟩
  · exact hform
  all_goals omega

/-- The bytes of a longer form have their highest bit set, so none of them is that of a character of ASCII. -/
theorem ne_of_mem_utf8EncodeChar {w c : Char} (hw : w.toNat < 0x80) (h : ¬ c.toNat < 0x80) {b : UInt8}
    (hb : b ∈ utf8EncodeChar c) : UInt8.ofNat w.toNat ≠ b := by
  have hdigit : ∀ n, n < 256 → 0x80 ≤ n → b = UInt8.ofNat n → UInt8.ofNat w.toNat ≠ b := by
    rintro n hn hle rfl
    rw [ne_eq, byte_inj (by omega) hn]
    omega
  rcases utf8EncodeChar_cases c with ⟨hc, -⟩ | ⟨hc, hform⟩ | ⟨hc, hform⟩ | ⟨hc, hform⟩
  · exact absurd hc h
  all_goals
    rw [hform] at hb
    simp only [List.mem_cons, List.not_mem_nil, or_false] at hb
  · rcases hb with hb | hb <;> exact hdigit _ (by omega) (by omega) hb
  · rcases hb with hb | hb | hb <;> exact hdigit _ (by omega) (by omega) hb
  · rcases hb with hb | hb | hb | hb <;> exact hdigit _ (by omega) (by omega) hb

/-- A list does not begin within another one with which it has nothing in common. -/
theorem infix_append_of_disjoint {α : Type} {word before after : List α} (hne : word ≠ [])
    (h : word.Disjoint before) : word <:+: before ++ after ↔ word <:+: after := by
  induction before with
  | nil => rw [List.nil_append]
  | cons a before ih =>
      obtain ⟨ha, hbefore⟩ := List.disjoint_cons_right.1 h
      have hfront : ¬ word <+: a :: (before ++ after) := by
        rw [List.prefix_cons_iff]
        rintro (hnil | ⟨rest, rfl, -⟩)
        · exact hne hnil
        · exact ha (List.mem_cons_self ..)
      rw [List.cons_append, List.infix_cons_iff, or_iff_right hfront, ih hbefore]

section Ascii

variable {word : List Char} (hword : ∀ c ∈ word, c.toNat < 0x80)

include hword

theorem disjoint_utf8EncodeChar {c : Char} (hc : ¬ c.toNat < 0x80) :
    (word.flatMap utf8EncodeChar).Disjoint (utf8EncodeChar c) := by
  intro b hb hform
  obtain ⟨w, hw, hb⟩ := List.mem_flatMap.1 hb
  rw [utf8EncodeChar_of_ascii (hword w hw), List.mem_singleton] at hb
  exact ne_of_mem_utf8EncodeChar (hword w hw) hc hform hb.symm

theorem prefix_flatMap_utf8EncodeChar {text : List Char} :
    word.flatMap utf8EncodeChar <+: text.flatMap utf8EncodeChar ↔ word <+: text := by
  induction word generalizing text with
  | nil => simp
  | cons w word ih =>
      obtain ⟨hw, hrest⟩ := List.forall_mem_cons.1 hword
      cases text with
      | nil => simp [utf8EncodeChar_of_ascii hw]
      | cons c text =>
          rw [List.flatMap_cons, List.flatMap_cons, utf8EncodeChar_of_ascii hw, List.cons_prefix_cons]
          by_cases hc : c.toNat < 0x80
          · rw [utf8EncodeChar_of_ascii hc, List.singleton_append, List.singleton_append, List.cons_prefix_cons,
              ih hrest, byte_inj (by omega) (by omega), Char.toNat_inj]
          · refine iff_of_false (fun h => ?_) fun h => hc (h.1 ▸ hw)
            cases hform : utf8EncodeChar c with
            | nil => exact utf8EncodeChar_ne_nil c hform
            | cons b bytes =>
                rw [hform, List.singleton_append, List.cons_append, List.cons_prefix_cons] at h
                exact ne_of_mem_utf8EncodeChar hw hc (hform ▸ List.mem_cons_self ..) h.1

/-- A word of ASCII occurs in a text exactly if its bytes do: they belong to no other character. -/
theorem infix_flatMap_utf8EncodeChar {text : List Char} (hne : word ≠ []) :
    word.flatMap utf8EncodeChar <:+: text.flatMap utf8EncodeChar ↔ word <:+: text := by
  have hbytes : word.flatMap utf8EncodeChar ≠ [] := by
    intro h
    obtain ⟨w, hw⟩ := List.exists_mem_of_ne_nil word hne
    exact utf8EncodeChar_ne_nil w (List.flatMap_eq_nil_iff.1 h w hw)
  induction text with
  | nil => simp [hne, hbytes]
  | cons c text ih =>
      have hfront := @prefix_flatMap_utf8EncodeChar word hword (c :: text)
      rw [@List.infix_cons_iff _ word, ← hfront, ih.symm, List.flatMap_cons]
      by_cases hc : c.toNat < 0x80
      · rw [utf8EncodeChar_of_ascii hc, List.singleton_append, List.infix_cons_iff]
      · have hskip := @infix_append_of_disjoint _ _ _ (text.flatMap utf8EncodeChar) hbytes
          (disjoint_utf8EncodeChar hword hc)
        rw [hskip]
        exact (or_iff_right_of_imp fun h => hskip.1 h.isInfix).symm

end Ascii

end RecordTables
