import Mathlib.Data.List.TakeWhile
import RecordTables.Number.Text
import RecordTables.Text.Blank

/-!
# Integers spelled in digits

A text spells an integer in decimal digits, with a sign or without, and white space may stand around it.
`readInteger?` reads such a text and no other one.
-/

namespace RecordTables

/-- Digits, at least one, that spell a natural number. -/
structure Digits (digits : List Char) (k : Nat) : Prop where
  nonempty : digits ≠ []
  decimal : ∀ c ∈ digits, c.isDigit = true
  value : Nat.ofDigitChars 10 digits 0 = k

/-- Digits behind an optional sign. -/
inductive Spells : List Char → Int → Prop
  | unsigned {digits : List Char} {k : Nat} (h : Digits digits k) : Spells digits k
  | positive {digits : List Char} {k : Nat} (h : Digits digits k) : Spells ('+' :: digits) k
  | negative {digits : List Char} {k : Nat} (h : Digits digits k) : Spells ('-' :: digits) (-k)

/-- An integer spelled with white space around it. -/
def SpellsWithin (cs : List Char) (n : Int) : Prop :=
  ∃ before numeral after, cs = before ++ numeral ++ after ∧ (∀ c ∈ before ++ after, Text.isBlank c = true) ∧
    Spells numeral n

/-! ## Reading -/

theorem digits_iff {digits : List Char} {k : Nat} :
    Digits digits k ↔ (digits.isEmpty || !digits.all Char.isDigit) = false ∧ digitsValue 0 digits = k := by
  have hvalue : digitsValue 0 digits = Nat.ofDigitChars 10 digits 0 := Nat.ofDigitChars_eq_foldl.symm
  rw [hvalue]
  constructor
  · rintro ⟨hne, hdecimal, hk⟩
    exact ⟨by simpa [hne] using hdecimal, hk⟩
  · rintro ⟨h, hk⟩
    simp only [Bool.or_eq_false_iff, Bool.not_eq_false', List.all_eq_true, List.isEmpty_eq_false_iff] at h
    exact ⟨h.1, h.2, hk⟩

/-- A sign is split off, or there is none. -/
theorem splitSign_cases (cs : List Char) :
    splitSign cs = (false, cs) ∨ (∃ rest, cs = '+' :: rest ∧ splitSign cs = (false, rest)) ∨
      ∃ rest, cs = '-' :: rest ∧ splitSign cs = (true, rest) := by
  unfold splitSign
  split
  · exact .inr (.inr ⟨_, rfl, rfl⟩)
  · exact .inr (.inl ⟨_, rfl, rfl⟩)
  · exact .inl rfl

/-- Digits do not start with a sign. -/
theorem splitSign_of_digits {digits : List Char} {k : Nat} (h : Digits digits k) :
    splitSign digits = (false, digits) := by
  rcases splitSign_cases digits with hnone | ⟨rest, rfl, -⟩ | ⟨rest, rfl, -⟩
  · exact hnone
  · exact absurd (h.decimal '+' (List.mem_cons_self ..)) (by decide)
  · exact absurd (h.decimal '-' (List.mem_cons_self ..)) (by decide)

/-- What is read is the number of the digits behind the sign. -/
theorem readInteger?_eq_some_iff_digits {cs digits : List Char} {negative : Bool} {n : Int}
    (hsplit : splitSign cs = (negative, digits)) :
    readInteger? cs = some n ↔ ∃ k, Digits digits k ∧ (if negative then -k else k : Int) = n := by
  unfold readInteger?
  rw [hsplit]
  simp only [Option.ite_none_left_eq_some, Option.some.injEq, Bool.not_eq_true, digits_iff]
  constructor
  · rintro ⟨hdigits, hn⟩
    exact ⟨_, ⟨hdigits, rfl⟩, hn⟩
  · rintro ⟨k, ⟨hdigits, rfl⟩, hn⟩
    exact ⟨hdigits, hn⟩

/-- A text is read as an integer exactly if it spells this integer. -/
theorem readInteger?_eq_some_iff {cs : List Char} {n : Int} : readInteger? cs = some n ↔ Spells cs n := by
  constructor
  · intro h
    rcases splitSign_cases cs with hsplit | ⟨rest, rfl, hsplit⟩ | ⟨rest, rfl, hsplit⟩
    · obtain ⟨k, hdigits, rfl⟩ := (readInteger?_eq_some_iff_digits hsplit).1 h
      exact .unsigned hdigits
    · obtain ⟨k, hdigits, rfl⟩ := (readInteger?_eq_some_iff_digits hsplit).1 h
      exact .positive hdigits
    · obtain ⟨k, hdigits, rfl⟩ := (readInteger?_eq_some_iff_digits hsplit).1 h
      exact .negative hdigits
  · intro h
    cases h with
    | unsigned h => exact (readInteger?_eq_some_iff_digits (splitSign_of_digits h)).2 ⟨_, h, rfl⟩
    | positive h => exact (readInteger?_eq_some_iff_digits rfl).2 ⟨_, h, rfl⟩
    | negative h => exact (readInteger?_eq_some_iff_digits rfl).2 ⟨_, h, rfl⟩

/-! ## White space -/

namespace Text

/-- The text without the white space, and the white space that was around it. -/
theorem exists_trimBlank (cs : List Char) :
    ∃ before after, cs = before ++ trimBlank cs ++ after ∧ ∀ c ∈ before ++ after, isBlank c = true := by
  refine ⟨cs.takeWhile isBlank, ((cs.dropWhile isBlank).reverse.takeWhile isBlank).reverse, ?_, ?_⟩
  · rw [trimBlank, List.append_assoc, ← List.reverse_append, List.takeWhile_append_dropWhile, List.reverse_reverse,
      List.takeWhile_append_dropWhile]
  · intro c hc
    rw [List.mem_append, List.mem_reverse] at hc
    rcases hc with hc | hc <;> exact List.mem_takeWhile_imp hc

/-- White space in front of something else is what is dropped. -/
theorem dropWhile_blank_append {before cs more : List Char} (hbefore : ∀ c ∈ before, isBlank c = true)
    (hne : cs ≠ []) (hcs : ∀ c ∈ cs, isBlank c = false) :
    (before ++ (cs ++ more)).dropWhile isBlank = cs ++ more := by
  rw [List.dropWhile_append_of_pos hbefore]
  cases cs with
  | nil => exact absurd rfl hne
  | cons c rest => exact List.dropWhile_cons_of_neg (by simp [hcs c (List.mem_cons_self ..)])

/-- White space around a text that has none is taken off. -/
theorem trimBlank_append {before cs after : List Char} (h : ∀ c ∈ before ++ after, isBlank c = true)
    (hne : cs ≠ []) (hcs : ∀ c ∈ cs, isBlank c = false) : trimBlank (before ++ cs ++ after) = cs := by
  have hback := @dropWhile_blank_append after.reverse cs.reverse []
    (fun c hc => h c (List.mem_append_right _ (List.mem_reverse.1 hc))) (by simpa using hne)
    (fun c hc => hcs c (List.mem_reverse.1 hc))
  rw [List.append_nil] at hback
  rw [trimBlank, List.append_assoc, dropWhile_blank_append (fun c hc => h c (List.mem_append_left _ hc)) hne hcs,
    List.reverse_append, hback, List.reverse_reverse]

theorem isBlank_of_isDigit {c : Char} (h : c.isDigit = true) : isBlank c = false := by
  simp only [Char.isDigit, Bool.and_eq_true, decide_eq_true_eq, UInt32.le_iff_toNat_le] at h
  have hlow : 48 ≤ c.toNat := h.1
  have hhigh : c.toNat ≤ 57 := h.2
  simp only [isBlank, Bool.or_eq_false_iff, Bool.and_eq_false_iff, beq_eq_false_iff_ne, decide_eq_false_iff_not]
  omega

end Text

/-- There is no white space within a spelled integer. -/
theorem Spells.isBlank {cs : List Char} {n : Int} (h : Spells cs n) :
    cs ≠ [] ∧ ∀ c ∈ cs, Text.isBlank c = false := by
  cases h with
  | unsigned h => exact ⟨h.nonempty, fun c hc => Text.isBlank_of_isDigit (h.decimal c hc)⟩
  | positive h =>
      refine ⟨List.cons_ne_nil _ _, List.forall_mem_cons.2 ⟨by decide, ?_⟩⟩
      exact fun c hc => Text.isBlank_of_isDigit (h.decimal c hc)
  | negative h =>
      refine ⟨List.cons_ne_nil _ _, List.forall_mem_cons.2 ⟨by decide, ?_⟩⟩
      exact fun c hc => Text.isBlank_of_isDigit (h.decimal c hc)

/-- Without the white space around it, a text is read as an integer exactly if it spells this integer within. -/
theorem readInteger?_trimBlank_eq_some_iff {cs : List Char} {n : Int} :
    readInteger? (Text.trimBlank cs) = some n ↔ SpellsWithin cs n := by
  rw [readInteger?_eq_some_iff]
  constructor
  · intro h
    obtain ⟨before, after, hcs, hblank⟩ := Text.exists_trimBlank cs
    exact ⟨before, _, after, hcs, hblank, h⟩
  · rintro ⟨before, numeral, after, rfl, hblank, h⟩
    rwa [Text.trimBlank_append hblank h.isBlank.1 h.isBlank.2]

end RecordTables
