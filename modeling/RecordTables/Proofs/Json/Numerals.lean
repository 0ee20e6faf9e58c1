import RecordTables.Json.Reader
import RecordTables.Proofs.Json.Strings
import RecordTables.Proofs.Number.Digits

/-!
# Numerals read back

A numeral is its sign, its whole digits, the digits behind its point and its exponent.  Reading takes it apart again,
and leaves off exactly where it ends if what follows is nothing or what may follow an item or an entry.
-/

namespace RecordTables.Json

open RecordTables.Text (Symbol)

/-- What does not continue a number: nothing, or what follows an item or an entry. -/
def Stops (rest : List Symbol) : Prop :=
  ∀ s, rest.head? = some s → s = .char ',' ∨ s = .char ']' ∨ s = .char '\x7d'

theorem stops_nil : Stops [] := fun _ h => by simp at h

/-- What does not start with a digit. -/
def NoDigit (rest : List Symbol) : Prop := ∀ c tail, rest = .char c :: tail → c.isDigit = false

theorem Stops.noDigit {rest : List Symbol} (h : Stops rest) : NoDigit rest := by
  intro c tail he
  rcases h (.char c) (by rw [he]; rfl) with h | h | h <;> cases h <;> decide

theorem splitDigits_append {digits : List Char} (hdigits : ∀ c ∈ digits, c.isDigit = true) {rest : List Symbol}
    (hrest : NoDigit rest) : splitDigits (symbols digits ++ rest) = (digits, rest) := by
  induction digits with
  | nil =>
      cases rest with
      | nil => rfl
      | cons s tail =>
          cases s with
          | char c => simp [splitDigits, hrest c tail rfl]
          | stray b => rfl
  | cons d digits ih =>
      have hd : d.isDigit = true := hdigits d (List.mem_cons_self ..)
      have htail := ih fun c hc => hdigits c (List.mem_cons_of_mem _ hc)
      simp [splitDigits, hd, htail]

/-- A number is its sign, its digits, a fraction and an exponent. -/
theorem readNumber_steps (input : List Symbol) :
    readNumber? input = (do
      let digits := splitDigits (splitMinus input).2
      guard (!digits.1.isEmpty && (digits.1.length == 1 || digits.1.head? != some '0'))
      let fraction ← readFraction? digits.2
      let exponent ← readExponent? fraction.2
      some (numberOf (splitMinus input).1 digits.1 fraction.1 exponent.1, exponent.2)) := rfl

/-- The parts of an unsigned numeral. -/
structure Parts where
  whole : List Char
  fraction : Option (List Char)
  exponent : Option Int

namespace Parts

/-- A point and the digits behind it, if there are any. -/
def fractionChars (p : Parts) : List Char :=
  match p.fraction with
  | some digits => '.' :: digits
  | none => []

/-- The exponent with its sign, if there is one. -/
def exponentChars (p : Parts) : List Char :=
  match p.exponent with
  | some e => 'e' :: (if e < 0 then '-' else '+') :: Nat.toDigits 10 e.natAbs
  | none => []

/-- The characters of a numeral. -/
def chars (p : Parts) : List Char := p.whole ++ p.fractionChars ++ p.exponentChars

/-- A numeral has digits before its point, none of them a leading zero, and digits behind its point if there is one. -/
structure WellFormed (p : Parts) : Prop where
  digits : ∀ c ∈ p.whole, c.isDigit = true
  nonempty : p.whole ≠ []
  lead : p.whole.length = 1 ∨ p.whole.head? ≠ some '0'
  fraction : ∀ digits, p.fraction = some digits → digits ≠ [] ∧ ∀ c ∈ digits, c.isDigit = true

variable {p : Parts} {rest : List Symbol}

theorem readExponent_chars (hrest : Stops rest) :
    readExponent? (symbols p.exponentChars ++ rest) = some (p.exponent, rest) := by
  unfold exponentChars
  cases p.exponent with
  | none =>
      cases rest with
      | nil => rfl
      | cons s tail => rcases hrest s rfl with rfl | rfl | rfl <;> rfl
  | some e =>
      have hsplit := splitDigits_append (all_isDigit_toDigits e.natAbs) hrest.noDigit
      by_cases he : e < 0
      · obtain ⟨k, rfl⟩ : ∃ k : Nat, e = -(k : Int) := ⟨e.natAbs, by omega⟩
        have hk : 0 < k := by omega
        rw [Int.natAbs_neg, Int.natAbs_natCast] at hsplit
        simp [readExponent?, splitExponentSign, hk, hsplit, Nat.toDigits_ne_nil]
      · obtain ⟨k, rfl⟩ : ∃ k : Nat, e = (k : Int) := ⟨e.natAbs, by omega⟩
        have hk : ¬ ((k : Int) < 0) := by omega
        rw [Int.natAbs_natCast] at hsplit
        simp [readExponent?, splitExponentSign, hk, hsplit, Nat.toDigits_ne_nil]

theorem noDigit_exponentChars (hrest : Stops rest) : NoDigit (symbols p.exponentChars ++ rest) := by
  unfold exponentChars
  cases p.exponent with
  | none => exact hrest.noDigit
  | some e =>
      intro c tail he
      cases he
      decide

theorem readFraction_chars (h : p.WellFormed) (hrest : Stops rest) :
    readFraction? (symbols p.fractionChars ++ (symbols p.exponentChars ++ rest)) =
      some (p.fraction, symbols p.exponentChars ++ rest) := by
  unfold fractionChars
  cases hfraction : p.fraction with
  | none =>
      show readFraction? (symbols p.exponentChars ++ rest) = _
      unfold exponentChars
      cases p.exponent with
      | none =>
          cases rest with
          | nil => rfl
          | cons s tail => rcases hrest s rfl with rfl | rfl | rfl <;> rfl
      | some e => rfl
  | some digits =>
      obtain ⟨hne, hdigits⟩ := h.fraction digits hfraction
      have hsplit := splitDigits_append hdigits (@noDigit_exponentChars p rest hrest)
      simp only [symbols_cons, List.cons_append, readFraction?, hsplit]
      simp [hne]

theorem noDigit_fractionChars (hrest : Stops rest) :
    NoDigit (symbols p.fractionChars ++ (symbols p.exponentChars ++ rest)) := by
  unfold fractionChars
  cases p.fraction with
  | none => exact noDigit_exponentChars hrest
  | some digits =>
      intro c tail he
      cases he
      decide

/-- A numeral starts with a digit. -/
theorem chars_eq_cons (h : p.WellFormed) : ∃ c cs, p.chars = c :: cs ∧ c.isDigit = true := by
  cases hwhole : p.whole with
  | nil => exact absurd hwhole h.nonempty
  | cons c cs =>
      refine ⟨c, cs ++ p.fractionChars ++ p.exponentChars, ?_, h.digits c (by simp [hwhole])⟩
      simp [chars, hwhole]

/-- A numeral is read as what its parts say. -/
theorem readNumber_chars (h : p.WellFormed) (negative : Bool) (hrest : Stops rest) :
    readNumber? (symbols ((if negative then ['-'] else []) ++ p.chars) ++ rest) =
      some (numberOf negative p.whole p.fraction p.exponent, rest) := by
  have hminus : splitMinus (symbols ((if negative then ['-'] else []) ++ p.chars) ++ rest) =
      (negative, symbols p.chars ++ rest) := by
    cases negative with
    | true => simp [splitMinus]
    | false =>
        obtain ⟨c, cs, hchars, hc⟩ := chars_eq_cons h
        have hne : c ≠ '-' := by
          rintro rfl
          exact absurd hc (by decide)
        rw [hchars]
        show splitMinus (.char c :: (symbols cs ++ rest)) = _
        rw [splitMinus]
        · rfl
        · intro tail he
          exact hne (Symbol.char.inj (List.cons.inj he).1)
  have hsplit : splitDigits (symbols p.chars ++ rest) =
      (p.whole, symbols p.fractionChars ++ (symbols p.exponentChars ++ rest)) := by
    rw [chars, symbols_append, symbols_append, List.append_assoc, List.append_assoc]
    exact splitDigits_append h.digits (noDigit_fractionChars hrest)
  -- No numeral but a single zero starts with a zero.
  have hlead : (!p.whole.isEmpty && (p.whole.length == 1 || p.whole.head? != some '0')) = true := by
    have hne : p.whole.isEmpty = false := by simp [h.nonempty]
    rcases h.lead with hone | hzero
    · simp [hne, hone]
    · simp [hne, hzero]
  rw [readNumber_steps, hminus]
  show (guard _ >>= _) = _
  rw [hsplit, hlead]
  show (readFraction? _).bind _ = _
  rw [readFraction_chars h hrest]
  show (readExponent? _).bind _ = _
  rw [readExponent_chars hrest]
  rfl

end Parts

end RecordTables.Json
