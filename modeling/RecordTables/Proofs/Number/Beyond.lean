import RecordTables.Engine.Affinity
import RecordTables.Proofs.Number.Digits
import RecordTables.Proofs.Number.Rounding

/-!
# Numerals beyond eight bytes

A numeral of an integer beyond eight bytes is read as a real number that is not below `2 ^ 63` either, so no row is
numbered by it.
-/

namespace RecordTables

open BinaryFormat Ratio

namespace Double

/-- A ratio from `2 ^ 63` on is rounded to a double whose exponent shows it. -/
theorem le_roundMagnitude {r : Ratio} (hden : 0 < r.den) (h : (2 : ℚ) ^ 63 ≤ r.value) :
    1086 * 2 ^ 52 ≤ BinaryFormat.double.roundMagnitude r := by
  have hnum : 0 < r.num := by
    apply Nat.pos_of_ne_zero
    intro hzero
    unfold Ratio.value at h
    rw [hzero] at h
    norm_num at h
  obtain ⟨_, hupper, hlower⟩ := BinaryFormat.double.exponentFor_bounds hnum hden
  obtain ⟨e, he⟩ : ∃ e, BinaryFormat.double.exponentFor r = e := ⟨_, rfl⟩
  obtain ⟨s, hs⟩ : ∃ s, (r.div (scaled 2 1 e)).nearestEven = s := ⟨_, rfl⟩
  have hfraction : BinaryFormat.double.fractionBits = 52 := rfl
  have hleast : BinaryFormat.double.leastExponent = -1074 := rfl
  have hinfinity : BinaryFormat.double.infinityBits = 2047 * 2 ^ 52 := rfl
  rw [he, hfraction] at hupper hlower
  have helow : 11 ≤ e := by
    have hpower : (2 : ℚ) ^ (63 : Int) < 2 ^ ((52 + 1 : Nat) + e) := by
      rw [zpow_add₀ (by norm_num), zpow_natCast]
      exact h.trans_lt hupper
    have hexponent := (zpow_lt_zpow_iff_right₀ (by norm_num : (1 : ℚ) < 2)).1 hpower
    omega
  have hslow : 2 ^ 52 ≤ s := by
    have hdigits : (2 : ℚ) ^ 52 ≤ r.value / 2 ^ e :=
      (le_div_iff₀ (by positivity)).2 (hlower.resolve_left (by omega))
    have hround : r.value / 2 ^ e - 1 / 2 ≤ s := by
      rw [← hs, ← value_div_scaled r e]
      exact le_nearestEven (den_div_scaled_pos hden e)
    have hcast : (2 : ℚ) ^ 52 < s + 1 := by linarith
    exact Nat.lt_succ_iff.1 (by exact_mod_cast hcast)
  simp only [roundMagnitude, if_neg hnum.ne', he, hs, hfraction, hinfinity]
  have hplace : 1085 ≤ (e - BinaryFormat.double.leastExponent).toNat := by omega
  generalize (e - BinaryFormat.double.leastExponent).toNat = k at hplace
  exact le_min (by norm_num) (by omega)

/-- A double with such an exponent is no integer below `2 ^ 63`. -/
theorem le_of_toInt? {x : Double} {n : Int} (hlow : 1086 * 2 ^ 52 ≤ x.bits.toNat) (hhigh : x.bits.toNat < 2 ^ 63)
    (h : x.toInt? = some n) : 2 ^ 63 ≤ n := by
  have hsign : BinaryFormat.double.signBit = 2 ^ 63 := rfl
  have hleast : BinaryFormat.double.leastExponent = -1074 := rfl
  have hfraction : BinaryFormat.double.fractionBits = 52 := rfl
  have hbound : x.bits.toNat < 2 * BinaryFormat.double.signBit := by omega
  rw [toInt?] at h
  rcases BinaryFormat.double.unpack_cases hbound with
    hnan | ⟨negative, hvalue, -⟩ | ⟨negative, m, k, hvalue, hbits, hm, hnormal⟩
  · rw [value, hnan] at h
    cases h
  · rw [value, hvalue] at h
    cases h
  rw [value, hvalue, hleast] at h
  rw [hfraction] at hbits hm hnormal
  have hpositive : negative = false := by
    cases negative with
    | false => rfl
    | true =>
        simp only [signWeight, if_true, hsign] at hbits
        omega
  subst hpositive
  simp only [signWeight, Bool.false_eq_true, if_false] at hbits
  obtain ⟨j, rfl⟩ : ∃ j, k = j + 1085 := ⟨k - 1085, by omega⟩
  have hmlow : 2 ^ 52 ≤ m := by omega
  have hexponent : (-1074 + ((j + 1085 : Nat) : Int)) = ((j + 11 : Nat) : Int) := by omega
  rw [hexponent] at h
  simp only [BinaryValue.toInt?, scaled, Int.natCast_nonneg, if_true, Int.toNat_natCast, Nat.mod_one, Nat.cast_one,
    Int.ediv_one, Bool.false_eq_true, if_false, Option.some.injEq] at h
  have hpower : 2 ^ 11 ≤ 2 ^ (j + 11) := Nat.pow_le_pow_right (by decide) (by omega)
  have hproduct : 2 ^ 52 * 2 ^ 11 ≤ m * 2 ^ (j + 11) := Nat.mul_le_mul hmlow hpower
  rw [← h]
  omega

end Double

namespace Engine

theorem exactInteger?_ofRatio {r : Ratio} (hden : 0 < r.den) (h : (2 : ℚ) ^ 63 ≤ r.value) :
    exactInteger? (.ofRatio false r) = none := by
  have hlow := Double.le_roundMagnitude hden h
  have hhigh : BinaryFormat.double.roundMagnitude r ≤ 2047 * 2 ^ 52 := by
    unfold roundMagnitude
    split
    · exact Nat.zero_le _
    · exact Nat.min_le_left _ _
  have hbits : (Double.ofRatio false r).bits.toNat = BinaryFormat.double.roundMagnitude r := by
    show (UInt64.ofNat (0 + BinaryFormat.double.roundMagnitude r)).toNat = _
    rw [Nat.zero_add]
    exact UInt64.toNat_ofNat_of_lt' (show _ < 2 ^ 64 by omega)
  unfold exactInteger?
  cases hn : (Double.ofRatio false r).toInt? with
  | none => rfl
  | some n =>
      have hle := Double.le_of_toInt? (by rw [hbits]; exact hlow) (by rw [hbits]; omega) hn
      have hbound : signedBound = 2 ^ 63 := rfl
      simp only
      rw [if_neg (by omega)]

end Engine

/-! ## Digits that are taken -/

namespace Numeral

theorem le_digitsValue (a : Nat) (digits : List Char) : a ≤ digitsValue a digits := by
  induction digits generalizing a with
  | nil => exact Nat.le_refl a
  | cons c digits ih =>
      have hfirst : a ≤ 10 * a + (c.toNat - '0'.toNat) := by omega
      exact hfirst.trans (ih _)

/-- As long as there is room, all digits are taken. -/
theorem foldl_whole {a : Nat} {digits : List Char} (h : digitsValue a digits < 10 * fullDigits) :
    digits.foldl Taken.whole ⟨a, 0⟩ = ⟨digitsValue a digits, 0⟩ := by
  induction digits generalizing a with
  | nil => rfl
  | cons c digits ih =>
      have hrest : digitsValue a (c :: digits) = digitsValue (digitsValue a [c]) digits := rfl
      have hfirst : 10 * a ≤ digitsValue a [c] := Nat.le_add_right _ _
      rw [hrest] at h ⊢
      have hroom : a < fullDigits := by
        have hle := le_digitsValue (digitsValue a [c]) digits
        omega
      rw [List.foldl_cons, Taken.whole, if_pos hroom]
      exact ih h

/-- The real number of a numeral all of whose digits are taken is the one nearest to it. -/
theorem toReal_of_room {n : Nat} (hpos : n ≠ 0) (hroom : n < 10 * fullDigits) :
    toReal ⟨Nat.toDigits 10 n, [], 0⟩ false = .ofRatio false ⟨n, 1⟩ := by
  have hdigits := digitsValue_toDigits n
  have hfold : (Nat.toDigits 10 n).foldl Taken.whole ⟨0, 0⟩ = ⟨n, 0⟩ := by
    rw [foldl_whole (by rwa [hdigits]), hdigits]
  have htaken : taken ⟨Nat.toDigits 10 n, [], 0⟩ = ⟨n, 0⟩ := by
    rw [taken, List.foldl_nil, hfold]
    rfl
  have hsettle : (⟨n, 0⟩ : Taken).settle 20 = ⟨n, 0⟩ := by
    rw [Taken.settle, if_neg (fun h => Int.lt_irrefl 0 h.1), if_neg (fun h => Int.lt_irrefl 0 h.1)]
  have horder : largest.order ⟨n, 1⟩ ≠ .lt := by
    have hden : largest.den = 1 := rfl
    have hnum : 10 * fullDigits ≤ largest.num := by decide +kernel
    rw [order, hden, Nat.mul_one, Nat.mul_one, ne_eq, Nat.compare_eq_lt]
    exact (hroom.le.trans hnum).not_gt
  have hscale : Extended.scale 0 ⟨n, 1⟩ = ⟨n, 1⟩ := rfl
  have hplace : (⟨n, 0⟩ : Taken).toReal false = .ofRatio false ⟨n, 1⟩ := by
    have hbelow : ¬ (400 : Int) < 0 := by decide
    have habove : ¬ (0 : Int) < -400 := by decide
    rw [Taken.toReal, if_neg hbelow, if_neg habove]
    simp only [hscale, if_neg horder]
  simp only [toReal, htaken, if_neg hpos, hsettle, hplace]

end Numeral

namespace Engine

open Numeral

/-- The last integers of eight bytes without a sign have more digits than there is room for. -/
theorem rowNumber?_last : ∀ k < 16,
    rowNumber? (signedInteger false (Nat.toDigits 10 (10 * fullDigits + k))) = none := by
  decide +kernel

theorem rowNumber?_real {x : Double} (h : exactInteger? x = none) : rowNumber? (.real x) = none := by
  simp only [rowNumber?, numberFromText, integral, h]

theorem signedInteger_of_none {digits : List Char} (h : signedInteger? (digitsValue 0 digits : Nat) = none) :
    signedInteger false digits = .real (toReal ⟨digits, [], 0⟩ false) := by
  rw [signedInteger]
  split
  · rename_i n hn
    rw [if_neg Bool.false_ne_true, h] at hn
    cases hn
  · rfl

theorem rowNumber?_of_room {n : Nat} (hlow : 2 ^ 63 ≤ n) (hroom : n < 10 * fullDigits) :
    rowNumber? (signedInteger false (Nat.toDigits 10 n)) = none := by
  have hnone : signedInteger? (digitsValue 0 (Nat.toDigits 10 n) : Nat) = none := by
    have hbound : signedBound = 2 ^ 63 := rfl
    rw [digitsValue_toDigits, signedInteger?, if_neg]
    omega
  have hvalue : (2 : ℚ) ^ 63 ≤ (⟨n, 1⟩ : Ratio).value := by
    simp only [Ratio.value, Nat.cast_one, div_one]
    exact_mod_cast hlow
  have hpos : n ≠ 0 := by omega
  rw [signedInteger_of_none hnone, toReal_of_room hpos hroom]
  exact rowNumber?_real (exactInteger?_ofRatio Nat.one_pos hvalue)

/-- No row is numbered by a numeral beyond eight bytes. -/
theorem rowNumber?_beyond {n : Nat} (hlow : 2 ^ 63 ≤ n) (hhigh : n < 2 ^ 64) :
    rowNumber? (signedInteger false (Nat.toDigits 10 n)) = none := by
  rcases Nat.lt_or_ge n (10 * fullDigits) with hroom | hlast
  · exact rowNumber?_of_room hlow hroom
  · obtain ⟨k, rfl⟩ := Nat.exists_eq_add_of_le hlast
    have hfull : 2 ^ 64 = 10 * fullDigits + 16 := by decide
    exact rowNumber?_last k (by omega)

end Engine

end RecordTables
