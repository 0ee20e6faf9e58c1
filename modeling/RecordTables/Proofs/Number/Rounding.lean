import Mathlib.Algebra.Order.Field.Rat
import Mathlib.Algebra.Order.Field.Power
import Mathlib.Tactic.FieldSimp
import Mathlib.Tactic.Linarith
import Mathlib.Tactic.NormNum
import Mathlib.Tactic.Positivity
import Mathlib.Tactic.Ring
import RecordTables.Proofs.Number.Widening

/-!
# Rounding to doubles

A ratio that is not below one and not too near to the end of the doubles is rounded to a finite double, which is
greater than the ratio by one part in `2 ^ 53` at most.
-/

namespace RecordTables

namespace Ratio

/-- The number that a ratio stands for. -/
def value (r : Ratio) : ℚ := r.num / r.den

theorem value_div (a b : Ratio) : (a.div b).value = a.value / b.value := by
  unfold value div
  push_cast
  rw [div_div_div_eq]

theorem value_mul (a b : Ratio) : (a.mul b).value = a.value * b.value := by
  unfold value mul
  push_cast
  rw [div_mul_div_comm]

theorem value_scaled (base m : Nat) (e : Int) : (scaled base m e).value = m * (base : ℚ) ^ e := by
  unfold value scaled
  split
  · rename_i he
    obtain ⟨k, rfl⟩ := Int.eq_ofNat_of_zero_le he
    push_cast
    simp
  · rename_i he
    obtain ⟨k, hk⟩ := Int.eq_ofNat_of_zero_le (show 0 ≤ -e by omega)
    have hneg : e = -(k : Int) := by omega
    subst hneg
    push_cast
    simp [div_eq_mul_inv]

/-- A quotient is rounded up by one half at most. -/
theorem nearestEven_le {a : Ratio} (hden : 0 < a.den) : (a.nearestEven : ℚ) ≤ a.value + 1 / 2 := by
  have hnat : 2 * a.nearestEven * a.den ≤ 2 * a.num + a.den := by
    have hsplit := Nat.div_add_mod a.num a.den
    unfold nearestEven
    dsimp only
    generalize a.num / a.den = quotient at *
    generalize a.num % a.den = rest at *
    split_ifs <;> nlinarith
  have hcast : (2 : ℚ) * a.nearestEven * a.den ≤ 2 * a.num + a.den := by exact_mod_cast hnat
  have hpos : (0 : ℚ) < a.den := by exact_mod_cast hden
  unfold value
  rw [div_add' _ _ _ hpos.ne', le_div_iff₀ hpos]
  linarith

/-- A quotient is rounded down by one half at most. -/
theorem le_nearestEven {a : Ratio} (hden : 0 < a.den) : a.value - 1 / 2 ≤ (a.nearestEven : ℚ) := by
  have hnat : 2 * a.num ≤ 2 * a.nearestEven * a.den + a.den := by
    have hsplit := Nat.div_add_mod a.num a.den
    have hmod := Nat.mod_lt a.num hden
    unfold nearestEven
    dsimp only
    generalize a.num / a.den = quotient at *
    generalize a.num % a.den = rest at *
    split_ifs <;> nlinarith
  have hcast : (2 : ℚ) * a.num ≤ 2 * a.nearestEven * a.den + a.den := by exact_mod_cast hnat
  have hpos : (0 : ℚ) < a.den := by exact_mod_cast hden
  unfold value
  rw [div_sub' hpos.ne', div_le_iff₀ hpos]
  linarith

end Ratio

namespace BinaryFormat

open Ratio

variable (f : BinaryFormat)

/-- The logarithm of a quotient, up to one. -/
theorem log2_bounds {r : Ratio} (hnum : 0 < r.num) (hden : 0 < r.den) :
    (2 : ℚ) ^ ((r.num.log2 : Int) - r.den.log2 - 1) < r.value ∧
      r.value < 2 ^ ((r.num.log2 : Int) - r.den.log2 + 1) := by
  have hbounds : ∀ n : Nat, 0 < n → (2 : ℚ) ^ (n.log2 : Int) ≤ n ∧ (n : ℚ) < 2 ^ ((n.log2 : Int) + 1) := by
    intro n hn
    have hlow : 2 ^ n.log2 ≤ n := (Nat.le_log2 (by omega)).1 (Nat.le_refl _)
    have hhigh : n < 2 ^ (n.log2 + 1) := (Nat.log2_lt (by omega)).1 (Nat.lt_succ_self _)
    constructor
    · rw [zpow_natCast]
      exact_mod_cast hlow
    · have hexponent : ((n.log2 : Int) + 1) = ((n.log2 + 1 : Nat) : Int) := by push_cast; rfl
      rw [hexponent, zpow_natCast]
      exact_mod_cast hhigh
  obtain ⟨hnumLow, hnumHigh⟩ := hbounds r.num hnum
  obtain ⟨hdenLow, hdenHigh⟩ := hbounds r.den hden
  have hpos : (0 : ℚ) < r.den := by exact_mod_cast hden
  unfold value
  rw [lt_div_iff₀ hpos, div_lt_iff₀ hpos]
  constructor
  · calc (2 : ℚ) ^ ((r.num.log2 : Int) - r.den.log2 - 1) * r.den
        < 2 ^ ((r.num.log2 : Int) - r.den.log2 - 1) * 2 ^ ((r.den.log2 : Int) + 1) := by gcongr
      _ = 2 ^ (r.num.log2 : Int) := by
          rw [← zpow_add₀ (by norm_num)]
          congr 1
          ring
      _ ≤ r.num := hnumLow
  · calc (r.num : ℚ) < 2 ^ ((r.num.log2 : Int) + 1) := hnumHigh
      _ = 2 ^ ((r.num.log2 : Int) - r.den.log2 + 1) * 2 ^ (r.den.log2 : Int) := by
          rw [← zpow_add₀ (by norm_num)]
          congr 1
          ring
      _ ≤ 2 ^ ((r.num.log2 : Int) - r.den.log2 + 1) * r.den := by gcongr

theorem floor_lt_iff {r : Ratio} (hden : 0 < r.den) (n : Nat) : r.num / r.den < n ↔ r.value < n := by
  have hpos : (0 : ℚ) < r.den := by exact_mod_cast hden
  rw [Nat.div_lt_iff_lt_mul hden, value, div_lt_iff₀ hpos]
  exact_mod_cast Iff.rfl

theorem den_div_scaled_pos {r : Ratio} (hden : 0 < r.den) (e : Int) : 0 < (r.div (scaled 2 1 e)).den :=
  Nat.mul_pos hden (num_scaled_pos Nat.one_pos e)

theorem value_div_scaled (r : Ratio) (e : Int) : (r.div (scaled 2 1 e)).value = r.value / 2 ^ e := by
  rw [value_div, value_scaled]
  norm_num

/-- At the exponent of a ratio, the ratio has as many digits as the format holds, or fewer at the least exponent. -/
theorem exponentFor_bounds {r : Ratio} (hnum : 0 < r.num) (hden : 0 < r.den) :
    f.leastExponent ≤ f.exponentFor r ∧ r.value < 2 ^ (f.fractionBits + 1) * 2 ^ f.exponentFor r ∧
      (f.exponentFor r = f.leastExponent ∨ 2 ^ f.fractionBits * 2 ^ f.exponentFor r ≤ r.value) := by
  obtain ⟨hlow, hhigh⟩ := log2_bounds hnum hden
  -- The first digits give the exponent up to one, and measuring the ratio there tells which one it is.
  obtain ⟨guess, hguess⟩ : ∃ guess : Int, guess = (r.num.log2 : Int) - r.den.log2 - f.fractionBits := ⟨_, rfl⟩
  have hcast : ∀ n : Nat, (2 : ℚ) ^ n = 2 ^ (n : Int) := fun n => (zpow_natCast 2 n).symm
  have hjoin : ∀ a b : Int, (2 : ℚ) ^ a * 2 ^ b = 2 ^ (a + b) := fun a b => (zpow_add₀ (by norm_num) a b).symm
  have hmono : ∀ {a b : Int}, a ≤ b → (2 : ℚ) ^ a ≤ 2 ^ b := fun h => zpow_le_zpow_right₀ (by norm_num) h
  obtain ⟨exact, hexact, hupper, hlower⟩ : ∃ exact : Int, f.exponentFor r = max exact f.leastExponent ∧
      r.value < 2 ^ (f.fractionBits + 1) * 2 ^ exact ∧ 2 ^ f.fractionBits * 2 ^ exact ≤ r.value := by
    have hdigits : (r.div (scaled 2 1 guess)).num / (r.div (scaled 2 1 guess)).den < 2 ^ f.fractionBits ↔
        r.value < 2 ^ f.fractionBits * 2 ^ guess := by
      rw [floor_lt_iff (den_div_scaled_pos hden guess), value_div_scaled, div_lt_iff₀ (by positivity)]
      push_cast
      exact Iff.rfl
    unfold exponentFor
    simp only [← hguess]
    split
    · rename_i hfew
      refine ⟨guess - 1, rfl, ?_, ?_⟩
      · have h := hdigits.1 hfew
        rw [hcast, hjoin] at h ⊢
        refine h.trans_le (hmono ?_)
        push_cast
        omega
      · rw [hcast, hjoin]
        exact (hmono (by omega)).trans hlow.le
    · rename_i hmany
      refine ⟨guess, rfl, ?_, ?_⟩
      · rw [hcast, hjoin]
        refine hhigh.trans_le (hmono ?_)
        push_cast
        omega
      · rw [hdigits, not_lt] at hmany
        exact hmany
  rw [hexact]
  rcases le_total exact f.leastExponent with hle | hle
  · rw [max_eq_right hle]
    refine ⟨le_refl _, hupper.trans_le ?_, .inl rfl⟩
    gcongr
    · norm_num
  · rw [max_eq_left hle]
    exact ⟨hle, hupper, .inr hlower⟩

end BinaryFormat

namespace Double

open BinaryFormat Ratio

/-- The bits of a double in parts. -/
theorem value_of_bits {x : Double} {k m : Nat} (hbits : x.bits.toNat = k * 2 ^ 52 + m) (hk : k < 2046)
    (hlow : 2 ^ 52 ≤ m) (hhigh : m < 2 ^ 53) : x.value = .finite false m (k - 1074) := by
  have h := @unpack_double false k m hk hlow hhigh
  have hsign : doubleSign false = 0 := rfl
  rw [hsign, Nat.zero_add] at h
  rw [Double.value, hbits, h]

/-- What a double is near to: it is finite, not below one, and greater by one part in `2 ^ 53` at most. -/
structure Near (x : Double) (r : ℚ) : Prop where
  finite : x.isFinite = true
  den_pos : 0 < x.magnitude.den
  one_le : 1 ≤ x.magnitude.value
  le : x.magnitude.value ≤ r * (1 + 1 / 2 ^ 53)

/-- A significand and an exponent of a double, whose bits are put together from them. -/
theorem near_of_bits {x : Double} {k m : Nat} {r : ℚ} (hbits : x.bits.toNat = k * 2 ^ 52 + m) (hk : k < 2046)
    (hlow : 2 ^ 52 ≤ m) (hhigh : m < 2 ^ 53) (hone : 1 ≤ (m : ℚ) * 2 ^ ((k : Int) - 1074))
    (hle : (m : ℚ) * 2 ^ ((k : Int) - 1074) ≤ r * (1 + 1 / 2 ^ 53)) : x.Near r := by
  have hvalue := value_of_bits hbits hk hlow hhigh
  have hmagnitude : x.magnitude = .scaled 2 m (k - 1074) := by
    rw [magnitude, hvalue]
  refine ⟨by rw [isFinite, hvalue], ?_, ?_, ?_⟩
  · rw [hmagnitude]
    exact den_scaled_pos m _
  · rw [hmagnitude, value_scaled]
    exact_mod_cast hone
  · rw [hmagnitude, value_scaled]
    exact_mod_cast hle

/-- The exponent of a ratio among the doubles is far above the least one, so all digits of the format are there. -/
theorem exponentFor_of_one_le {r : Ratio} (hnum : 0 < r.num) (hden : 0 < r.den) (hone : 1 ≤ r.value)
    (hbound : r.value < (2 ^ 54 - 1) * 2 ^ (970 : Int)) :
    -52 ≤ BinaryFormat.double.exponentFor r ∧ BinaryFormat.double.exponentFor r ≤ 971 ∧
      2 ^ 52 * 2 ^ BinaryFormat.double.exponentFor r ≤ r.value ∧
      r.value < 2 ^ 53 * 2 ^ BinaryFormat.double.exponentFor r := by
  obtain ⟨_, hupper, hlower⟩ := BinaryFormat.double.exponentFor_bounds hnum hden
  have hfraction : BinaryFormat.double.fractionBits = 52 := rfl
  have hleast : BinaryFormat.double.leastExponent = -1074 := rfl
  generalize BinaryFormat.double.exponentFor r = e at *
  rw [hfraction] at hupper hlower
  have hmono : ∀ {a b : Int}, (2 : ℚ) ^ a < 2 ^ b → a < b := (zpow_lt_zpow_iff_right₀ (by norm_num)).1
  have hlow : -52 ≤ e := by
    have h : (2 : ℚ) ^ (0 : Int) < 2 ^ ((53 : Int) + e) := by
      rw [zpow_add₀ (by norm_num)]
      exact hone.trans_lt hupper
    have := hmono h
    omega
  have hdigits : (2 : ℚ) ^ 52 * 2 ^ e ≤ r.value := hlower.resolve_left (by omega)
  have hhigh : e ≤ 971 := by
    have h : (2 : ℚ) ^ ((52 : Int) + e) < 2 ^ ((54 : Int) + 970) := by
      rw [zpow_add₀ (by norm_num), zpow_add₀ (by norm_num)]
      calc (2 : ℚ) ^ 52 * 2 ^ e ≤ r.value := hdigits
        _ < (2 ^ 54 - 1) * 2 ^ (970 : Int) := hbound
        _ < 2 ^ 54 * 2 ^ (970 : Int) := by gcongr; norm_num
    have := hmono h
    omega
  exact ⟨hlow, hhigh, hdigits, hupper⟩

/-- The digits `s` to which a ratio is rounded at the exponent `e`: as many as the format holds, or one carry more
than that, unless the double is in the last binade. -/
structure Digits (r : ℚ) (e : Int) (s : Nat) : Prop where
  low : 2 ^ 52 ≤ s
  high : s ≤ 2 ^ 53
  last : e = 971 → s < 2 ^ 53
  le : (s : ℚ) * 2 ^ e ≤ r * (1 + 1 / 2 ^ 53)

theorem Digits.one_le {r : ℚ} {e : Int} {s : Nat} (hs : Digits r e s) (he : -52 ≤ e) : 1 ≤ (s : ℚ) * 2 ^ e := by
  calc (1 : ℚ) = 2 ^ 52 * 2 ^ (-52 : Int) := by norm_num
    _ ≤ s * 2 ^ e := by
        gcongr
        · exact_mod_cast hs.low
        · norm_num

/-- A number with a bounded quotient, rounded to the nearest natural number. -/
theorem digits_of_half {r : ℚ} {e : Int} {s : Nat} (hlow : 2 ^ 52 * 2 ^ e ≤ r) (hhigh : r < 2 ^ 53 * 2 ^ e)
    (hbound : r < (2 ^ 54 - 1) * 2 ^ (970 : Int)) (hdown : r / 2 ^ e - 1 / 2 ≤ s) (hup : s ≤ r / 2 ^ e + 1 / 2) :
    Digits r e s := by
  have hunit : (0 : ℚ) < 2 ^ e := by positivity
  refine ⟨?_, ?_, ?_, ?_⟩
  · have h : (2 : ℚ) ^ 52 ≤ r / 2 ^ e := (le_div_iff₀ hunit).2 hlow
    have hq : (2 : ℚ) ^ 52 < s + 1 := by linarith
    exact Nat.lt_succ_iff.1 (by exact_mod_cast hq)
  · have h : r / 2 ^ e < 2 ^ 53 := (div_lt_iff₀ hunit).2 hhigh
    have hq : (s : ℚ) < 2 ^ 53 + 1 := by linarith
    exact Nat.lt_succ_iff.1 (by exact_mod_cast hq)
  · rintro rfl
    have h : r / 2 ^ (971 : Int) < 2 ^ 53 - 1 / 2 := by
      rw [div_lt_iff₀ hunit]
      calc r < (2 ^ 54 - 1) * 2 ^ (970 : Int) := hbound
        _ = (2 ^ 53 - 1 / 2) * 2 ^ ((970 : Int) + 1) := by
            rw [zpow_add₀ (by norm_num)]
            ring
    have hq : (s : ℚ) < 2 ^ 53 := by linarith
    exact_mod_cast hq
  -- What is rounded is the ratio, up to half a unit of its last digit.
  · calc (s : ℚ) * 2 ^ e ≤ (r / 2 ^ e + 1 / 2) * 2 ^ e := by gcongr
      _ = r + 2 ^ 52 * 2 ^ e / 2 ^ 53 := by
          field_simp
      _ ≤ r + r / 2 ^ 53 := by gcongr
      _ = r * (1 + 1 / 2 ^ 53) := by ring

/-- The digits of a ratio are what the bits of its double are put together from. -/
theorem bits_ofRatio {r : Ratio} (hnum : 0 < r.num) {k s : Nat}
    (hk : (k : Int) = BinaryFormat.double.exponentFor r + 1074)
    (hs : (r.div (scaled 2 1 (BinaryFormat.double.exponentFor r))).nearestEven = s)
    (hbound : k * 2 ^ 52 + s ≤ 2047 * 2 ^ 52) : (ofRatio false r).bits.toNat = k * 2 ^ 52 + s := by
  have hfraction : BinaryFormat.double.fractionBits = 52 := rfl
  have hleast : BinaryFormat.double.leastExponent = -1074 := rfl
  have hinfinity : BinaryFormat.double.infinityBits = 2047 * 2 ^ 52 := rfl
  have hmagnitude : BinaryFormat.double.roundMagnitude r = k * 2 ^ 52 + s := by
    have hplace : (BinaryFormat.double.exponentFor r - BinaryFormat.double.leastExponent).toNat = k := by omega
    simp only [roundMagnitude, if_neg hnum.ne', hs, hplace, hfraction, hinfinity]
    exact Nat.min_eq_right hbound
  have hround : BinaryFormat.double.round false r = k * 2 ^ 52 + s := by
    rw [BinaryFormat.round, hmagnitude]
    simp
  show (UInt64.ofNat _).toNat = _
  rw [hround]
  exact UInt64.toNat_ofNat_of_lt' (show _ < 2 ^ 64 by omega)

/-- Digits and the place of the last one make the double, a carry moving them up by one place. -/
theorem near_of_digits {x : Double} {k s : Nat} {e : Int} {r : ℚ} (hk : (k : Int) = e + 1074) (hlow : -52 ≤ e)
    (hhigh : e ≤ 971) (hs : Digits r e s) (hbits : x.bits.toNat = k * 2 ^ 52 + s) : x.Near r := by
  have hexponent : (k : Int) - 1074 = e := by omega
  rcases Nat.lt_or_ge s (2 ^ 53) with hless | hmore
  · refine near_of_bits hbits (by omega) hs.low hless ?_ ?_
    · rw [hexponent]
      exact hs.one_le hlow
    · rw [hexponent]
      exact hs.le
  · have hcarry : s = 2 * 2 ^ 52 := by
      have := hs.high
      omega
    have hplace : ((2 ^ 52 : Nat) : ℚ) * 2 ^ (((k + 1 : Nat) : Int) - 1074) = s * 2 ^ e := by
      have hnext : ((k + 1 : Nat) : Int) - 1074 = e + 1 := by omega
      rw [hnext, zpow_add₀ (by norm_num), hcarry]
      push_cast
      ring
    have hfar : e ≠ 971 := fun h => absurd (hs.last h) (by omega)
    have hmoved : x.bits.toNat = (k + 1) * 2 ^ 52 + 2 ^ 52 := by
      rw [hbits, hcarry]
      ring
    refine near_of_bits hmoved (by omega) (by norm_num) (by norm_num) ?_ ?_
    · rw [hplace]
      exact hs.one_le hlow
    · rw [hplace]
      exact hs.le

theorem near_ofRatio {r : Ratio} (hden : 0 < r.den) (hone : 1 ≤ r.value)
    (hbound : r.value < (2 ^ 54 - 1) * 2 ^ 970) : (ofRatio false r).Near r.value := by
  rw [← zpow_natCast 2 970, Nat.cast_ofNat] at hbound
  have hnum : 0 < r.num := by
    apply Nat.pos_of_ne_zero
    intro hzero
    unfold Ratio.value at hone
    rw [hzero] at hone
    norm_num at hone
  obtain ⟨hlow, hhigh, hdigits, hupper⟩ := exponentFor_of_one_le hnum hden hone hbound
  obtain ⟨e, he⟩ : ∃ e, BinaryFormat.double.exponentFor r = e := ⟨_, rfl⟩
  obtain ⟨s, hs⟩ : ∃ s, (r.div (scaled 2 1 e)).nearestEven = s := ⟨_, rfl⟩
  obtain ⟨k, hk⟩ : ∃ k : Nat, (k : Int) = e + 1074 := ⟨(e + 1074).toNat, by omega⟩
  rw [he] at hlow hhigh hdigits hupper
  have hrounded : Digits r.value e s := by
    have hquotient := value_div_scaled r e
    refine digits_of_half hdigits hupper hbound ?_ ?_
    · rw [← hs, ← hquotient]
      exact le_nearestEven (den_div_scaled_pos hden e)
    · rw [← hs, ← hquotient]
      exact nearestEven_le (den_div_scaled_pos hden e)
  have hfits : k * 2 ^ 52 + s ≤ 2047 * 2 ^ 52 := by
    have := hrounded.high
    by_cases hlast : e = 971
    · have := hrounded.last hlast
      omega
    · omega
  exact near_of_digits hk hlow hhigh hrounded (bits_ofRatio hnum (he ▸ hk) (he ▸ hs) hfits)

end Double

end RecordTables
