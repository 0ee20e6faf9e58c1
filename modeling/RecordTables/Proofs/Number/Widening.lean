import Mathlib.Algebra.Group.Nat.Defs
import RecordTables.Number.Floating

/-!
# Singles as doubles

A double holds every single, so widening a single loses nothing: rounding back gives the same bits, unless they stand
for no number.  Both roundings are exact, and `roundMagnitude_scaled` says what an exact rounding gives.
-/

namespace RecordTables

namespace Ratio

/-- A whole quotient is rounded to itself. -/
theorem nearestEven_of_dvd {a : Ratio} {q : Nat} (hden : 0 < a.den) (h : a.num = q * a.den) : a.nearestEven = q := by
  have hdiv : a.num / a.den = q := by
    rw [h, Nat.mul_div_cancel q hden]
  have hmod : a.num % a.den = 0 := by
    rw [h, Nat.mul_mod_left]
  simp [nearestEven, hdiv, hmod, hden]

theorem den_scaled_pos (m : Nat) (e : Int) : 0 < (scaled 2 m e).den := by
  unfold scaled
  split
  · exact Nat.one_pos
  · exact Nat.two_pow_pos _

theorem num_scaled_pos {m : Nat} (hm : 0 < m) (e : Int) : 0 < (scaled 2 m e).num := by
  unfold scaled
  split
  · exact Nat.mul_pos hm (Nat.two_pow_pos _)
  · exact hm

theorem den_div_scaled_pos (m : Nat) (e x : Int) : 0 < ((scaled 2 m e).div (scaled 2 1 x)).den :=
  Nat.mul_pos (den_scaled_pos m e) (num_scaled_pos Nat.one_pos x)

/-- Measured in a smaller power, a number has more digits. -/
theorem div_scaled_of_ge {m k : Nat} {e x : Int} (h : e = x + k) :
    ((scaled 2 m e).div (scaled 2 1 x)).num = m * 2 ^ k * ((scaled 2 m e).div (scaled 2 1 x)).den := by
  unfold scaled div
  -- A power of two stands above the line if its exponent is not negative, and below the line if it is.
  by_cases he : 0 ≤ e <;> by_cases hx : 0 ≤ x
  · have hpow : e.toNat = k + x.toNat := by omega
    simp [he, hx, hpow, Nat.pow_add, Nat.mul_assoc]
  · have hpow : k = e.toNat + (-x).toNat := by omega
    simp [he, hx, hpow, Nat.pow_add, Nat.mul_assoc]
  · omega
  · have hpow : (-x).toNat = k + (-e).toNat := by omega
    simp [he, hx, hpow, Nat.pow_add, Nat.mul_assoc]

/-- Measured in a larger power, a number with enough zeros at its end has fewer digits. -/
theorem div_scaled_of_le {q k : Nat} {e x : Int} (h : x = e + k) :
    ((scaled 2 (q * 2 ^ k) e).div (scaled 2 1 x)).num = q * ((scaled 2 (q * 2 ^ k) e).div (scaled 2 1 x)).den := by
  unfold scaled div
  by_cases he : 0 ≤ e <;> by_cases hx : 0 ≤ x
  · have hpow : x.toNat = k + e.toNat := by omega
    simp [he, hx, hpow, Nat.pow_add, Nat.mul_assoc]
  · omega
  · have hpow : k = x.toNat + (-e).toNat := by omega
    simp [he, hx, hpow, Nat.pow_add, Nat.mul_comm]
  · have hpow : (-e).toNat = k + (-x).toNat := by omega
    simp [he, hx, hpow, Nat.pow_add, Nat.mul_assoc]

/-- The denominator of a measured number does not depend on its digits, and its numerator grows with them. -/
theorem div_scaled_mono {m n : Nat} (h : m ≤ n) (e : Int) (r : Ratio) :
    ((scaled 2 m e).div r).den = ((scaled 2 n e).div r).den ∧
      ((scaled 2 m e).div r).num ≤ ((scaled 2 n e).div r).num := by
  unfold scaled div
  split
  · exact ⟨rfl, Nat.mul_le_mul_right _ (Nat.mul_le_mul_right _ h)⟩
  · exact ⟨rfl, Nat.mul_le_mul_right _ h⟩

theorem log2_mul_two_pow {m : Nat} (hm : 0 < m) (k : Nat) : (m * 2 ^ k).log2 = m.log2 + k := by
  have hlow : 2 ^ m.log2 ≤ m := (Nat.le_log2 (by omega)).1 (Nat.le_refl _)
  have hhigh : m < 2 ^ (m.log2 + 1) := (Nat.log2_lt (by omega)).1 (Nat.lt_succ_self _)
  rw [Nat.log2_eq_iff (Nat.ne_of_gt (Nat.mul_pos hm (Nat.two_pow_pos k)))]
  constructor
  · rw [Nat.pow_add]
    exact Nat.mul_le_mul_right _ hlow
  · rw [Nat.add_right_comm, Nat.pow_add]
    exact (Nat.mul_lt_mul_right (Nat.two_pow_pos k)).2 hhigh

/-- Moved up until its first digit stands at a given place, a number stays below the next place. -/
theorem moved_up_bounds {m n : Nat} (hm : 0 < m) (h : m.log2 ≤ n) :
    2 ^ n ≤ m * 2 ^ (n - m.log2) ∧ m * 2 ^ (n - m.log2) < 2 ^ (n + 1) := by
  have hne : m ≠ 0 := Nat.ne_of_gt hm
  constructor
  · have hlow : 2 ^ m.log2 ≤ m := (Nat.le_log2 hne).1 (Nat.le_refl _)
    calc 2 ^ n = 2 ^ m.log2 * 2 ^ (n - m.log2) := by rw [← Nat.pow_add, Nat.add_sub_cancel' h]
      _ ≤ m * 2 ^ (n - m.log2) := Nat.mul_le_mul_right _ hlow
  · have hhigh : m < 2 ^ (m.log2 + 1) := (Nat.log2_lt hne).1 (Nat.lt_succ_self _)
    calc m * 2 ^ (n - m.log2) < 2 ^ (m.log2 + 1) * 2 ^ (n - m.log2) :=
          (Nat.mul_lt_mul_right (Nat.two_pow_pos _)).2 hhigh
      _ = 2 ^ (n + 1) := by rw [← Nat.pow_add, Nat.add_right_comm, Nat.add_sub_cancel' h]

/-- The position of the first digit is the one of the significand, moved by the exponent. -/
theorem log2_scaled {m : Nat} (hm : 0 < m) (e : Int) :
    ((scaled 2 m e).num.log2 : Int) - (scaled 2 m e).den.log2 = m.log2 + e := by
  have hone : Nat.log2 1 = 0 := rfl
  unfold scaled
  by_cases he : 0 ≤ e
  · simp only [he, if_true, log2_mul_two_pow hm, hone]
    omega
  · simp only [he, if_false, Nat.log2_two_pow]
    omega

end Ratio

namespace BinaryFormat

open Ratio

variable (f : BinaryFormat)

/-- The exponent at which a number has as many digits as the format holds. -/
theorem exponentFor_scaled {m : Nat} (hm : 0 < m) (e : Int) :
    f.exponentFor (.scaled 2 m e) = max (m.log2 + e - f.fractionBits) f.leastExponent := by
  have hlow : 2 ^ m.log2 ≤ m := (Nat.le_log2 (by omega)).1 (Nat.le_refl _)
  -- The guess from the first digits is right, as a power of two below the number has enough digits there.
  have hguess : ((scaled 2 m e).num.log2 : Int) - (scaled 2 m e).den.log2 - f.fractionBits =
      m.log2 + e - f.fractionBits := by
    rw [log2_scaled hm]
  have hdigits : ¬ (((scaled 2 m e).div (scaled 2 1 (m.log2 + e - f.fractionBits))).num /
      ((scaled 2 m e).div (scaled 2 1 (m.log2 + e - f.fractionBits))).den < 2 ^ f.fractionBits) := by
    obtain ⟨hden, hnum⟩ := div_scaled_mono hlow e (scaled 2 1 (m.log2 + e - f.fractionBits))
    rw [Nat.not_lt, Nat.le_div_iff_mul_le (den_div_scaled_pos _ _ _), ← hden]
    refine Nat.le_trans (Nat.le_of_eq ?_) hnum
    by_cases hle : m.log2 ≤ f.fractionBits
    · have hexact := @div_scaled_of_ge (2 ^ m.log2) (f.fractionBits - m.log2) e (m.log2 + e - f.fractionBits) (by omega)
      rw [← Nat.pow_add, Nat.add_sub_cancel' hle] at hexact
      exact hexact.symm
    · have hexact := @div_scaled_of_le (2 ^ f.fractionBits) (m.log2 - f.fractionBits) e (m.log2 + e - f.fractionBits)
        (by omega)
      rw [← Nat.pow_add, Nat.add_sub_cancel' (by omega)] at hexact
      exact hexact.symm
  simp only [exponentFor, hguess, hdigits, if_false]

/-- A number that the format holds is rounded to itself: `q` is its significand at the exponent of the format. -/
theorem roundMagnitude_scaled {m q : Nat} {e x : Int} (hm : 0 < m)
    (hx : x = max (m.log2 + e - f.fractionBits) f.leastExponent)
    (hq : (∃ k : Nat, e = x + k ∧ q = m * 2 ^ k) ∨ ∃ k : Nat, x = e + k ∧ m = q * 2 ^ k) :
    f.roundMagnitude (.scaled 2 m e) =
      min f.infinityBits ((x - f.leastExponent).toNat * 2 ^ f.fractionBits + q) := by
  have hexponent : f.exponentFor (.scaled 2 m e) = x := by
    rw [exponentFor_scaled f hm, hx]
  have hnearest : ((scaled 2 m e).div (scaled 2 1 x)).nearestEven = q := by
    apply nearestEven_of_dvd (den_div_scaled_pos _ _ _)
    rcases hq with ⟨k, he, rfl⟩ | ⟨k, he, rfl⟩
    · exact div_scaled_of_ge he
    · exact div_scaled_of_le he
  have hpos : (scaled 2 m e).num ≠ 0 := Nat.ne_of_gt (num_scaled_pos hm e)
  simp only [roundMagnitude, if_neg hpos, hexponent, hnearest]

/-! ## Bit patterns -/

/-- The weight of a sign. -/
def signWeight (negative : Bool) : Nat := if negative then f.signBit else 0

/-- What a bit pattern stands for, and the parts that it is put together from. -/
theorem unpack_cases {bits : Nat} (hbits : bits < 2 * f.signBit) :
    f.unpack bits = .nan ∨
    (∃ negative, f.unpack bits = .infinite negative ∧ bits = f.signWeight negative + f.infinityBits) ∨
    ∃ (negative : Bool) (m k : Nat), f.unpack bits = .finite negative m (f.leastExponent + k) ∧
      bits = f.signWeight negative + k * 2 ^ f.fractionBits + m ∧ m < 2 ^ (f.fractionBits + 1) ∧
        (2 ^ f.fractionBits ≤ m ∧ k + 2 < 2 ^ f.exponentBits ∨ k = 0) := by
  obtain ⟨u, hu⟩ : ∃ u, 2 ^ f.fractionBits = u := ⟨_, rfl⟩
  obtain ⟨w, hw⟩ : ∃ w, 2 ^ f.exponentBits = w := ⟨_, rfl⟩
  have hupos : 0 < u := hu ▸ Nat.two_pow_pos _
  have hwpos : 0 < w := hw ▸ Nat.two_pow_pos _
  have hsign : f.signBit = u * w := by rw [signBit, Nat.pow_add, hu, hw]
  have hinfinity : f.infinityBits = (w - 1) * u := by rw [infinityBits, hu, hw]
  -- The pattern in its parts: fraction, exponent and sign.
  obtain ⟨q, hq⟩ : ∃ q, bits / u = q := ⟨_, rfl⟩
  have hfraction : bits = q * u + bits % u := by rw [← hq, Nat.div_add_mod']
  have hexponent : q = q / w * w + q % w := (Nat.div_add_mod' q w).symm
  have hquotient : bits / f.signBit = q / w := by rw [hsign, ← Nat.div_div_eq_div_mul, hq]
  have hlow : bits % u < u := Nat.mod_lt _ hupos
  have hbiased : q % w < w := Nat.mod_lt _ hwpos
  have htop : q / w < 2 := by
    rw [← hquotient]
    exact Nat.div_lt_of_lt_mul (by rwa [Nat.mul_comm])
  have hweight : f.signWeight (q / w % 2 == 1) = q / w * w * u := by
    unfold signWeight
    rcases Nat.le_one_iff_eq_zero_or_eq_one.1 (Nat.lt_succ_iff.1 htop) with h | h
    · simp [h]
    · simp [h, hsign, Nat.mul_comm]
  have hall : bits = q / w * w * u + q % w * u + bits % u := by
    rw [← Nat.add_mul, ← hexponent]
    exact hfraction
  simp only [unpack, hquotient, hu, hw, hq]
  by_cases hlast : q % w = w - 1
  · rw [if_pos hlast]
    by_cases hzero : bits % u = 0
    · rw [if_pos hzero]
      refine .inr (.inl ⟨_, rfl, ?_⟩)
      rw [hweight, hinfinity, ← hlast]
      omega
    · rw [if_neg hzero]
      exact .inl rfl
  · rw [if_neg hlast]
    by_cases hzero : q % w = 0
    · rw [if_pos hzero]
      refine .inr (.inr ⟨q / w % 2 == 1, bits % u, 0, ?_, ?_, ?_, .inr rfl⟩)
      · simp
      · rw [hweight]
        rw [hzero] at hall
        omega
      · rw [Nat.pow_succ, hu]
        omega
    · rw [if_neg hzero]
      obtain ⟨k, hk⟩ : ∃ k, q % w = k + 1 := ⟨q % w - 1, by omega⟩
      refine .inr (.inr ⟨q / w % 2 == 1, u + bits % u, k, ?_, ?_, ?_, .inl ⟨Nat.le_add_right .., by omega⟩⟩)
      · congr 1
        omega
      · rw [hweight]
        rw [hk, Nat.add_mul] at hall
        omega
      · rw [Nat.pow_succ, hu]
        omega

end BinaryFormat

/-! ## Singles -/

/-- The weight of the sign of a single. -/
def singleSign (negative : Bool) : Nat := if negative then 2 ^ 31 else 0

/-- The weight of the sign of a double. -/
def doubleSign (negative : Bool) : Nat := if negative then 2 ^ 63 else 0

/-- What the bits of a single stand for, and the bits of it. -/
theorem Single.value_cases (x : Single) :
    x.value = .nan ∨
    (∃ negative, x.value = .infinite negative ∧ x.bits.toNat = singleSign negative + 255 * 2 ^ 23) ∨
    ∃ (negative : Bool) (m k : Nat), x.value = .finite negative m (k - 149) ∧
      x.bits.toNat = singleSign negative + k * 2 ^ 23 + m ∧ k ≤ 253 ∧ m < 2 ^ 24 ∧ (2 ^ 23 ≤ m ∨ k = 0) := by
  have hsign : BinaryFormat.single.signBit = 2 ^ 31 := rfl
  have hleast : BinaryFormat.single.leastExponent = -149 := rfl
  have hfraction : BinaryFormat.single.fractionBits = 23 := rfl
  have hexponent : BinaryFormat.single.exponentBits = 8 := rfl
  have hbits : x.bits.toNat < 2 * BinaryFormat.single.signBit := x.bits.toNat_lt
  rcases BinaryFormat.single.unpack_cases hbits with hnan | hinfinite | ⟨negative, m, k, hvalue, hparts, hm, hnormal⟩
  · exact .inl hnan
  · exact .inr (.inl hinfinite)
  · rw [hfraction, hexponent] at hnormal
    rw [hfraction] at hparts hm
    refine .inr (.inr ⟨negative, m, k, ?_, hparts, by omega, hm, hnormal.imp_left And.left⟩)
    have hplace : BinaryFormat.single.leastExponent + k = (k : Int) - 149 := by omega
    rwa [hplace] at hvalue

/-- The value of a double, given its bits in parts. -/
theorem unpack_double {negative : Bool} {k m : Nat} (hk : k < 2046) (hlow : 2 ^ 52 ≤ m) (hhigh : m < 2 ^ 53) :
    BinaryFormat.double.unpack (doubleSign negative + k * 2 ^ 52 + m) = .finite negative m (k - 1074) := by
  have hsign : BinaryFormat.double.signBit = 2 ^ 63 := rfl
  have hleast : BinaryFormat.double.leastExponent = -1074 := rfl
  have hfraction : BinaryFormat.double.fractionBits = 52 := rfl
  have hexponent : BinaryFormat.double.exponentBits = 11 := rfl
  obtain ⟨s, hs, hsmall⟩ : ∃ s, doubleSign negative = s * 2 ^ 63 ∧ ((s == 1) = negative ∧ s < 2) := by
    cases negative
    · exact ⟨0, rfl, rfl, by decide⟩
    · exact ⟨1, rfl, rfl, by decide⟩
  have hnegative : (s * 2 ^ 63 + k * 2 ^ 52 + m) / 2 ^ 63 % 2 = s := by omega
  have hbiased : (s * 2 ^ 63 + k * 2 ^ 52 + m) / 2 ^ 52 % 2 ^ 11 = k + 1 := by omega
  have hrest : (s * 2 ^ 63 + k * 2 ^ 52 + m) % 2 ^ 52 = m - 2 ^ 52 := by omega
  simp only [BinaryFormat.unpack, hsign, hleast, hfraction, hexponent, hs, hnegative, hbiased, hrest, hsmall.1]
  have hsignificand : 2 ^ 52 + (m - 2 ^ 52) = m := Nat.add_sub_cancel' hlow
  have hplace : (-1074 + ((k + 1 : Nat) - 1) : Int) = k - 1074 := by omega
  rw [if_neg (by omega), if_neg (by omega), hsignificand, hplace]

theorem Double.toNat_bits_ofValue {v : BinaryValue} (h : BinaryFormat.double.pack v < 2 ^ 64) :
    (Double.ofValue v).bits.toNat = BinaryFormat.double.pack v :=
  UInt64.toNat_ofNat_of_lt' h

theorem Single.ofValue_eq {x : Single} {v : BinaryValue} (h : BinaryFormat.single.pack v = x.bits.toNat) :
    Single.ofValue v = x := by
  cases x with
  | mk bits =>
      have hbits : UInt32.ofNat (BinaryFormat.single.pack v) = bits := by
        rw [h]
        exact UInt32.ofNat_toNat
      show Single.mk (UInt32.ofNat (BinaryFormat.single.pack v)) = Single.mk bits
      rw [hbits]

/-- A significand that a single holds is moved up to the first place of a double. -/
theorem Double.value_ofValue_finite {m k : Nat} (negative : Bool) (hm : 0 < m) (hhigh : m < 2 ^ 24) (hk : k ≤ 253) :
    (Double.ofValue (.finite negative m (k - 149))).value =
      .finite negative (m * 2 ^ (52 - m.log2)) (k - 149 - (52 - m.log2 : Nat)) := by
  have hlog : m.log2 < 24 := (Nat.log2_lt (by omega)).2 hhigh
  have hleast : BinaryFormat.double.leastExponent = -1074 := rfl
  have hfraction : BinaryFormat.double.fractionBits = 52 := rfl
  have hinfinity : BinaryFormat.double.infinityBits = 2047 * 2 ^ 52 := rfl
  obtain ⟨hlow, hbelow⟩ := Ratio.moved_up_bounds hm (show m.log2 ≤ 52 by omega)
  -- A double has more digits than a single and a smaller least exponent, so the first digit is moved to place 52.
  have hround := BinaryFormat.double.roundMagnitude_scaled hm
    (show (m.log2 : Int) + k - 201 = max (m.log2 + (k - 149 : Int) - BinaryFormat.double.fractionBits)
      BinaryFormat.double.leastExponent by omega)
    (.inl ⟨52 - m.log2, by omega, rfl⟩)
  have hshift : ((m.log2 : Int) + k - 201 - BinaryFormat.double.leastExponent).toNat = m.log2 + k + 873 := by omega
  rw [hshift, hfraction, Nat.min_eq_right (by omega)] at hround
  have hpack : BinaryFormat.double.pack (.finite negative m (k - 149)) =
      doubleSign negative + (m.log2 + k + 873) * 2 ^ 52 + m * 2 ^ (52 - m.log2) := by
    show doubleSign negative + BinaryFormat.double.roundMagnitude (.scaled 2 m (k - 149)) = _
    rw [hround, Nat.add_assoc (doubleSign negative)]
  have hsign : doubleSign negative ≤ 2 ^ 63 := by
    cases negative <;> decide
  have hbits : (Double.ofValue (.finite negative m (k - 149))).bits.toNat = _ :=
    (Double.toNat_bits_ofValue (by omega)).trans hpack
  have hplace : ((m.log2 + k + 873 : Nat) - 1074 : Int) = k - 149 - (52 - m.log2 : Nat) := by omega
  rw [Double.value, hbits, unpack_double (by omega) hlow hbelow, hplace]

/-- Moved up to the first place of a double, a significand that a single holds is rounded to where it was. -/
theorem Single.pack_moved_up {m k : Nat} (negative : Bool) (hm : 0 < m) (hhigh : m < 2 ^ 24) (hk : k ≤ 253)
    (hnormal : 2 ^ 23 ≤ m ∨ k = 0) :
    BinaryFormat.single.pack (.finite negative (m * 2 ^ (52 - m.log2)) (k - 149 - (52 - m.log2 : Nat))) =
      singleSign negative + k * 2 ^ 23 + m := by
  have hleast : BinaryFormat.single.leastExponent = -149 := rfl
  have hfraction : BinaryFormat.single.fractionBits = 23 := rfl
  have hinfinity : BinaryFormat.single.infinityBits = 255 * 2 ^ 23 := rfl
  have hlog : m.log2 < 24 := (Nat.log2_lt (by omega)).2 hhigh
  have hplaces : 2 ^ 23 ≤ m → m.log2 = 23 := fun h => (Nat.log2_eq_iff (by omega)).2 ⟨h, hhigh⟩
  have hlarge : (m * 2 ^ (52 - m.log2)).log2 = 52 := by
    rw [Ratio.log2_mul_two_pow hm]
    omega
  -- A significand below the first place of a single stands at the least exponent, so it is not moved further down.
  have hround := BinaryFormat.single.roundMagnitude_scaled (Nat.mul_pos hm (Nat.two_pow_pos (52 - m.log2)))
    (show (k : Int) - 149 = max ((m * 2 ^ (52 - m.log2)).log2 + (k - 149 - (52 - m.log2 : Nat) : Int) -
      BinaryFormat.single.fractionBits) BinaryFormat.single.leastExponent by omega)
    (.inr ⟨52 - m.log2, by omega, rfl⟩)
  have hshift : ((k : Int) - 149 - BinaryFormat.single.leastExponent).toNat = k := by omega
  rw [hshift, hfraction, Nat.min_eq_right (by omega)] at hround
  show singleSign negative + BinaryFormat.single.roundMagnitude _ = _
  rw [hround, Nat.add_assoc]

/-- Rounding a widened single gives its bits back. -/
theorem Single.narrow_widen {x : Single} (hx : x.value ≠ .nan) : x.widen.narrow = x := by
  rcases x.value_cases with hnan | ⟨negative, hvalue, hbits⟩ | ⟨negative, m, k, hvalue, hbits, hk, hm, hnormal⟩
  · exact absurd hnan hx
  · have hdouble : (Double.ofValue (.infinite negative)).value = .infinite negative := by
      cases negative <;> rfl
    rw [widen, hvalue, Double.narrow, hdouble]
    apply ofValue_eq
    rw [hbits]
    rfl
  · rw [widen, hvalue, Double.narrow]
    rcases Nat.eq_zero_or_pos m with rfl | hpos
    -- Zero has no first digit to move.
    · obtain rfl : k = 0 := by omega
      have hdouble : (Double.ofValue (.finite negative 0 ((0 : Nat) - 149))).value = .finite negative 0 (-1074) := by
        cases negative <;> rfl
      rw [hdouble]
      apply ofValue_eq
      rw [hbits]
      cases negative <;> rfl
    · rw [Double.value_ofValue_finite negative hpos hm hk]
      apply ofValue_eq
      rw [Single.pack_moved_up negative hpos hm hk hnormal, hbits]

end RecordTables
