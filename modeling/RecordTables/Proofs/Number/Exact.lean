import RecordTables.Proofs.Number.Rounding

/-!
# What the fields of a double spell

A double is a sign, an exponent and a fraction.  `Double.rational?` is the rational number that these spell, and a double
denotes an integer if this number is one.
-/

namespace RecordTables

namespace Ratio

/-- A ratio is an integer if its numerator is a multiple of the denominator. -/
theorem value_eq_intCast_iff {r : Ratio} (hden : 0 < r.den) (n : Int) :
    r.value = n ↔ r.num % r.den = 0 ∧ (r.num : Int) / r.den = n := by
  have hpos : (r.den : ℚ) ≠ 0 := by exact_mod_cast hden.ne'
  rw [value, div_eq_iff hpos]
  constructor
  · intro h
    have hnum : (r.num : Int) = n * r.den := by exact_mod_cast h
    have hwhole : (r.num : Int) % r.den = 0 := by rw [hnum, Int.mul_emod_left]
    refine ⟨by exact_mod_cast hwhole, ?_⟩
    rw [hnum, Int.mul_ediv_cancel _ (by exact_mod_cast hden.ne')]
  · rintro ⟨hwhole, rfl⟩
    rw [← Int.natCast_ediv]
    exact_mod_cast (Nat.div_mul_cancel (Nat.dvd_of_mod_eq_zero hwhole)).symm

end Ratio

/-- A finite value denotes an integer if its number is this integer. -/
theorem BinaryValue.toInt?_finite_eq_some_iff (negative : Bool) (m : Nat) (e n : Int) :
    toInt? (.finite negative m e) = some n ↔ (if negative then -1 else 1) * (m * (2 : ℚ) ^ e) = n := by
  have hvalue : (m : ℚ) * 2 ^ e = (Ratio.scaled 2 m e).value := by
    rw [Ratio.value_scaled]
    norm_num
  have hwhole := Ratio.value_eq_intCast_iff (Ratio.den_scaled_pos m e)
  rw [hvalue]
  simp only [toInt?, Option.ite_none_right_eq_some, Option.some.injEq]
  cases negative with
  | false => simp [hwhole]
  | true =>
      have hneg := hwhole (-n)
      rw [Int.cast_neg] at hneg
      simp [neg_eq_iff_eq_neg, hneg]

namespace Double

variable (x : Double)

/-- The bit of the sign. -/
def signField : Nat := x.bits.toNat / 2 ^ 63

/-- The eleven bits of the exponent. -/
def exponentField : Nat := x.bits.toNat / 2 ^ 52 % 2 ^ 11

/-- The fifty-two bits of the fraction. -/
def fractionField : Nat := x.bits.toNat % 2 ^ 52

/-- The rational number that the fields spell.  The largest exponent is for the infinities and for what is no number;
the least one is for numbers that have no leading bit in front of the fraction. -/
def rational? : Option ℚ :=
  if x.exponentField = 2047 then none
  else if x.exponentField = 0 then some ((-1) ^ x.signField * (x.fractionField * 2 ^ (-1074 : ℤ)))
  else some ((-1) ^ x.signField * ((2 ^ 52 + x.fractionField) * 2 ^ ((x.exponentField : ℤ) - 1075)))

/-- A double denotes an integer exactly if its fields spell this integer. -/
theorem toInt?_eq_some_iff {n : Int} : x.toInt? = some n ↔ x.rational? = some (n : ℚ) := by
  have hbits := x.bits.toNat_lt
  -- Of the quotient by the weight of the sign, one bit is left.
  have hsign : x.signField = 0 ∨ x.signField = 1 := by
    unfold signField
    omega
  have hfactor : (if x.signField % 2 == 1 then -1 else 1 : ℚ) = (-1) ^ x.signField := by
    rcases hsign with h | h <;> rw [h] <;> simp
  have hvalue : x.value = if x.exponentField = 2047 then
        (if x.fractionField = 0 then .infinite (x.signField % 2 == 1) else .nan)
      else if x.exponentField = 0 then .finite (x.signField % 2 == 1) x.fractionField (-1074)
      else .finite (x.signField % 2 == 1) (2 ^ 52 + x.fractionField) (-1074 + (x.exponentField - 1)) := rfl
  rw [toInt?, rational?, hvalue]
  by_cases hlast : x.exponentField = 2047
  · rw [if_pos hlast, if_pos hlast]
    by_cases hzero : x.fractionField = 0 <;> simp [hzero, BinaryValue.toInt?]
  rw [if_neg hlast, if_neg hlast]
  by_cases hfirst : x.exponentField = 0
  · rw [if_pos hfirst, if_pos hfirst, BinaryValue.toInt?_finite_eq_some_iff, hfactor, Option.some.injEq]
  · have hplace : (-1074 + (x.exponentField - 1) : ℤ) = x.exponentField - 1075 := by omega
    rw [if_neg hfirst, if_neg hfirst, BinaryValue.toInt?_finite_eq_some_iff, hfactor, Option.some.injEq, hplace]
    push_cast
    rfl

end Double

end RecordTables
