import RecordTables.Engine.Affinity
import RecordTables.Proofs.Number.Widening

/-!
# Doubles that are integers

A double that denotes an integer is found again from the integer.  Only a zero with a sign loses it, so a column of real
numbers keeps every other number as it is.
-/

namespace RecordTables

/-! ## Digits that are moved -/

namespace Ratio

/-- A number has the digits of another one, moved by some places. -/
def Moved (q m : Nat) (e : Int) : Prop := (∃ j : Nat, e = j ∧ q = m * 2 ^ j) ∨ ∃ j : Nat, e = -j ∧ m = q * 2 ^ j

variable {q m : Nat} {e : Int}

/-- An integer that is a multiple of a power of two has the digits of the factor. -/
theorem moved_of_whole (h : (scaled 2 m e).num % (scaled 2 m e).den = 0) :
    Moved ((scaled 2 m e).num / (scaled 2 m e).den) m e := by
  unfold scaled at h ⊢
  by_cases hplace : 0 ≤ e
  · rw [if_pos hplace]
    exact .inl ⟨e.toNat, by omega, Nat.div_one _⟩
  · rw [if_neg hplace] at h ⊢
    exact .inr ⟨(-e).toNat, by omega, (Nat.div_mul_cancel (Nat.dvd_of_mod_eq_zero h)).symm⟩

theorem Moved.pos (h : Moved q m e) (hm : 0 < m) : 0 < q := by
  rcases h with ⟨j, -, rfl⟩ | ⟨j, -, rfl⟩
  · exact Nat.mul_pos hm (Nat.two_pow_pos j)
  · exact Nat.pos_of_mul_pos_right hm

theorem Moved.log2 (h : Moved q m e) (hm : 0 < m) : (q.log2 : Int) = m.log2 + e := by
  have hq := h.pos hm
  rcases h with ⟨j, hj, rfl⟩ | ⟨j, hj, rfl⟩
  · rw [log2_mul_two_pow hm]
    omega
  · rw [log2_mul_two_pow hq]
    omega

end Ratio

namespace Double

/-- A magnitude of a double is rounded to itself, if it is an integer. -/
theorem roundMagnitude_moved {q m k : Nat} (hmoved : Ratio.Moved q m (-1074 + k)) (hpos : 0 < m) (hm : m < 2 ^ 53)
    (hnormal : 2 ^ 52 ≤ m ∧ k + 2 < 2 ^ 11 ∨ k = 0) :
    BinaryFormat.double.roundMagnitude (.scaled 2 q 0) = k * 2 ^ 52 + m := by
  have hleast : BinaryFormat.double.leastExponent = -1074 := rfl
  have hfraction : BinaryFormat.double.fractionBits = 52 := rfl
  have hinfinity : BinaryFormat.double.infinityBits = 2047 * 2 ^ 52 := rfl
  have hlog := hmoved.log2 hpos
  have hdigits : m.log2 ≤ 52 := Nat.le_of_lt_succ ((Nat.log2_lt (by omega)).2 hm)
  have hfull : 0 < k → m.log2 = 52 := fun hk => (Nat.log2_eq_iff (by omega)).2 ⟨by omega, hm⟩
  have hround := BinaryFormat.double.roundMagnitude_scaled (q := m) (e := 0) (x := -1074 + k) (hmoved.pos hpos)
    (by omega) (by
      rcases hmoved with ⟨j, hj, rfl⟩ | ⟨j, hj, rfl⟩
      · exact .inr ⟨j, by omega, rfl⟩
      · exact .inl ⟨j, by omega, rfl⟩)
  have hshift : (-1074 + k - BinaryFormat.double.leastExponent : Int).toNat = k := by omega
  rwa [hshift, hfraction, Nat.min_eq_right (by omega)] at hround

theorem ofValue_eq {x : Double} {v : BinaryValue} (h : BinaryFormat.double.pack v = x.bits.toNat) : ofValue v = x := by
  cases x with
  | mk bits =>
      have hbits : UInt64.ofNat (BinaryFormat.double.pack v) = bits := by
        rw [h]
        exact UInt64.ofNat_toNat
      exact congrArg Double.mk hbits

/-- The zero that has a sign. -/
def negativeZero : Double := ⟨0x8000000000000000⟩

/-- A double that denotes an integer is the double of the integer, unless it is zero with a sign. -/
theorem ofInt_of_toInt? {x : Double} {n : Int} (h : x.toInt? = some n) (hzero : x ≠ negativeZero) :
    ofInt n = x := by
  have hsign : BinaryFormat.double.signBit = 2 ^ 63 := rfl
  have hleast : BinaryFormat.double.leastExponent = -1074 := rfl
  have hfraction : BinaryFormat.double.fractionBits = 52 := rfl
  have hexponent : BinaryFormat.double.exponentBits = 11 := rfl
  rw [toInt?] at h
  have hbound : x.bits.toNat < 2 * BinaryFormat.double.signBit := by
    have hlt := x.bits.toNat_lt
    omega
  rcases BinaryFormat.double.unpack_cases hbound with
    hnan | ⟨negative, hvalue, -⟩ | ⟨negative, m, k, hvalue, hbits, hm, hnormal⟩
  · rw [value, hnan] at h
    cases h
  · rw [value, hvalue] at h
    cases h
  rw [value, hvalue, hleast] at h
  rw [hfraction, hexponent] at hnormal
  rw [hfraction] at hbits hm
  simp only [BinaryValue.toInt?, Option.ite_none_right_eq_some, Option.some.injEq] at h
  obtain ⟨hwhole, hn⟩ := h
  rcases Nat.eq_zero_or_pos m with rfl | hpos
  · obtain rfl : k = 0 := by omega
    obtain rfl : negative = false := by
      cases negative with
      | false => rfl
      | true =>
          cases x with
          | mk bits => exact absurd (congrArg Double.mk (UInt64.toNat_inj.1 hbits)) hzero
    have hnil : ((Ratio.scaled 2 0 (-1074 + (0 : Nat))).num / (Ratio.scaled 2 0 (-1074 + (0 : Nat))).den : Int) = 0 := by
      decide +kernel
    simp only [Bool.false_eq_true, if_false] at hn
    rw [hnil] at hn
    subst hn
    exact ofValue_eq hbits.symm
  · have hmoved := Ratio.moved_of_whole hwhole
    generalize hq : (Ratio.scaled 2 m (-1074 + k)).num / (Ratio.scaled 2 m (-1074 + k)).den = q at hmoved
    rw [← Int.natCast_ediv, hq] at hn
    have hqpos := hmoved.pos hpos
    have hsigned : decide (n < 0) = negative ∧ n.natAbs = q := by
      cases negative <;> simp at hn <;> simp [← hn]; omega
    apply ofValue_eq
    show BinaryFormat.double.pack (.finite (n < 0) n.natAbs 0) = _
    rw [hsigned.1, hsigned.2, hbits, Nat.add_assoc, ← roundMagnitude_moved hmoved hpos hm hnormal]
    rfl

end Double

namespace Engine

/-- A column of real numbers keeps a number, unless it is zero with a sign. -/
theorem asReal_real {x : Double} (h : x ≠ Double.negativeZero) : asReal (.real x) = .real x := by
  rw [asReal]
  cases hexact : exactInteger? x with
  | none => rfl
  | some n =>
      unfold exactInteger? at hexact
      split at hexact
      · rename_i m hm
        split at hexact
        · rename_i hrange
          cases hexact
          have hbound : signedBound = 2 ^ 63 := rfl
          have hback : (Int64.ofInt m).toInt = m := Int64.toInt_ofInt_of_le (by omega) (by omega)
          show StoredValue.real (.ofInt (Int64.ofInt m).toInt) = _
          rw [hback, Double.ofInt_of_toInt? hm h]
        · cases hexact
      · cases hexact

end Engine

end RecordTables
