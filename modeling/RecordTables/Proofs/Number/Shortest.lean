import RecordTables.Number.Decimal
import RecordTables.Proofs.Number.Rounding

/-!
# Shortest digits

The search for the shortest digits of a number finds a point of some grid between the ends of the numbers that round to
it, so these digits are not above the upper end.
-/

namespace RecordTables

namespace Ratio

variable {a b : Ratio}

theorem order_eq_lt (ha : 0 < a.den) (hb : 0 < b.den) : a.order b = .lt ↔ a.value < b.value := by
  have ha' : (0 : ℚ) < a.den := by exact_mod_cast ha
  have hb' : (0 : ℚ) < b.den := by exact_mod_cast hb
  rw [order, Nat.compare_eq_lt, value, value, div_lt_div_iff₀ ha' hb']
  exact_mod_cast Iff.rfl

theorem order_ne_gt (ha : 0 < a.den) (hb : 0 < b.den) : a.order b ≠ .gt ↔ a.value ≤ b.value := by
  have ha' : (0 : ℚ) < a.den := by exact_mod_cast ha
  have hb' : (0 : ℚ) < b.den := by exact_mod_cast hb
  rw [order, ne_eq, Nat.compare_eq_gt, Nat.not_lt, value, value, div_le_div_iff₀ ha' hb']
  exact_mod_cast Iff.rfl

theorem den_scaled_pos_of_pos {base : Nat} (hbase : 0 < base) (m : Nat) (e : Int) : 0 < (scaled base m e).den := by
  unfold scaled
  split
  · exact Nat.one_pos
  · exact Nat.pow_pos hbase

end Ratio

namespace Decimal

open Ratio

/-- The number that a decimal stands for. -/
theorem value_ratio (d : Decimal) : d.ratio.value = d.coefficient * 10 ^ d.exponent := by
  rw [ratio, value_scaled]
  norm_num

theorem den_ratio_pos (d : Decimal) : 0 < d.ratio.den := den_scaled_pos_of_pos (by decide) _ _

/-- Trailing zeros do not count. -/
theorem value_trim (d : Decimal) (hpos : 0 < d.coefficient) :
    0 < d.trim.coefficient ∧ d.trim.ratio.value = d.ratio.value := by
  have hgo : ∀ (fuel c : Nat) (e : Int), 0 < c → 0 < (trim.go fuel c e).coefficient ∧
      (trim.go fuel c e).ratio.value = (⟨c, e⟩ : Decimal).ratio.value := by
    intro fuel
    induction fuel with
    | zero => exact fun c e hc => ⟨hc, rfl⟩
    | succ fuel ih =>
        intro c e hc
        unfold trim.go
        split
        · rename_i hzero
          obtain ⟨hpositive, hvalue⟩ := ih (c / 10) (e + 1) (by omega)
          refine ⟨hpositive, hvalue.trans ?_⟩
          have hten : c = c / 10 * 10 := by omega
          rw [value_ratio, value_ratio]
          dsimp only
          rw [zpow_add₀ (by norm_num), zpow_one]
          nth_rewrite 2 [hten]
          push_cast
          ring
        · exact ⟨hc, rfl⟩
  exact hgo _ _ _ hpos

namespace Interval

variable {i : Interval} {tie : TieRule}

/-- What rounds to the number of an interval is not above its upper end. -/
theorem order_of_holds {r : Ratio} (h : i.holds r = true) : r.order i.high ≠ .gt := by
  intro hgt
  unfold holds at h
  rw [hgt] at h
  split at h <;> simp_all

/-- A point of a grid is positive and rounds to the number of the interval. -/
theorem onGrid_some {exponent : Int} {d : Decimal} (h : i.onGrid? tie exponent = some d) :
    0 < d.coefficient ∧ i.holds d.ratio = true := by
  unfold onGrid? at h
  dsimp only at h
  generalize (i.centre.div (.scaled 10 1 exponent)).num = num at h
  generalize (i.centre.div (.scaled 10 1 exponent)).den = den at h
  have hbelow : ∀ {c : Nat}, (c != 0 && i.holds (⟨c, exponent⟩ : Decimal).ratio) = true →
      0 < c ∧ i.holds (⟨c, exponent⟩ : Decimal).ratio = true := by
    intro c hc
    rw [Bool.and_eq_true, bne_iff_ne] at hc
    exact ⟨Nat.pos_of_ne_zero hc.1, hc.2⟩
  split at h
  · rename_i hboth
    rw [Bool.and_eq_true] at hboth
    split at h
    · cases h
      exact hbelow hboth.1
    · cases h
      exact ⟨Nat.succ_pos _, hboth.2⟩
    · split at h
      · cases h
        exact hbelow hboth.1
      · cases h
        exact ⟨Nat.succ_pos _, hboth.2⟩
  · split at h
    · rename_i hfits
      cases h
      exact hbelow hfits
    · split at h
      · rename_i hfits
        cases h
        exact ⟨Nat.succ_pos _, hfits⟩
      · cases h

/-- The search ends on a grid that has a point in the interval, if one is fine enough. -/
theorem coarsest_onGrid {fuel : Nat} {exponent : Int}
    (h : ∃ j : Nat, j < fuel ∧ (i.onGrid? tie (exponent - j)).isSome = true) :
    ∃ e, i.onGrid? tie e = some (i.coarsest tie fuel exponent) := by
  induction fuel generalizing exponent with
  | zero =>
      obtain ⟨j, hj, _⟩ := h
      omega
  | succ fuel ih =>
      unfold coarsest
      split
      · rename_i d hd
        exact ⟨exponent, hd⟩
      · rename_i hnone
        obtain ⟨j, hj, hsome⟩ := h
        apply ih
        cases j with
        | zero =>
            rw [Int.natCast_zero, Int.sub_zero, hnone] at hsome
            cases hsome
        | succ j =>
            refine ⟨j, by omega, ?_⟩
            have hgrid : exponent - ((j + 1 : Nat) : Int) = exponent - 1 - j := by omega
            rwa [hgrid] at hsome

section

variable {f : BinaryFormat} {m : Nat} {e exponent : Int}

theorem value_centre_of : (Interval.of f m e).centre.value = 4 * m * 2 ^ (e - 2) := by
  show (scaled 2 (4 * m) (e - 2)).value = _
  rw [value_scaled]
  push_cast
  rfl

theorem value_high_of : (Interval.of f m e).high.value = (4 * m + 2) * 2 ^ (e - 2) := by
  show (scaled 2 (4 * m + 2) (e - 2)).value = _
  rw [value_scaled]
  push_cast
  rfl

theorem value_low_of_lt (hm : 0 < m) : (Interval.of f m e).low.value < 4 * m * 2 ^ (e - 2) := by
  show (scaled 2 (4 * m - _) (e - 2)).value < _
  rw [value_scaled]
  push_cast
  gcongr
  have hless : 4 * m - (if m = 2 ^ f.fractionBits ∧ f.leastExponent < e then 1 else 2) < 4 * m := by
    split <;> omega
  exact_mod_cast hless

/-- The centre stands between two neighbours on a grid. -/
theorem grid_bounds {below : Nat} (hbelow : ((Interval.of f m e).centre.div (scaled 10 1 exponent)).num /
      ((Interval.of f m e).centre.div (scaled 10 1 exponent)).den = below) :
    (below : ℚ) * 10 ^ exponent ≤ 4 * m * 2 ^ (e - 2) ∧ 4 * m * 2 ^ (e - 2) < (below + 1) * (10 : ℚ) ^ exponent := by
  have hunit : (0 : ℚ) < 10 ^ exponent := by positivity
  have hsteps : ((Interval.of f m e).centre.div (scaled 10 1 exponent)).value = 4 * m * 2 ^ (e - 2) / 10 ^ exponent := by
    rw [value_div, value_scaled, value_centre_of]
    norm_num
  have hden : 0 < ((Interval.of f m e).centre.div (scaled 10 1 exponent)).den := by
    refine Nat.mul_pos (den_scaled_pos (4 * m) (e - 2)) ?_
    unfold scaled
    split
    · exact Nat.mul_pos Nat.one_pos (Nat.pow_pos (by decide))
    · exact Nat.one_pos
  constructor
  · have h := mt (BinaryFormat.floor_lt_iff hden below).2 (by omega)
    rwa [hsteps, not_lt, le_div_iff₀ hunit] at h
  · have h := (BinaryFormat.floor_lt_iff hden (below + 1)).1 (by omega)
    rw [hsteps, div_lt_iff₀ hunit] at h
    exact_mod_cast h

/-- A decimal between the ends of an interval rounds to its number. -/
theorem holds_of_between {d : Decimal} (hlow : (Interval.of f m e).low.value < d.ratio.value)
    (hhigh : d.ratio.value < (Interval.of f m e).high.value) : (Interval.of f m e).holds d.ratio = true := by
  have hfirst : (Interval.of f m e).low.order d.ratio = .lt :=
    (order_eq_lt (den_scaled_pos _ _) (den_ratio_pos _)).2 hlow
  have hsecond : d.ratio.order (Interval.of f m e).high = .lt :=
    (order_eq_lt (den_ratio_pos _) (den_scaled_pos _ _)).2 hhigh
  unfold holds
  rw [hfirst, hsecond]

/-- A grid whose points are nearer to each other than the upper end is to the centre has a point in the interval: the
one above the centre is at most one step away from it. -/
theorem onGrid_isSome (hm : 0 < m) (hfine : (10 : ℚ) ^ exponent < 2 ^ (e - 1)) :
    ((Interval.of f m e).onGrid? tie exponent).isSome = true := by
  obtain ⟨below, hbelow⟩ : ∃ below, ((Interval.of f m e).centre.div (scaled 10 1 exponent)).num /
      ((Interval.of f m e).centre.div (scaled 10 1 exponent)).den = below := ⟨_, rfl⟩
  obtain ⟨hnext, habove⟩ := grid_bounds hbelow
  have hhalf : (2 : ℚ) ^ (e - 1) = 2 * 2 ^ (e - 2) := by
    rw [← zpow_one_add₀ (by norm_num)]
    congr 1
    ring
  have hvalue : (⟨below + 1, exponent⟩ : Decimal).ratio.value = (below + 1) * 10 ^ exponent := by
    rw [value_ratio]
    push_cast
    rfl
  have hfits : (Interval.of f m e).holds (⟨below + 1, exponent⟩ : Decimal).ratio = true := by
    apply holds_of_between
    · rw [hvalue]
      exact (value_low_of_lt hm).trans habove
    · rw [hvalue, value_high_of]
      linarith
  unfold onGrid?
  dsimp only
  rw [hbelow, hfits]
  split
  · split <;> rfl
  · split
    · rfl
    · rfl

end

end Interval

/-! ## All doubles and singles -/

/-- Twenty-three grids below the first one that is searched, the points are near enough to each other.  Three decimal
digits are less than ten binary ones, and 28 of them are more than 93. -/
theorem fine_grid {e : Int} (hlow : -1074 ≤ e) (hhigh : e ≤ 971) :
    (10 : ℚ) ^ ((e + 53) * 30103 / 100000 - 22) < 2 ^ (e - 1) := by
  obtain ⟨a, ha⟩ : ∃ a, (e + 53) * 30103 / 100000 - 22 = a := ⟨_, rfl⟩
  rw [ha]
  rcases lt_or_ge a 0 with hneg | hpos
  · obtain ⟨t, r, hb, hr⟩ : ∃ t r : Nat, -a = 28 * t + r ∧ r < 28 :=
      ⟨(-a).toNat / 28, (-a).toNat % 28, by omega, by omega⟩
    have hpower : (2 : ℚ) ^ (1 - e) < 10 ^ (-a) := by
      calc (2 : ℚ) ^ (1 - e) < 2 ^ ((93 * t + 3 * r : Nat) : Int) := zpow_lt_zpow_right₀ (by norm_num) (by omega)
        _ = (2 ^ 93) ^ t * (2 ^ 3) ^ r := by rw [zpow_natCast, pow_add, pow_mul, pow_mul]
        _ ≤ (10 ^ 28) ^ t * 10 ^ r := by gcongr <;> norm_num
        _ = 10 ^ (-a) := by
            rw [hb, ← pow_mul, ← pow_add, ← zpow_natCast]
            push_cast
            rfl
    have hinverse := inv_strictAnti₀ (by positivity) hpower
    rw [← zpow_neg, ← zpow_neg, neg_neg, neg_sub] at hinverse
    exact hinverse
  · obtain ⟨t, ht⟩ : ∃ t : Nat, (t : Int) = a / 3 + 1 := ⟨(a / 3 + 1).toNat, by omega⟩
    calc (10 : ℚ) ^ a ≤ 10 ^ ((3 * t : Nat) : Int) := zpow_le_zpow_right₀ (by norm_num) (by omega)
      _ = (10 ^ 3) ^ t := by rw [zpow_natCast, pow_mul]
      _ ≤ (2 ^ 10) ^ t := by
          gcongr
          norm_num
      _ = 2 ^ ((10 * t : Nat) : Int) := by rw [zpow_natCast, pow_mul]
      _ < 2 ^ (e - 1) := zpow_lt_zpow_right₀ (by norm_num) (by omega)

theorem shortest_le {f : BinaryFormat} {m : Nat} {e : Int} (hm : 0 < m) (hdigits : m.log2 ≤ 52) (hlow : -1074 ≤ e)
    (hhigh : e ≤ 971) (tie : TieRule) : 0 < (shortest f tie m e).coefficient ∧
      (shortest f tie m e).ratio.value ≤ (4 * m + 2) * 2 ^ (e - 2) := by
  obtain ⟨start, hstart⟩ : ∃ start, ceilingExponent (Interval.of f m e).centre = start := ⟨_, rfl⟩
  have hlog : ((scaled 2 (4 * m) (e - 2)).num.log2 : Int) - (scaled 2 (4 * m) (e - 2)).den.log2 = m.log2 + e := by
    have hfour : (4 * m).log2 = m.log2 + 2 := by
      rw [Nat.mul_comm]
      exact log2_mul_two_pow hm 2
    rw [log2_scaled (by omega), hfour]
    omega
  have hceiling : start = (m.log2 + e + 1) * 30103 / 100000 + 1 := by
    rw [← hstart, ← hlog]
    rfl
  have hfine : (10 : ℚ) ^ (start - 23) < 2 ^ (e - 1) :=
    (zpow_le_zpow_right₀ (by norm_num) (by omega)).trans_lt (fine_grid hlow hhigh)
  obtain ⟨exponent, hfound⟩ := @Interval.coarsest_onGrid (Interval.of f m e) tie 24 start
    ⟨23, by decide, Interval.onGrid_isSome hm hfine⟩
  obtain ⟨hpos, hholds⟩ := Interval.onGrid_some hfound
  have hle : ((Interval.of f m e).coarsest tie 24 start).ratio.value ≤ (Interval.of f m e).high.value :=
    (order_ne_gt (den_ratio_pos _) (den_scaled_pos _ _)).1 (Interval.order_of_holds hholds)
  have hshortest : shortest f tie m e = ((Interval.of f m e).coarsest tie 24 start).trim := by
    unfold shortest
    rw [if_neg hm.ne']
    simp only [hstart]
  obtain ⟨htrimmed, hvalue⟩ := value_trim _ hpos
  rw [Interval.value_high_of] at hle
  rw [hshortest, hvalue]
  exact ⟨htrimmed, hle⟩

end Decimal

end RecordTables
