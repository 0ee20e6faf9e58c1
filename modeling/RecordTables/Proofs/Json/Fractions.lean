import RecordTables.Json.Number
import RecordTables.Proofs.Number.Digits
import RecordTables.Proofs.Number.Rounding

/-!
# Numerals with a value

A numeral with a fraction or an exponent is read by its leading digits, which are scaled by a power of ten and rounded
at each step.  It has a value unless it is too near to the end of the doubles.
-/

namespace RecordTables

/-! ## Digits -/

theorem digitsValue_append (n : Nat) (digits more : List Char) :
    digitsValue n (digits ++ more) = digitsValue (digitsValue n digits) more :=
  List.foldl_append ..

/-- Every digit that follows makes a number ten times as large. -/
theorem le_digitsValue (n : Nat) (digits : List Char) : n * 10 ^ digits.length ≤ digitsValue n digits := by
  induction digits generalizing n with
  | nil => simp [digitsValue]
  | cons c rest ih =>
      refine Nat.le_trans ?_ (ih (10 * n + (c.toNat - '0'.toNat)))
      rw [List.length_cons, Nat.pow_succ', ← Nat.mul_assoc]
      exact Nat.mul_le_mul_right _ (by omega)

namespace Json

/-- What is absorbed are the first digits, which fit into eight bytes. -/
theorem absorb_eq {n : Nat} (hn : n < UInt64.size) (digits : List Char) : ∃ j ≤ digits.length,
    absorb n digits = (digitsValue n (digits.take j), digits.drop j) ∧ digitsValue n (digits.take j) < UInt64.size := by
  induction digits generalizing n with
  | nil => exact ⟨0, Nat.le_refl _, rfl, hn⟩
  | cons c rest ih =>
      unfold absorb
      dsimp only
      split
      · rename_i hnext
        obtain ⟨j, hj, habsorb, hsmall⟩ := ih hnext
        exact ⟨j + 1, Nat.succ_le_succ hj, habsorb, hsmall⟩
      · exact ⟨0, Nat.zero_le _, rfl, hn⟩

/-- Digits that fit into eight bytes are absorbed. -/
theorem absorb_all {n : Nat} {digits : List Char} (h : digitsValue n digits < UInt64.size) :
    absorb n digits = (digitsValue n digits, []) := by
  induction digits generalizing n with
  | nil => rfl
  | cons c rest ih =>
      have hnext : digitsValue n [c] < UInt64.size := by
        refine Nat.lt_of_le_of_lt ?_ h
        exact Nat.le_trans (Nat.le_mul_of_pos_right _ (Nat.pow_pos (by decide))) (le_digitsValue (digitsValue n [c]) rest)
      unfold absorb
      dsimp only
      rw [if_pos hnext]
      exact ih h

/-- The leading digits of a numeral, at their place, are not above the numeral. -/
theorem leadingDigits_le {whole fraction : List Char} (h : digitsValue 0 whole < UInt64.size ∨ fraction = []) :
    (leadingDigits whole fraction).1 < UInt64.size ∧
      ((leadingDigits whole fraction).1 : ℚ) * 10 ^ (leadingDigits whole fraction).2 ≤
        digitsValue 0 (whole ++ fraction) * 10 ^ (-(fraction.length : Int)) := by
  rcases h with hwhole | rfl
  · obtain ⟨j, hj, habsorb, hsmall⟩ := absorb_eq hwhole fraction
    have hleading : leadingDigits whole fraction =
        (digitsValue (digitsValue 0 whole) (fraction.take j), -(j : Int)) := by
      unfold leadingDigits
      rw [absorb_all hwhole]
      dsimp only
      rw [habsorb]
      simp only [List.length_nil, List.length_drop]
      congr 1
      omega
    rw [hleading]
    refine ⟨hsmall, ?_⟩
    have hrest := le_digitsValue (digitsValue (digitsValue 0 whole) (fraction.take j)) (fraction.drop j)
    rw [← digitsValue_append (digitsValue 0 whole), List.take_append_drop, ← digitsValue_append 0 whole fraction,
      List.length_drop] at hrest
    have hcast : (digitsValue (digitsValue 0 whole) (fraction.take j) : ℚ) * 10 ^ (fraction.length - j) ≤
        digitsValue 0 (whole ++ fraction) := by exact_mod_cast hrest
    calc (digitsValue (digitsValue 0 whole) (fraction.take j) : ℚ) * 10 ^ (-(j : Int))
        = digitsValue (digitsValue 0 whole) (fraction.take j) * 10 ^ (fraction.length - j) *
            10 ^ (-(fraction.length : Int)) := by
          rw [mul_assoc, ← zpow_natCast, ← zpow_add₀ (by norm_num)]
          congr 2
          omega
      _ ≤ digitsValue 0 (whole ++ fraction) * 10 ^ (-(fraction.length : Int)) := by gcongr
  · obtain ⟨j, hj, habsorb, hsmall⟩ := absorb_eq (show 0 < UInt64.size by decide) whole
    have hleading : leadingDigits whole [] = (digitsValue 0 (whole.take j), ((whole.length - j : Nat) : Int)) := by
      unfold leadingDigits
      rw [habsorb]
      simp [absorb]
    rw [hleading]
    refine ⟨hsmall, ?_⟩
    have hrest := le_digitsValue (digitsValue 0 (whole.take j)) (whole.drop j)
    rw [← digitsValue_append, List.take_append_drop, List.length_drop] at hrest
    rw [List.append_nil, zpow_natCast]
    simpa using (show (digitsValue 0 (whole.take j) : ℚ) * 10 ^ (whole.length - j) ≤ digitsValue 0 whole by
      exact_mod_cast hrest)

/-! ## Scaling -/

/-- Below this bound rounding three times does not run over the end of the doubles. -/
def scalingBound : ℚ := (2 ^ 54 - 5) * 2 ^ 970

theorem lt_scalingBound : (10 : ℚ) ^ 308 < scalingBound := by
  have h : 10 ^ 308 < 18014398509481979 * 2 ^ 970 := by decide +kernel
  have hcast : (10 : ℚ) ^ 308 < 18014398509481979 * 2 ^ 970 := by exact_mod_cast h
  refine hcast.trans_eq ?_
  unfold scalingBound
  congr 1
  norm_num

theorem scalingBound_lt : scalingBound < 10 ^ 309 := by
  have h : 18014398509481979 * 2 ^ 970 < 10 ^ 309 := by decide +kernel
  have hcast : (18014398509481979 : ℚ) * 2 ^ 970 < 10 ^ 309 := by exact_mod_cast h
  refine lt_of_eq_of_lt ?_ hcast
  unfold scalingBound
  congr 1
  norm_num

/-- The bound leaves room for two roundings before the last. -/
theorem scalingBound_mul_le : scalingBound * (1 + 1 / 2 ^ 53) ^ 2 ≤ (2 ^ 54 - 1) * 2 ^ 970 := by
  unfold scalingBound
  rw [mul_right_comm]
  gcongr
  norm_num

theorem scalingBound_le : scalingBound ≤ (2 ^ 54 - 1) * 2 ^ 970 := by
  unfold scalingBound
  gcongr
  norm_num

theorem near_ofInt {n : Nat} (hn : 0 < n) (hsmall : n < UInt64.size) : (Double.ofInt n).Near n := by
  have hvalue : (Ratio.scaled 2 n 0).value = n := by
    rw [Ratio.value_scaled]
    simp
  have hofInt : Double.ofInt n = .ofRatio false (.scaled 2 n 0) := by
    have hsign : decide ((n : Int) < 0) = false := by simp
    simp only [Double.ofInt, BinaryValue.ofInt, hsign]
    rfl
  have hone : (1 : ℚ) ≤ n := by exact_mod_cast hn
  have hhigh : (n : ℚ) < 2 ^ 64 := by exact_mod_cast hsmall
  have hnear := Double.near_ofRatio (Ratio.den_scaled_pos n 0) (by rw [hvalue]; exact hone) (by
    rw [hvalue]
    calc (n : ℚ) < 2 ^ 64 := hhigh
      _ ≤ 10 ^ 308 := by
          refine (show (2 : ℚ) ^ 64 ≤ 10 ^ 20 by norm_num).trans ?_
          exact pow_le_pow_right₀ (by norm_num) (by norm_num)
      _ < scalingBound := lt_scalingBound
      _ ≤ (2 ^ 54 - 1) * 2 ^ 970 := scalingBound_le)
  rw [hvalue] at hnear
  rw [hofInt]
  exact hnear

theorem near_powerOfTen {k : Nat} (hk : k ≤ 308) : (powerOfTen k).Near (10 ^ k) := by
  have hvalue : (Ratio.mk (10 ^ k) 1).value = 10 ^ k := by
    simp [Ratio.value]
  have hone : (1 : ℚ) ≤ 10 ^ k := one_le_pow₀ (by norm_num)
  have hhigh : (10 : ℚ) ^ k ≤ 10 ^ 308 := pow_le_pow_right₀ (by norm_num) hk
  have hnear := Double.near_ofRatio (show 0 < (Ratio.mk (10 ^ k) 1).den from Nat.one_pos) (by rw [hvalue]; exact hone) (by
    rw [hvalue]
    exact hhigh.trans_lt (lt_scalingBound.trans_le scalingBound_le))
  rwa [hvalue] at hnear

/-- The product of two rounded numbers is finite if the exact one is below the bound. -/
theorem isFinite_product {x y : Double} {a b : ℚ} (hx : x.Near a) (hy : y.Near b) (ha : 0 ≤ a)
    (hbound : a * b < scalingBound) : (product x y).isFinite = true := by
  refine (Double.near_ofRatio (Nat.mul_pos hx.den_pos hy.den_pos) ?_ ?_).finite
  · rw [Ratio.value_mul]
    exact one_le_mul_of_one_le_of_one_le hx.one_le hy.one_le
  · rw [Ratio.value_mul]
    calc x.magnitude.value * y.magnitude.value
        ≤ (a * (1 + 1 / 2 ^ 53)) * (b * (1 + 1 / 2 ^ 53)) :=
          mul_le_mul hx.le hy.le (le_trans zero_le_one hy.one_le) (by positivity)
      _ = (a * b) * (1 + 1 / 2 ^ 53) ^ 2 := by ring
      _ < scalingBound * (1 + 1 / 2 ^ 53) ^ 2 := by gcongr
      _ ≤ (2 ^ 54 - 1) * 2 ^ 970 := scalingBound_mul_le

/-- A number of eight bytes is scaled to a double below the bound. -/
theorem scale_isSome {n : Nat} (hn : n < UInt64.size) {exponent : Int}
    (hbound : (n : ℚ) * 10 ^ exponent < scalingBound) : (scale? (.ofInt n) exponent).isSome = true := by
  unfold scale?
  split
  · rfl
  · rename_i hexponent
    split
    · rfl
    · rename_i hbits
      obtain ⟨k, rfl⟩ := Int.eq_ofNat_of_zero_le (Int.not_lt.1 hexponent)
      rw [zpow_natCast] at hbound
      have hpos : 0 < n := by
        apply Nat.pos_of_ne_zero
        rintro rfl
        exact hbits rfl
      have hone : (1 : ℚ) ≤ n := by exact_mod_cast hpos
      have hk : k ≤ 308 := by
        apply Nat.le_of_lt_succ
        have hpow : (10 : ℚ) ^ k < 10 ^ 309 := by
          calc (10 : ℚ) ^ k ≤ n * 10 ^ k := le_mul_of_one_le_left (by positivity) hone
            _ < scalingBound := hbound
            _ < 10 ^ 309 := scalingBound_lt
        exact (pow_lt_pow_iff_right₀ (by norm_num)).1 hpow
      have hfinite := isFinite_product (near_ofInt hpos hn) (near_powerOfTen hk) (by positivity) hbound
      rw [if_neg (by omega)]
      simp only [Int.toNat_natCast, hfinite, if_true, Option.isSome_some]

/-- A numeral below the bound has a value. -/
theorem readReal_isSome {negative : Bool} {whole fraction : List Char} {exponent : Int}
    (hwhole : digitsValue 0 whole < UInt64.size ∨ fraction = [])
    (hbound : (digitsValue 0 (whole ++ fraction) : ℚ) * 10 ^ (exponent - fraction.length) < scalingBound) :
    (readReal? negative whole fraction exponent).isSome = true := by
  obtain ⟨hsmall, hle⟩ := leadingDigits_le hwhole
  unfold readReal?
  rw [Option.isSome_map]
  apply scale_isSome hsmall
  calc ((leadingDigits whole fraction).1 : ℚ) * 10 ^ ((leadingDigits whole fraction).2 + exponent)
      = (leadingDigits whole fraction).1 * 10 ^ (leadingDigits whole fraction).2 * 10 ^ exponent := by
        rw [mul_assoc, ← zpow_add₀ (by norm_num)]
    _ ≤ digitsValue 0 (whole ++ fraction) * 10 ^ (-(fraction.length : Int)) * 10 ^ exponent := by gcongr
    _ = digitsValue 0 (whole ++ fraction) * 10 ^ (exponent - fraction.length) := by
        rw [mul_assoc, ← zpow_add₀ (by norm_num)]
        congr 2
        ring
    _ < scalingBound := hbound

end Json

end RecordTables
