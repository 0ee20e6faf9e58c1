import RecordTables.Proofs.Json.Fractions
import RecordTables.Proofs.Json.RoundTrip
import RecordTables.Proofs.Number.Shortest

/-!
# Fractions read back

The text of a finite number is a numeral that has a value, though not always its own.  The bound under which rounding
cannot run over the end of the doubles is met by all of them but the last three, which are read one by one.
-/

namespace RecordTables

/-! ## Digits -/

theorem digitsValue_lt {digits : List Char} (h : ∀ c ∈ digits, c.isDigit = true) (n : Nat) :
    digitsValue n digits < (n + 1) * 10 ^ digits.length := by
  induction digits generalizing n with
  | nil => simp [digitsValue]
  | cons c rest ih =>
      have hdigit : c.toNat - '0'.toNat < 10 := by
        have hc := h c (List.mem_cons_self ..)
        rw [Char.isDigit, Bool.and_eq_true, decide_eq_true_eq, decide_eq_true_eq] at hc
        have hhigh : c.toNat ≤ 57 := hc.2
        show c.toNat - 48 < 10
        omega
      have hrest := ih (fun c hc => h c (List.mem_cons_of_mem _ hc)) (10 * n + (c.toNat - '0'.toNat))
      calc digitsValue n (c :: rest) = digitsValue (10 * n + (c.toNat - '0'.toNat)) rest := rfl
        _ < (10 * n + (c.toNat - '0'.toNat) + 1) * 10 ^ rest.length := hrest
        _ ≤ ((n + 1) * 10) * 10 ^ rest.length := Nat.mul_le_mul_right _ (by omega)
        _ = (n + 1) * 10 ^ (c :: rest).length := by rw [List.length_cons, Nat.pow_succ', Nat.mul_assoc]

/-- Sixteen digits are a number of eight bytes. -/
theorem digitsValue_lt_size {digits : List Char} (h : ∀ c ∈ digits, c.isDigit = true) (hlength : digits.length ≤ 16) :
    digitsValue 0 digits < UInt64.size := by
  refine (digitsValue_lt h 0).trans_le ?_
  rw [Nat.zero_add, Nat.one_mul]
  exact (Nat.pow_le_pow_right (by decide) hlength).trans (by decide)

theorem digitsValue_zeros (n k : Nat) : digitsValue n (List.replicate k '0') = n * 10 ^ k := by
  induction k generalizing n with
  | zero => simp [digitsValue]
  | succ k ih =>
      have hstep : digitsValue n (List.replicate (k + 1) '0') = digitsValue (10 * n) (List.replicate k '0') := rfl
      rw [hstep, ih, Nat.pow_succ', Nat.mul_comm 10 n, Nat.mul_assoc]

namespace Json

/-! ## Layouts -/

/-- A style of documents: a fraction behind every point, and an exponent only behind a first digit that stands more
than 16 places before the point, or far behind it. -/
structure Styled (style : DecimalStyle) : Prop where
  point : style.point = true
  bare : style.pointBeforeExponent = false
  digits : style.exponentDigits = 1
  plain : ∃ first last, style.plain = some (first, last) ∧ last ≤ 15

theorem styled_numberStyle : Styled numberStyle := ⟨rfl, rfl, rfl, -5, 15, rfl, by decide⟩

theorem styled_singleStyle : Styled singleStyle := ⟨rfl, rfl, rfl, -6, 12, rfl, by decide⟩

/-- What the parts of a numeral say about the decimal that it is the text of. -/
structure Parts.Denotes (p : Parts) (d : Decimal) : Prop where
  wellFormed : p.WellFormed
  /-- The numeral is no whole number. -/
  fractional : p.fraction ≠ none ∨ p.exponent ≠ none
  small : digitsValue 0 p.whole < UInt64.size
  value : (digitsValue 0 (p.whole ++ p.fraction.getD []) : ℚ) *
    10 ^ (p.exponent.getD 0 - ((p.fraction.getD []).length : Int)) = d.ratio.value

variable {style : DecimalStyle} {d : Decimal}

theorem all_isDigit_digits (d : Decimal) : ∀ c ∈ d.digits, c.isDigit = true := all_isDigit_toDigits d.coefficient

@[simp]
theorem digitsValue_digits (d : Decimal) : digitsValue 0 d.digits = d.coefficient := digitsValue_toDigits d.coefficient

theorem digits_ne_nil (d : Decimal) : d.digits ≠ [] := Nat.toDigits_ne_nil

/-- The parts of a decimal with an exponent. -/
def exponentParts (d : Decimal) : Parts where
  whole := d.digits.take 1
  fraction := if (d.digits.drop 1).isEmpty then none else some (d.digits.drop 1)
  exponent := some d.magnitude

theorem exponentText_chars (hstyle : Styled style) (d : Decimal) :
    (style.exponentText d).toList = (exponentParts d).chars := by
  have hexponent : ∀ n : Nat, List.replicate (1 - (Nat.toDigits 10 n).length) '0' = [] := by
    intro n
    have hpos : 0 < (Nat.toDigits 10 n).length := List.length_pos_iff.2 Nat.toDigits_ne_nil
    rw [show 1 - (Nat.toDigits 10 n).length = 0 by omega, List.replicate_zero]
  unfold DecimalStyle.exponentText exponentParts Parts.chars Parts.fractionChars Parts.exponentChars
  simp only [hstyle.bare, hstyle.digits, hexponent, List.nil_append]
  cases (d.digits.drop 1).isEmpty <;> by_cases hsign : d.magnitude < 0 <;> simp [hsign]

theorem digits_lead (hpos : 0 < d.coefficient) : d.digits.head? ≠ some '0' := head?_toDigits_ne_zero hpos

theorem denotes_exponentParts (d : Decimal) : (exponentParts d).Denotes d := by
  obtain ⟨c, cs, hdigits⟩ : ∃ c cs, d.digits = c :: cs := List.exists_cons_of_ne_nil (digits_ne_nil d)
  have hall := all_isDigit_digits d
  have hvalue := digitsValue_digits d
  have hmagnitude : d.magnitude = d.exponent + cs.length := by
    unfold Decimal.magnitude
    rw [hdigits, List.length_cons]
    omega
  have hparts : exponentParts d = ⟨[c], if cs.isEmpty then none else some cs, some d.magnitude⟩ := by
    unfold exponentParts
    rw [hdigits]
    rfl
  have hfraction : (if cs.isEmpty then none else some cs).getD [] = cs := by
    cases cs <;> rfl
  rw [hdigits] at hall hvalue
  rw [hparts]
  refine ⟨⟨?_, by simp, .inl rfl, ?_⟩, .inr (by simp), ?_, ?_⟩
  · intro a ha
    rw [List.mem_singleton.1 ha]
    exact hall c (List.mem_cons_self ..)
  · intro digits h
    dsimp only at h
    split at h
    · cases h
    · rename_i hne
      cases h
      exact ⟨by simpa using hne, fun a ha => hall a (List.mem_cons_of_mem _ ha)⟩
  · have hdigit : ∀ a ∈ [c], a.isDigit = true := fun a ha => hall a (by simp [List.mem_singleton.1 ha])
    refine (digitsValue_lt hdigit 0).trans ?_
    show (0 + 1) * 10 ^ 1 < UInt64.size
    decide
  · dsimp only
    rw [hfraction, Decimal.value_ratio, List.singleton_append, hvalue]
    congr 2
    rw [Option.getD_some, hmagnitude]
    omega

/-- The parts of a decimal without an exponent. -/
def plainParts (d : Decimal) : Parts :=
  if 0 ≤ d.exponent then ⟨d.digits ++ List.replicate d.exponent.toNat '0', some ['0'], none⟩
  else
    let places := (-d.exponent).toNat
    if d.digits.length ≤ places then ⟨['0'], some (List.replicate (places - d.digits.length) '0' ++ d.digits), none⟩
    else ⟨d.digits.take (d.digits.length - places), some (d.digits.drop (d.digits.length - places)), none⟩

theorem plainText_chars (hstyle : Styled style) (d : Decimal) : (style.plainText d).toList = (plainParts d).chars := by
  unfold DecimalStyle.plainText plainParts
  simp only [hstyle.point]
  split
  · simp [Parts.chars, Parts.fractionChars, Parts.exponentChars]
  · split <;> simp [Parts.chars, Parts.fractionChars, Parts.exponentChars]

theorem all_isDigit_zeros (k : Nat) : ∀ c ∈ List.replicate k '0', c.isDigit = true := by
  intro c hc
  rw [List.eq_of_mem_replicate hc]
  decide

/-- A decimal without places: zeros behind its digits, and one more behind the point. -/
theorem denotes_wholeParts {k : Nat} (hlead : 0 < d.coefficient ∨ d = ⟨0, 0⟩) (hexponent : d.exponent = k)
    (hlength : d.digits.length + k ≤ 16) :
    (⟨d.digits ++ List.replicate k '0', some ['0'], none⟩ : Parts).Denotes d := by
  have hdigits : ∀ c ∈ d.digits ++ List.replicate k '0', c.isDigit = true := by
    intro c hc
    rcases List.mem_append.1 hc with hc | hc
    · exact all_isDigit_digits d c hc
    · exact all_isDigit_zeros k c hc
  refine ⟨⟨hdigits, by simp [digits_ne_nil], ?_, ?_⟩, .inl (by simp), digitsValue_lt_size hdigits ?_, ?_⟩
  · rcases hlead with hpos | rfl
    · right
      obtain ⟨c, cs, hcons⟩ := List.exists_cons_of_ne_nil (digits_ne_nil d)
      simpa [hcons] using digits_lead hpos
    · obtain rfl : 0 = k := by exact_mod_cast (show (0 : Int) = k from hexponent)
      exact .inl rfl
  · intro digits h
    cases h
    exact ⟨by simp, by simp⟩
  · rw [List.length_append, List.length_replicate]
    exact hlength
  · dsimp only
    rw [Decimal.value_ratio, Option.getD_some, Option.getD_none, List.append_assoc, digitsValue_append,
      digitsValue_digits, show ['0'] = List.replicate 1 '0' from rfl, List.replicate_append_replicate,
      digitsValue_zeros, hexponent]
    push_cast
    rw [zpow_natCast, pow_succ]
    field_simp
    simp

/-- A decimal below one: zeros in front of its digits, all of them behind the point. -/
theorem denotes_placesParts {places : Nat} (hexponent : d.exponent = -(places : Int))
    (hle : d.digits.length ≤ places) :
    (⟨['0'], some (List.replicate (places - d.digits.length) '0' ++ d.digits), none⟩ : Parts).Denotes d := by
  have hdigits : ∀ c ∈ List.replicate (places - d.digits.length) '0' ++ d.digits, c.isDigit = true := by
    intro c hc
    rcases List.mem_append.1 hc with hc | hc
    · exact all_isDigit_zeros _ c hc
    · exact all_isDigit_digits d c hc
  refine ⟨⟨by simp, by simp, .inl rfl, ?_⟩, .inl (by simp), show digitsValue 0 ['0'] < UInt64.size by decide, ?_⟩
  · intro digits h
    cases h
    exact ⟨by simp [digits_ne_nil], hdigits⟩
  · dsimp only
    rw [Decimal.value_ratio, Option.getD_some, Option.getD_none, hexponent, List.length_append,
      List.length_replicate, Nat.sub_add_cancel hle, ← List.append_assoc,
      show ['0'] = List.replicate 1 '0' from rfl, List.replicate_append_replicate, digitsValue_append,
      digitsValue_zeros, Nat.zero_mul, digitsValue_digits, Int.zero_sub]

/-- A decimal with the point among its digits. -/
theorem denotes_splitParts {places : Nat} (hpos : 0 < d.coefficient) (hexponent : d.exponent = -(places : Int))
    (hplaces : 0 < places) (hlt : places < d.digits.length) (hlength : d.digits.length ≤ 16 + places) :
    (⟨d.digits.take (d.digits.length - places), some (d.digits.drop (d.digits.length - places)), none⟩ :
      Parts).Denotes d := by
  have hall := all_isDigit_digits d
  refine ⟨⟨fun c hc => hall c (List.mem_of_mem_take hc), ?_, ?_, ?_⟩, .inl (by simp), ?_, ?_⟩
  · rw [ne_eq, List.take_eq_nil_iff, not_or]
    exact ⟨by omega, digits_ne_nil d⟩
  · right
    rw [List.head?_take, if_neg (by omega)]
    exact digits_lead hpos
  · intro digits h
    cases h
    refine ⟨?_, fun c hc => hall c (List.mem_of_mem_drop hc)⟩
    rw [ne_eq, List.drop_eq_nil_iff]
    omega
  · refine digitsValue_lt_size (fun c hc => hall c (List.mem_of_mem_take hc)) ?_
    rw [List.length_take]
    omega
  · dsimp only
    rw [Decimal.value_ratio, Option.getD_some, Option.getD_none, List.take_append_drop, digitsValue_digits,
      List.length_drop, hexponent]
    congr 2
    omega

theorem denotes_plainParts (hlead : 0 < d.coefficient ∨ d = ⟨0, 0⟩) (hmagnitude : d.magnitude ≤ 15) :
    (plainParts d).Denotes d := by
  have hlength : d.exponent + d.digits.length ≤ 16 := by
    unfold Decimal.magnitude at hmagnitude
    omega
  unfold plainParts
  split
  · exact denotes_wholeParts hlead (by omega) (by omega)
  · rename_i hnegative
    dsimp only
    split
    · rename_i hle
      exact denotes_placesParts (by omega) hle
    · rename_i hlt
      have hpos : 0 < d.coefficient := by
        refine hlead.resolve_right ?_
        rintro rfl
        exact hnegative (Int.le_refl 0)
      exact denotes_splitParts hpos (by omega) (by omega) (by omega) (by omega)

/-- The text of a decimal in a style of documents is a numeral that denotes it. -/
theorem text_denotes (hstyle : Styled style) (hlead : 0 < d.coefficient ∨ d = ⟨0, 0⟩) :
    ∃ p : Parts, (style.text d).toList = p.chars ∧ p.Denotes d := by
  obtain ⟨first, last, hplain, hlast⟩ := hstyle.plain
  unfold DecimalStyle.text
  rw [hplain]
  dsimp only
  split
  · rename_i hrange
    exact ⟨_, plainText_chars hstyle d, denotes_plainParts hlead (by omega)⟩
  · exact ⟨_, exponentText_chars hstyle d, denotes_exponentParts d⟩

/-! ## Readable numbers -/

/-- A number whose text is read as a number with a value, also between quotes. -/
structure Number.Readable (n : Number) : Prop where
  printed : n.Printed
  value : n.reread.double?.isSome = true
  unescaped : ∀ c ∈ n.text.toList, Piece.ofChar c = .plain (.char c)

/-- The characters of a numeral stand for themselves between quotes. -/
theorem Parts.unescaped {p : Parts} (h : p.WellFormed) (negative : Bool) :
    ∀ c ∈ (if negative then ['-'] else []) ++ p.chars, Piece.ofChar c = .plain (.char c) := by
  have hdigit : ∀ c : Char, c.isDigit = true → Piece.ofChar c = .plain (.char c) := by
    intro c hc
    rw [Char.isDigit, Bool.and_eq_true, decide_eq_true_eq, decide_eq_true_eq] at hc
    refine if_neg ?_
    rw [Bool.or_eq_true, Bool.or_eq_true, decide_eq_true_eq, decide_eq_true_eq, decide_eq_true_eq]
    rintro ((rfl | rfl) | hlt)
    · exact absurd hc.1 (by decide)
    · exact absurd hc.2 (by decide)
    · have hlow : 48 ≤ c.toNat := hc.1
      have hhigh : c.toNat < 32 := hlt
      omega
  intro c hc
  simp only [List.mem_append, Parts.chars] at hc
  rcases hc with hminus | (hwhole | hfraction) | hexponent
  · cases negative with
    | true =>
        rw [List.mem_singleton.1 hminus]
        rfl
    | false => cases hminus
  · exact hdigit c (h.digits c hwhole)
  · unfold Parts.fractionChars at hfraction
    split at hfraction
    · rename_i digits heq
      rcases List.mem_cons.1 hfraction with rfl | hmem
      · rfl
      · exact hdigit c ((h.fraction digits heq).2 c hmem)
    · cases hfraction
  · unfold Parts.exponentChars at hexponent
    split at hexponent
    · rename_i e heq
      rcases List.mem_cons.1 hexponent with rfl | hmem
      · rfl
      · rcases List.mem_cons.1 hmem with rfl | hmem
        · split <;> rfl
        · exact hdigit c (all_isDigit_toDigits _ c hmem)
    · cases hexponent

/-- A numeral of a fraction is readable if it has a value. -/
theorem readable_of_parts {n : Number} {p : Parts} {negative : Bool} (h : p.WellFormed)
    (htext : n.text.toList = (if negative then ['-'] else []) ++ p.chars)
    (hvalue : (numberOf negative p.whole p.fraction p.exponent).double?.isSome = true) : n.Readable := by
  obtain ⟨hprinted, hreread⟩ := Number.printed_of_parts h htext
  refine ⟨hprinted, by rw [hreread]; exact hvalue, ?_⟩
  rw [htext]
  exact Parts.unescaped h negative

/-- A numeral that is no whole number has the value of its parts. -/
theorem double_numberOf {p : Parts} {negative : Bool} (h : p.fraction ≠ none ∨ p.exponent ≠ none)
    (hreal : (readReal? negative p.whole (p.fraction.getD []) (p.exponent.getD 0)).isSome = true) :
    (numberOf negative p.whole p.fraction p.exponent).double?.isSome = true := by
  obtain ⟨x, hx⟩ := Option.isSome_iff_exists.1 hreal
  unfold numberOf
  split
  · rename_i hfraction hexponent
    rw [hfraction, hexponent] at h
    simp at h
  · rw [hx]
    rfl

theorem readReal_of_denotes {p : Parts} {negative : Bool} (h : p.Denotes d) (hbound : d.ratio.value < scalingBound) :
    (readReal? negative p.whole (p.fraction.getD []) (p.exponent.getD 0)).isSome = true := by
  apply readReal_isSome (.inl h.small)
  rw [h.value]
  exact hbound

/-- A whole number of sixteen bytes is readable. -/
theorem readable_whole (negative : Bool) {n : Nat} (hn : n < 2 ^ 128) : (Number.whole negative n).Readable := by
  refine readable_of_parts (Parts.wellFormed_ofNat n) (text_whole negative n) ?_
  have hnumber : numberOf negative (Parts.ofNat n).whole (Parts.ofNat n).fraction (Parts.ofNat n).exponent =
      .whole negative n := by
    simp [Parts.ofNat, numberOf]
  rw [hnumber, Number.double?]
  split
  · rfl
  · apply readReal_isSome (.inr rfl)
    rw [List.append_nil, digitsValue_toDigits]
    have hcast : (n : ℚ) < 2 ^ 128 := by exact_mod_cast hn
    simp only [List.length_nil, Nat.cast_zero, sub_zero, zpow_zero, mul_one]
    calc (n : ℚ) < 2 ^ 128 := hcast
      _ ≤ 10 ^ 308 := by
          refine (show (2 : ℚ) ^ 128 ≤ 10 ^ 39 by norm_num).trans ?_
          exact pow_le_pow_right₀ (by norm_num) (by norm_num)
      _ < scalingBound := lt_scalingBound

/-! ## Doubles and singles -/

/-- The significand and the exponent of a finite value of a format. -/
theorem unpack_bounds {f : BinaryFormat} {bits m : Nat} {negative : Bool} {e : Int}
    (h : f.unpack bits = .finite negative m e) :
    m < 2 ^ (f.fractionBits + 1) ∧ f.leastExponent ≤ e ∧ e + 3 ≤ f.leastExponent + (2 ^ f.exponentBits : Nat) ∨
      m < 2 ^ f.fractionBits ∧ e = f.leastExponent := by
  have hbiased : bits / 2 ^ f.fractionBits % 2 ^ f.exponentBits < 2 ^ f.exponentBits := Nat.mod_lt _ (Nat.two_pow_pos _)
  have hfraction : bits % 2 ^ f.fractionBits < 2 ^ f.fractionBits := Nat.mod_lt _ (Nat.two_pow_pos _)
  unfold BinaryFormat.unpack at h
  simp only at h
  split at h
  · split at h <;> cases h
  · split at h
    · cases h
      exact .inr ⟨hfraction, rfl⟩
    · cases h
      refine .inl ⟨?_, by omega, ?_⟩
      · rw [Nat.pow_succ]
        omega
      · omega

/-- The three greatest doubles are above the bound, and have a value nevertheless. -/
theorem last_doubles : ∀ m ∈ [2 ^ 53 - 3, 2 ^ 53 - 2, 2 ^ 53 - 1], ∀ negative : Bool,
    15 < (Decimal.shortest .double .even m 971).magnitude ∧
      (readReal? negative (exponentParts (.shortest .double .even m 971)).whole
        ((exponentParts (.shortest .double .even m 971)).fraction.getD [])
        ((exponentParts (.shortest .double .even m 971)).exponent.getD 0)).isSome = true := by
  decide +kernel

/-- The shortest digits of a number below the last doubles are below the bound. -/
theorem shortest_lt {f : BinaryFormat} {m : Nat} {e : Int} (tie : TieRule) (hm : m < 2 ^ 53) (hlow : -1074 ≤ e)
    (hhigh : e ≤ 971) (hlast : e < 971 ∨ m < 2 ^ 53 - 3) :
    (0 < (Decimal.shortest f tie m e).coefficient ∨ Decimal.shortest f tie m e = ⟨0, 0⟩) ∧
      (Decimal.shortest f tie m e).ratio.value < scalingBound := by
  rcases Nat.eq_zero_or_pos m with rfl | hpos
  · have hzero : Decimal.shortest f tie 0 e = ⟨0, 0⟩ := rfl
    rw [hzero, Decimal.value_ratio]
    refine ⟨.inr rfl, ?_⟩
    simp only [Nat.cast_zero, zero_mul]
    exact lt_trans (by positivity) lt_scalingBound
  · have hdigits : m.log2 ≤ 52 := Nat.lt_succ_iff.1 ((Nat.log2_lt (by omega)).2 hm)
    obtain ⟨hcoefficient, hle⟩ := Decimal.shortest_le (f := f) hpos hdigits hlow hhigh tie
    refine ⟨.inl hcoefficient, hle.trans_lt ?_⟩
    unfold scalingBound
    rcases Int.lt_or_eq_of_le hhigh with hless | rfl
    · have hcast : (m : ℚ) < 2 ^ 53 := by exact_mod_cast hm
      calc (4 * (m : ℚ) + 2) * 2 ^ (e - 2) ≤ (4 * m + 2) * 2 ^ (((970 : Nat) : Int) - 2) := by
            gcongr
            · norm_num
            · omega
        _ = (4 * m + 2) / 4 * 2 ^ 970 := by
            rw [zpow_sub₀ (by norm_num), zpow_natCast]
            generalize (2 : ℚ) ^ 970 = unit
            ring
        _ < (2 ^ 54 - 5) * 2 ^ 970 := by
            gcongr
            linarith
    · have hcast : (m : ℚ) + 4 ≤ 2 ^ 53 := by
        have hnat : m + 4 ≤ 2 ^ 53 := by omega
        exact_mod_cast hnat
      calc (4 * (m : ℚ) + 2) * 2 ^ ((971 : Int) - 2) = (2 * m + 1) * 2 ^ 970 := by
            rw [show (971 : Int) - 2 = ((970 : Nat) : Int) - 1 from rfl, zpow_sub₀ (by norm_num), zpow_natCast]
            generalize (2 : ℚ) ^ 970 = unit
            ring
        _ < (2 ^ 54 - 5) * 2 ^ 970 := by
            gcongr
            linarith

/-- The text of a finite number that is not one of the last doubles is readable. -/
theorem readable_of_shortest {n : Number} {style : DecimalStyle} {f : BinaryFormat} {m : Nat} {e : Int} {negative : Bool}
    (hstyle : Styled style) (hm : m < 2 ^ 53) (hlow : -1074 ≤ e) (hhigh : e ≤ 971) (hlast : e < 971 ∨ m < 2 ^ 53 - 3)
    (htext : n.text = style.shortestText f negative m e) : n.Readable := by
  obtain ⟨hlead, hbound⟩ := @shortest_lt f m e style.tie hm hlow hhigh hlast
  obtain ⟨p, hchars, hdenotes⟩ := text_denotes hstyle hlead
  refine @readable_of_parts n p negative hdenotes.wellFormed ?_
    (double_numberOf hdenotes.fractional (readReal_of_denotes hdenotes hbound))
  rw [htext, DecimalStyle.shortestText, String.toList_append, hchars]
  cases negative <;> rfl

/-- A finite number of eight bytes is readable. -/
theorem readable_real {x : Double} (hx : x.isFinite = true) : (Number.real x).Readable := by
  unfold Double.isFinite at hx
  split at hx
  · rename_i negative m e hvalue
    have htext : (Number.real x).text = numberStyle.shortestText .double negative m e := by
      rw [Number.text, hvalue]
    have hleast : BinaryFormat.double.leastExponent = -1074 := rfl
    have hbounds : m < 2 ^ 53 ∧ -1074 ≤ e ∧ e ≤ 971 := by
      have hfraction : BinaryFormat.double.fractionBits = 52 := rfl
      have hexponent : BinaryFormat.double.exponentBits = 11 := rfl
      rcases unpack_bounds hvalue with ⟨hm, hlow, hhigh⟩ | ⟨hm, he⟩
      · rw [hfraction] at hm
        rw [hexponent] at hhigh
        omega
      · rw [hfraction] at hm
        omega
    obtain ⟨hm, hlow, hhigh⟩ := hbounds
    by_cases hlast : e < 971 ∨ m < 2 ^ 53 - 3
    · exact readable_of_shortest styled_numberStyle hm hlow hhigh hlast htext
    · rw [not_or, not_lt, not_lt] at hlast
      obtain rfl : e = 971 := by omega
      have hmem : m ∈ [2 ^ 53 - 3, 2 ^ 53 - 2, 2 ^ 53 - 1] := by
        simp only [List.mem_cons, List.not_mem_nil, or_false]
        omega
      obtain ⟨hmagnitude, hreal⟩ := last_doubles m hmem negative
      have hdenotes := denotes_exponentParts (.shortest .double .even m 971)
      refine @readable_of_parts _ _ negative hdenotes.wellFormed ?_ (double_numberOf hdenotes.fractional hreal)
      have hstyle : numberStyle.text (.shortest .double .even m 971) =
          numberStyle.exponentText (.shortest .double .even m 971) := if_neg (by omega)
      rw [htext, DecimalStyle.shortestText, String.toList_append]
      show _ ++ (numberStyle.text (.shortest .double .even m 971)).toList = _
      rw [hstyle, exponentText_chars styled_numberStyle]
      cases negative <;> rfl
  · cases hx

/-- A finite number of four bytes is readable. -/
theorem readable_single {x : Single} (hx : x.isFinite = true) : (Number.single x).Readable := by
  unfold Single.isFinite at hx
  split at hx
  · rename_i negative m e hvalue
    have htext : (Number.single x).text = singleStyle.shortestText .single negative m e := by
      rw [Number.text, hvalue]
    have hleast : BinaryFormat.single.leastExponent = -149 := rfl
    have hbounds : m < 2 ^ 24 ∧ -149 ≤ e ∧ e ≤ 104 := by
      have hfraction : BinaryFormat.single.fractionBits = 23 := rfl
      have hexponent : BinaryFormat.single.exponentBits = 8 := rfl
      rcases unpack_bounds hvalue with ⟨hm, hlow, hhigh⟩ | ⟨hm, he⟩
      · rw [hfraction] at hm
        rw [hexponent] at hhigh
        omega
      · rw [hfraction] at hm
        omega
    exact readable_of_shortest styled_singleStyle (by omega) (by omega) (by omega) (by omega) htext
  · cases hx

end Json

end RecordTables
