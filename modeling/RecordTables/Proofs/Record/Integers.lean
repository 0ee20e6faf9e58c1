import RecordTables.Proofs.Number.Exact
import RecordTables.Proofs.Number.Numerals
import RecordTables.Proofs.Record.Cells
import RecordTables.Proofs.Record.Scalars

/-!
# Integers in columns

An integer is stored as it is or not at all, and a column is read as an integer only if it denotes this integer.
`IntType.Unaltered` says which of the two happens to each number and to each stored value, with the error where there is
one.
-/

namespace RecordTables

/-- The integer that a value denotes, whatever its storage class. -/
inductive Value.Denotes : Value → Int → Prop
  | int (m : Int64) : Denotes (.int m) m.toInt
  | real {x : Double} {n : Int} (h : x.rational? = some (n : ℚ)) : Denotes (.real x) n
  | text {s : String} {n : Int} (h : SpellsWithin s.toList n) : Denotes (.text s) n

/-- A value denotes one integer at most. -/
theorem Value.Denotes.unique {v : Value} {m n : Int} (hm : v.Denotes m) (hn : v.Denotes n) : m = n := by
  cases hm with
  | int k => cases hn; rfl
  | real hx =>
      cases hn with
      | real hy => exact_mod_cast Option.some.inj (hx.symm.trans hy)
  | text hs =>
      cases hn with
      | text ht =>
          rw [← readInteger?_trimBlank_eq_some_iff] at hs ht
          exact Option.some.inj (hs.symm.trans ht)

/-! ## Ranges -/

theorem IntType.holds_i64 {n : Int} : IntType.i64.holds n = true ↔ -2 ^ 63 ≤ n ∧ n < 2 ^ 63 := by
  show (decide (-2 ^ 63 ≤ n) && decide (n < 2 ^ 63)) = true ↔ _
  rw [Bool.and_eq_true, decide_eq_true_iff, decide_eq_true_iff]

theorem IntType.holds_i64_toInt (m : Int64) : IntType.i64.holds m.toInt = true :=
  holds_i64.2 ⟨m.le_toInt, m.toInt_lt⟩

/-- A number of at most eight bytes is in the range of eight signed ones, unless it needs the last bit of eight unsigned
ones. -/
theorem IntType.holds_i64_of_holds {t : IntType} (hbits : t.storable = true) {n : Int} (h : t.holds n = true)
    (hsmall : ¬ (t = .u64 ∧ signedBound ≤ n)) : IntType.i64.holds n = true := by
  obtain ⟨signed, bits⟩ := t
  have hbound : signedBound = 2 ^ 63 := rfl
  have hwidth : bits ≤ 64 := by simpa [IntType.storable] using hbits
  rw [holds_i64]
  cases signed with
  | true =>
      simp only [IntType.holds, if_true, Bool.and_eq_true, decide_eq_true_eq] at h
      have hpow : (2 : Int) ^ (bits - 1) ≤ 2 ^ 63 := by
        exact_mod_cast Nat.pow_le_pow_right (by decide) (show bits - 1 ≤ 63 by omega)
      omega
  | false =>
      simp only [IntType.holds, Bool.false_eq_true, if_false, Bool.and_eq_true, decide_eq_true_eq] at h
      by_cases hfull : bits = 64
      · subst hfull
        have hlow : n < signedBound := Int.not_le.1 fun hn => hsmall ⟨rfl, hn⟩
        omega
      · have hpow : (2 : Int) ^ bits ≤ 2 ^ 63 := by
          exact_mod_cast Nat.pow_le_pow_right (by decide) (show bits ≤ 63 by omega)
        omega

/-! ## Reading -/

namespace Cell

variable (cell : Cell) {n : Int}

/-- An integer within eight signed bytes is read from every value that denotes it. -/
theorem integer_of_denotes (h : cell.value.Denotes n) (hn : IntType.i64.holds n = true) : cell.integer = .ok n := by
  obtain ⟨column, v⟩ := cell
  cases h with
  | int m => rfl
  | real hx =>
      rw [← Double.toInt?_eq_some_iff] at hx
      simp [integer, hx, hn]
  | text hs =>
      rw [← readInteger?_trimBlank_eq_some_iff] at hs
      simp [integer, hs, Option.filter_some, hn]

/-- A real number that denotes a larger integer is refused with this number. -/
theorem integer_of_real {x : Double} (hv : cell.value = .real x) (hx : cell.value.Denotes n)
    (hn : IntType.i64.holds n = false) : cell.integer = cell.outOfRange x.text IntType.i64.name := by
  obtain ⟨column, v⟩ := cell
  subst hv
  cases hx with
  | real hx =>
      rw [← Double.toInt?_eq_some_iff] at hx
      simp [integer, hx, hn]

/-- A value that denotes no integer is refused for its storage class, and so is the text of a larger integer. -/
theorem integer_of_not_denotes
    (h : ∀ n, cell.value.Denotes n → (∃ s, cell.value = .text s) ∧ IntType.i64.holds n = false) :
    cell.integer = cell.unexpected "integer" := by
  obtain ⟨column, v⟩ := cell
  cases v with
  | null => rfl
  | blob bytes => rfl
  | int m => exact absurd ((h _ (.int m)).2.symm.trans (IntType.holds_i64_toInt m)) (by decide)
  | real x =>
      have hnone : x.toInt? = none := by
        cases hx : x.toInt? with
        | none => rfl
        | some n =>
            obtain ⟨s, hs⟩ := (h n (.real (x.toInt?_eq_some_iff.1 hx))).1
            cases hs
      simp [integer, hnone]
  | text s =>
      have hnone : (readInteger? (Text.trimBlank s.toList)).filter IntType.i64.holds = none := by
        rw [Option.filter_eq_none_iff]
        intro n hn
        simpa using (h n (.text (readInteger?_trimBlank_eq_some_iff.1 hn))).2
      simp [integer, hnone]

/-- Every value falls under one of the three cases above, so what is read is what the value denotes. -/
theorem integer_eq_ok_iff : cell.integer = .ok n ↔ cell.value.Denotes n ∧ IntType.i64.holds n = true := by
  refine ⟨fun h => ?_, fun h => cell.integer_of_denotes h.1 h.2⟩
  by_cases hread : ∃ m, cell.value.Denotes m ∧ IntType.i64.holds m = true
  · obtain ⟨m, hm, hholds⟩ := hread
    obtain rfl : m = n := Except.ok.inj ((cell.integer_of_denotes hm hholds).symm.trans h)
    exact ⟨hm, hholds⟩
  have hlarge : ∀ m, cell.value.Denotes m → IntType.i64.holds m = false := fun m hm =>
    Bool.eq_false_iff.2 fun hholds => hread ⟨m, hm, hholds⟩
  by_cases hreal : ∃ x m, cell.value = .real x ∧ cell.value.Denotes m
  · obtain ⟨x, m, hx, hm⟩ := hreal
    rw [cell.integer_of_real hx hm (hlarge m hm)] at h
    cases h
  · rw [cell.integer_of_not_denotes fun m hm => ⟨?_, hlarge m hm⟩] at h
    · cases h
    · generalize hv : cell.value = v at *
      cases hm with
      | int k => exact absurd (hlarge _ (.int k)) (by simp [IntType.holds_i64_toInt])
      | real hx => exact absurd ⟨_, _, rfl, .real hx⟩ hreal
      | text hs => exact ⟨_, rfl⟩

end Cell

/-! ## Both ways -/

/-- Integers of a type are not altered on the way to a column and back. -/
structure IntType.Unaltered (t : IntType) : Prop where
  /-- An integer is stored as itself. -/
  stored (n : Int) (hn : t.holds n = true) (h : ¬ (t = .u64 ∧ signedBound ≤ n)) :
    ∃ m : Int64, m.toInt = n ∧ (Datum.int t n).encodeField = .ok (.int m)
  /-- It is refused only if it needs all the bits of eight unsigned bytes. -/
  tooLarge (n : Int) (h : t = .u64 ∧ signedBound ≤ n) :
    (Datum.int t n).encodeField = .error (.notRepresentable (.tooLarge n))
  /-- A field reads an integer exactly if the value denotes it and both ranges hold it. -/
  read (around : Shape) (cell : Cell) (d : Datum) :
    Shape.decodeField around cell (.int t) = .ok d ↔
      ∃ n, d = .int t n ∧ cell.value.Denotes n ∧ IntType.i64.holds n = true ∧ t.holds n = true
  /-- An integer outside of the type is refused, with the integer and the type. -/
  outside (around : Shape) (cell : Cell) (n : Int) (h : cell.value.Denotes n) (hn : IntType.i64.holds n = true)
    (ht : t.holds n = false) :
    Shape.decodeField around cell (.int t) =
      .error (.notRepresentable (.outOfRange cell.column (integerText n) t.name))
  /-- A real number that is an integer beyond eight signed bytes is refused for these, whatever the type. -/
  beyond (around : Shape) (cell : Cell) (x : Double) (n : Int) (hx : cell.value = .real x) (h : cell.value.Denotes n)
    (hn : IntType.i64.holds n = false) :
    Shape.decodeField around cell (.int t) =
      .error (.notRepresentable (.outOfRange cell.column x.text IntType.i64.name))
  /-- All else is refused for its storage class: what denotes no integer, and longer texts of digits. -/
  unexpected (around : Shape) (cell : Cell)
    (h : ∀ n, cell.value.Denotes n → (∃ s, cell.value = .text s) ∧ IntType.i64.holds n = false) :
    Shape.decodeField around cell (.int t) =
      .error (.serialization (.unexpected cell.column "integer" cell.value.columnType?))

namespace Shape

variable {t : IntType} {around : Shape} {cell : Cell} {n : Int}

/-- A field of an integer type fails as its column does. -/
theorem decodeField_int_of_error {e : Error} (ht : t.storable = true) (h : cell.integer = .error e) :
    decodeField around cell (.int t) = .error e := by
  rw [decodeField_int cell ht, Cell.integerOf, h]
  rfl

/-- A field of an integer type has the integer of its column if this is in the range of the type. -/
theorem decodeField_int_of_integer (ht : t.storable = true) (h : cell.integer = .ok n) :
    decodeField around cell (.int t) =
      if t.holds n then .ok (.int t n)
      else .error (.notRepresentable (.outOfRange cell.column (integerText n) t.name)) := by
  rw [decodeField_int cell ht, Cell.integerOf, h]
  show Datum.int t <$> (if t.holds n = true then .ok n else cell.outOfRange (integerText n) t.name) = _
  split <;> rfl

end Shape

/-- No integer of at most eight bytes is altered. -/
theorem IntType.unaltered {t : IntType} (ht : t.storable = true) : t.Unaltered where
  stored n hn h := by
    have hrange := holds_i64.1 (holds_i64_of_holds ht hn h)
    refine ⟨Int64.ofInt n, Int64.toInt_ofInt_of_le hrange.1 hrange.2, ?_⟩
    have hsigned : signedInteger? n = some (Int64.ofInt n) := if_pos hrange
    simp [Datum.encodeField, ht, Value.ofInt?, hsigned]
  tooLarge n h := by
    have hsigned : signedInteger? n = none := if_neg (by omega)
    simp [Datum.encodeField, ht, Value.ofInt?, hsigned]
  read around cell d := by
    constructor
    · intro h
      cases hinteger : cell.integer with
      | error e =>
          rw [Shape.decodeField_int_of_error ht hinteger] at h
          cases h
      | ok n =>
          obtain ⟨hdenotes, hn⟩ := cell.integer_eq_ok_iff.1 hinteger
          rw [Shape.decodeField_int_of_integer ht hinteger] at h
          split at h
          · rename_i hholds
            exact ⟨n, (Except.ok.inj h).symm, hdenotes, hn, hholds⟩
          · cases h
    · rintro ⟨n, rfl, h, hn, hholds⟩
      rw [Shape.decodeField_int_of_integer ht (cell.integer_of_denotes h hn), if_pos hholds]
  outside around cell n h hn hout := by
    rw [Shape.decodeField_int_of_integer ht (cell.integer_of_denotes h hn), if_neg (by simp [hout])]
  beyond around cell x n hx h hn :=
    Shape.decodeField_int_of_error ht (cell.integer_of_real hx h hn)
  unexpected around cell h :=
    Shape.decodeField_int_of_error ht (cell.integer_of_not_denotes h)

theorem IntType.unaltered_byte : IntType.storable ⟨false, 8⟩ = true ∧ IntType.Unaltered ⟨false, 8⟩ :=
  ⟨rfl, unaltered rfl⟩

/-- The real number two to the power of 63. -/
def Double.pastSigned : Double := ⟨0x43e0000000000000⟩

/-- It is not only what lies outside of the type of a field that is refused as out of range: a real number that eight
unsigned bytes hold and eight signed ones do not is, too. -/
theorem IntType.not_unexpected_of_holds :
    ¬ ∀ (around : Shape) (cell : Cell) (e : Error), Shape.decodeField around cell (.int .u64) = .error e →
      ((∃ why, e = .notRepresentable why) ↔
        ∃ n, cell.value.Denotes n ∧ IntType.u64.holds n = false ∧
          ((∃ s, cell.value = .text s) → IntType.i64.holds n = true)) := by
  intro h
  have hdenotes : (Value.real .pastSigned).Denotes (2 ^ 63) :=
    .real (Double.pastSigned.toInt?_eq_some_iff.1 (by decide +kernel))
  have hinteger := Cell.integer_of_real ⟨"v", .real .pastSigned⟩ rfl hdenotes (by decide)
  have hrefused := @Shape.decodeField_int_of_error .u64 .bool _ _ rfl hinteger
  obtain ⟨n, hn, hout, -⟩ := (h _ _ _ hrefused).1 ⟨_, rfl⟩
  obtain rfl := hn.unique hdenotes
  exact absurd hout (by decide)

end RecordTables
