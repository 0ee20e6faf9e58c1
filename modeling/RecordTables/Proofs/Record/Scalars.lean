import Mathlib.Algebra.Group.Int.Defs
import Mathlib.Algebra.Group.Nat.Defs
import RecordTables.Record.Read
import RecordTables.Proofs.Json.RoundTrip
import RecordTables.Proofs.Record.Typing

/-!
# Scalars and keys read back

Integers of at most eight bytes survive a document, as numbers and as keys, and so do bytes.  A map of ascending
keys is read as it was written.
-/

namespace RecordTables

open RecordTables.Json (Document Piece symbols)

/-! ## Integers -/

/-- The numbers of a type that is no wider than some other. -/
theorem IntType.holds_bounds {type : IntType} {n : Int} {width : Nat} (hbits : type.bits ≤ width)
    (h : type.holds n = true) : -2 ^ (width - 1) ≤ n ∧ n < 2 ^ width := by
  obtain ⟨signed, bits⟩ := type
  have hhalf : (2 : Int) ^ (width - 1) ≤ 2 ^ width := by
    exact_mod_cast Nat.pow_le_pow_right (by decide) (Nat.sub_le width 1)
  cases signed with
  | true =>
      simp only [IntType.holds, if_true, Bool.and_eq_true, decide_eq_true_eq] at h
      have hpow : (2 : Int) ^ (bits - 1) ≤ 2 ^ (width - 1) := by
        exact_mod_cast Nat.pow_le_pow_right (by decide) (Nat.sub_le_sub_right hbits 1)
      omega
  | false =>
      simp only [IntType.holds, Bool.false_eq_true, if_false, Bool.and_eq_true, decide_eq_true_eq] at h
      have hpow : (2 : Int) ^ bits ≤ 2 ^ width := by
        exact_mod_cast Nat.pow_le_pow_right (by decide) hbits
      have hpos : (0 : Int) ≤ 2 ^ (width - 1) := by
        exact_mod_cast Nat.zero_le _
      omega

/-- An integer is read back from its number. -/
theorem IntType.read_ofInt {type : IntType} {n : Int} (h : type.holds n = true) : type.read? (.ofInt n) = some n := by
  by_cases hstorable : type.storable = true
  · have hbounds := @IntType.holds_bounds type n 64 (by simpa [IntType.storable] using hstorable) h
    have hsize : UInt64.size = 2 ^ 64 := rfl
    -- A negative number may be one further from zero than half of the range, a positive one fills all of it.
    have hint : (Json.Number.ofInt n).int? = some n := by
      by_cases hneg : n < 0
      · have hbound : n.natAbs ≠ 0 ∧ n.natAbs ≤ UInt64.size / 2 := by omega
        simp only [Json.Number.ofInt, hneg, decide_true, Json.Number.int?, hbound, if_true, ne_eq,
          not_false_eq_true, and_self, Option.some.injEq]
        omega
      · have hbound : n.natAbs < UInt64.size := by omega
        simp only [Json.Number.ofInt, hneg, decide_false, Json.Number.int?, hbound, if_true, Option.some.injEq]
        omega
    simp [IntType.read?, hstorable, hint, h]
  -- Beyond eight bytes the digits count, and only a signed type holds a negative number.
  · by_cases hneg : n < 0
    · have hsigned : type.signed = true := by
        apply Decidable.byContradiction
        intro hunsigned
        simp only [IntType.holds, hunsigned, if_false, Bool.and_eq_true, decide_eq_true_eq] at h
        omega
      obtain ⟨k, rfl⟩ : ∃ k : Nat, n = -(k : Int) := ⟨n.natAbs, by omega⟩
      have hk : 0 < k := by omega
      simp [IntType.read?, hstorable, Json.Number.ofInt, hk, hsigned, h]
    · obtain ⟨k, rfl⟩ : ∃ k : Nat, n = (k : Int) := ⟨n.natAbs, by omega⟩
      simp [IntType.read?, hstorable, Json.Number.ofInt, hneg, h]

theorem integerText_eq (n : Int) : integerText n = (Json.Number.ofInt n).text := by
  cases n with
  | ofNat k =>
      have hneg : ¬ (Int.ofNat k < 0) := by simp
      simp only [Json.Number.ofInt, hneg, decide_false, Json.Number.text, Bool.false_eq_true, if_false]
      rfl
  | negSucc k =>
      have hneg : Int.negSucc k < 0 := Int.negSucc_lt_zero k
      simp only [Json.Number.ofInt, hneg, decide_true, Json.Number.text, if_true]
      rfl

/-! ## Keys -/

/-- A text of digits and signs has no escapes. -/
theorem Json.plainChars_of_plain {cs : List Char} (h : ∀ c ∈ cs, Piece.ofChar c = .plain (.char c)) :
    Piece.plainChars? (cs.map Piece.ofChar) = some cs := by
  induction cs with
  | nil => rfl
  | cons c cs ih =>
      have hrest := ih fun d hd => h d (List.mem_cons_of_mem _ hd)
      rw [Piece.plainChars?] at hrest ⊢
      rw [List.map_cons, List.mapM_cons, h c (List.mem_cons_self ..), hrest]
      rfl

theorem ofChar_of_numeral {c : Char} (h : c = '-' ∨ c.isDigit = true) : Piece.ofChar c = .plain (.char c) := by
  rcases h with rfl | h
  · rfl
  · have hne : ∀ d : Char, d.isDigit = false → c ≠ d := by
      rintro d hd rfl
      simp [hd] at h
    have hblank : ¬ c < ' ' := by
      intro hlt
      simp only [Char.isDigit, Bool.and_eq_true, decide_eq_true_eq, UInt32.le_iff_toNat_le] at h
      have hlt' : c.val.toNat < 32 := hlt
      have hzero : '0'.val.toNat = 48 := rfl
      omega
    simp [Piece.ofChar, hne '"' (by decide), hne '\\' (by decide), hblank]

/-- The key of an integer is read as its number. -/
theorem keyNumber_integerText (n : Int) : keyNumber? (Piece.ofString (integerText n)) = some (.ofInt n) := by
  have hchars : ∀ c ∈ (integerText n).toList, Piece.ofChar c = .plain (.char c) := by
    intro c hc
    apply ofChar_of_numeral
    rw [integerText_eq, Json.Number.ofInt, Json.Number.text] at hc
    by_cases hneg : n < 0
    · simp only [hneg, decide_true, if_true, String.toList_append, List.mem_append] at hc
      rcases hc with hc | hc
      · exact .inl (by simpa using hc)
      · rw [Nat.toString_eq_ofList_toDigits, String.toList_ofList] at hc
        exact .inr (all_isDigit_toDigits _ c hc)
    · simp only [hneg, decide_false, Bool.false_eq_true, if_false, String.toList_append, List.mem_append] at hc
      rcases hc with hc | hc
      · simp at hc
      · rw [Nat.toString_eq_ofList_toDigits, String.toList_ofList] at hc
        exact .inr (all_isDigit_toDigits _ c hc)
  have hplain : Piece.plainChars? (Piece.ofString (integerText n)) = some (integerText n).toList :=
    Json.plainChars_of_plain hchars
  have hread : Json.readNumber? ((integerText n).toList.map .char) = some (.ofInt n, []) := by
    have hwhole := Json.readNumber_whole (n < 0) n.natAbs Json.stops_nil
    rw [List.append_nil] at hwhole
    rw [integerText_eq]
    exact hwhole
  simp [keyNumber?, hplain, hread]

/-! ## Bytes -/

theorem toList_loop (content : ByteArray) : ∀ (k i : Nat) (acc : List UInt8), k = content.size - i →
    ByteArray.toList.loop content i acc = acc.reverse ++ content.data.toList.drop i := by
  -- The loop counts up to the size, so the induction is on the bytes that are left.
  intro k
  induction k with
  | zero =>
      intro i acc hk
      rw [ByteArray.toList.loop, if_neg (by omega), List.drop_eq_nil_of_le, List.append_nil]
      change content.size ≤ i
      omega
  | succ k ih =>
      intro i acc hk
      have hi : i < content.data.size := by
        change i < content.size
        omega
      rw [ByteArray.toList.loop, if_pos (by omega), ih (i + 1) _ (by omega), List.reverse_cons, List.append_assoc,
        List.singleton_append]
      have hget : content.get! i = content.data.toList[i] := getElem!_pos content.data i hi
      rw [hget, ← List.drop_eq_getElem_cons]

theorem toList_eq_data (content : ByteArray) : content.toList = content.data.toList := by
  rw [ByteArray.toList, toList_loop content _ 0 [] rfl]
  simp

@[simp]
theorem toList_toArray (content : ByteArray) : (⟨content.toList.toArray⟩ : ByteArray) = content := by
  rw [toList_eq_data]

theorem byteItems_map (bytes : List UInt8) :
    byteItems? (bytes.map fun b => .number (.whole false b.toNat)) = some bytes := by
  have hbyte : ∀ b : UInt8, ((⟨false, 8⟩ : IntType).read? (.whole false b.toNat)) = some (b.toNat : Int) := by
    intro b
    have hb : (⟨false, 8⟩ : IntType).holds (b.toNat : Int) = true := by
      have := b.toNat_lt
      simp [IntType.holds]
      omega
    exact IntType.read_ofInt (n := (b.toNat : Int)) hb
  induction bytes with
  | nil => rfl
  | cons b bytes ih =>
      rw [byteItems?] at ih ⊢
      simp only [List.map_cons, List.mapM_cons, ih, hbyte]
      simp

/-! ## Maps -/

namespace Datum

/-- The order of keys is strict. -/
theorem not_keyBefore_of_keyBefore {a b : Datum} (h : a.keyBefore b = true) : b.keyBefore a = false := by
  fun_induction keyBefore a b with
  | case1 a b =>
      simp only [Bool.and_eq_true, Bool.not_eq_true'] at h
      simp [keyBefore, h]
  | case2 _ a _ b =>
      simp only [decide_eq_true_eq] at h
      simp only [keyBefore, decide_eq_false_iff_not]
      omega
  | case3 a b =>
      simp only [decide_eq_true_eq] at h
      simp only [keyBefore, decide_eq_false_iff_not]
      exact fun h' => Nat.lt_irrefl _ (Nat.lt_trans (show a.toNat < b.toNat from h) h')
  | case4 a b =>
      simp only [decide_eq_true_eq] at h
      simp only [keyBefore, decide_eq_false_iff_not]
      exact String.lt_asymm h
  | case5 a b ih => exact ih h
  | case6 b => rfl
  | case7 a b ih => exact ih h
  | case8 => cases h

/-- An entry behind all others is put at the end. -/
theorem insertEntry_of_forall {key value : Datum} {entries : List (Datum × Datum)}
    (h : ∀ e ∈ entries, e.1.keyBefore key = true) : insertEntry key value entries = entries ++ [(key, value)] := by
  induction entries with
  | nil => rfl
  | cons e entries ih =>
      obtain ⟨k, v⟩ := e
      have hbefore : k.keyBefore key = true := h (k, v) (List.mem_cons_self ..)
      have hrest := ih fun e he => h e (List.mem_cons_of_mem _ he)
      rw [insertEntry, not_keyBefore_of_keyBefore hbefore, hbefore, hrest]
      rfl

/-- A map of entries in ascending order has these entries. -/
theorem mapOf_of_sorted {entries : List (Datum × Datum)}
    (h : entries.Pairwise fun a b => a.1.keyBefore b.1 = true) : mapOf entries = .map entries := by
  have hmap : mapOf entries = .map (entries.foldl (fun acc e => insertEntry e.1 e.2 acc) []) := rfl
  -- What was inserted so far and what is to come are in order together, so each entry goes to the end.
  have hfold : ∀ acc : List (Datum × Datum), (acc ++ entries).Pairwise (fun a b => a.1.keyBefore b.1 = true) →
      entries.foldl (fun acc e => insertEntry e.1 e.2 acc) acc = acc ++ entries := by
    clear h hmap
    induction entries with
    | nil => simp
    | cons e entries ih =>
        intro acc hsorted
        have hlast : ∀ e' ∈ acc, e'.1.keyBefore e.1 = true := by
          intro e' he'
          exact (List.pairwise_append.1 hsorted).2.2 e' he' e (List.mem_cons_self ..)
        have hinsert : insertEntry e.1 e.2 acc = acc ++ [e] := insertEntry_of_forall hlast
        have hrest := ih (acc ++ [e]) (by simpa using hsorted)
        rw [List.foldl_cons, hinsert, hrest, List.append_assoc, List.singleton_append]
  rw [hmap, hfold [] h, List.nil_append]

end Datum

end RecordTables
