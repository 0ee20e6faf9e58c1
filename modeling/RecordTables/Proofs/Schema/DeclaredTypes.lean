import Mathlib
import RecordTables.Engine.Affinity
import RecordTables.Proofs.Text.AsciiWords
import RecordTables.Schema.Declared

/-!
# Declared types and affinities

A declared type is resolved by looking for words anywhere in it.  The engine finds the affinity of the column by one scan
over the bytes, of which it sees the last four at a time and remembers what it has found so far.
`Engine.Affinity.scanType_eq_settled` says which words decide what the scan finds, and `ColumnType.ofDeclared_eq_scanned`
that it comes to the same as the search on every text.
-/

namespace RecordTables

theorem occursIn_iff {word text : List Char} : occursIn word text = true ↔ word <:+: text := by
  induction text with
  | nil => rw [occursIn, List.isEmpty_iff, List.infix_nil]
  | cons c rest ih => rw [occursIn, Bool.or_eq_true, List.isPrefixOf_iff_prefix, ih, List.infix_cons_iff]

namespace Engine.Affinity

/-! ## The window -/

/-- What the window shows after some bytes. -/
def windowAfter (bytes : List UInt8) : Nat := bytes.foldl pushByte 0

theorem windowAfter_concat (bytes : List UInt8) (b : UInt8) :
    windowAfter (bytes ++ [b]) = (windowAfter bytes * 256 + b.toNat) % 256 ^ 4 := by
  rw [windowAfter, List.foldl_concat]
  rfl

theorem windowAfter_lt (bytes : List UInt8) : windowAfter bytes < 256 ^ 4 := by
  cases bytes using List.reverseRecOn with
  | nil => decide
  | append_singleton bytes b =>
      rw [windowAfter_concat]
      exact Nat.mod_lt _ (by decide)

theorem windowAfter_lt_pow_length (bytes : List UInt8) : windowAfter bytes < 256 ^ bytes.length := by
  induction bytes using List.reverseRecOn with
  | nil => decide
  | append_singleton bytes b ih =>
      have hb : b.toNat < 256 := b.toNat_lt
      rw [windowAfter_concat, List.length_append, List.length_singleton, Nat.pow_succ]
      exact (Nat.mod_le _ _).trans_lt (by omega)

/-- The window has room for four bytes. -/
theorem windowAfter_concat_of_short {bytes : List UInt8} (b : UInt8) (h : bytes.length + 1 ≤ 4) :
    windowAfter (bytes ++ [b]) = windowAfter bytes * 256 + b.toNat := by
  have hb : b.toNat < 256 := b.toNat_lt
  have hlt := windowAfter_lt_pow_length bytes
  have hroom : 256 ^ (bytes.length + 1) ≤ 256 ^ 4 := Nat.pow_le_pow_right (by decide) h
  rw [Nat.pow_succ] at hroom
  rw [windowAfter_concat, Nat.mod_eq_of_lt (by omega)]

/-- One more byte is one more digit of the window. -/
theorem windowAfter_concat_mod (bytes : List UInt8) (b : UInt8) {n : Nat} (hn : n + 1 ≤ 4) :
    windowAfter (bytes ++ [b]) % 256 ^ (n + 1) = windowAfter bytes % 256 ^ n * 256 + b.toNat := by
  have hb : b.toNat < 256 := b.toNat_lt
  have hlow : (windowAfter bytes * 256 + b.toNat) % 256 = b.toNat := by omega
  have hhigh : (windowAfter bytes * 256 + b.toNat) / 256 = windowAfter bytes := by omega
  rw [windowAfter_concat, Nat.mod_mod_of_dvd _ (Nat.pow_dvd_pow 256 hn), Nat.pow_succ', Nat.mod_mul, hlow, hhigh]
  omega

/-- The last bytes of the window show a word exactly if it was read last.  Before the first byte the window shows zeros,
which no word has. -/
theorem windowAfter_mod_eq_iff {word bytes : List UInt8} (hlength : word.length ≤ 4) (hword : 0 ∉ word) :
    windowAfter bytes % 256 ^ word.length = windowAfter word ↔ word <:+ bytes := by
  induction word using List.reverseRecOn generalizing bytes with
  | nil => simp [windowAfter, Nat.mod_one]
  | append_singleton word w ih =>
      rw [List.length_append, List.length_singleton] at hlength ⊢
      have hrest : 0 ∉ word := fun h => hword (List.mem_append_left _ h)
      have hw : 0 < w.toNat := Nat.pos_of_ne_zero fun h =>
        hword (List.mem_append_right _ (List.mem_singleton.2 (UInt8.toNat_inj.1 h).symm))
      rw [windowAfter_concat_of_short w hlength]
      cases bytes using List.reverseRecOn with
      | nil =>
          have hempty : windowAfter [] % 256 ^ (word.length + 1) = 0 := Nat.zero_mod _
          have hsuffix : ¬ word ++ [w] <:+ [] := by simp
          rw [hempty]
          exact iff_of_false (by omega) hsuffix
      | append_singleton bytes b =>
          have hsuffix : word ++ [w] <:+ bytes ++ [b] ↔ word <:+ bytes ∧ [w] = [b] :=
            List.suffix_append_inj_of_length_eq rfl
          have hb : b.toNat < 256 := b.toNat_lt
          have hwb : w.toNat < 256 := w.toNat_lt
          rw [windowAfter_concat_mod bytes b hlength, hsuffix, ← ih (by omega) hrest, List.singleton_inj,
            ← UInt8.toNat_inj]
          omega

/-! ## Words of declared types -/

theorem bounds_of_isLower {c : Char} (h : c.isLower = true) : 97 ≤ c.toNat ∧ c.toNat ≤ 122 := by
  simpa [Char.isLower, UInt32.le_iff_toNat_le] using h

/-- A word of at most four small letters. -/
structure SmallWord (word : String) : Prop where
  lower : ∀ c ∈ word.toList, c.isLower = true
  short : word.toList.length ≤ 4

theorem SmallWord.ascii {word : String} (h : SmallWord word) : ∀ c ∈ word.toList, c.toNat < 0x80 := by
  intro c hc
  have hbounds := bounds_of_isLower (h.lower c hc)
  omega

/-- The byte of a character of ASCII. -/
def letterByte (c : Char) : UInt8 := UInt8.ofNat c.toNat

theorem SmallWord.toUTF8 {word : String} (h : SmallWord word) : word.toUTF8.toList = word.toList.map letterByte := by
  rw [toList_toUTF8, List.map_eq_flatMap]
  exact List.flatMap_congr fun c hc => utf8EncodeChar_of_ascii (h.ascii c hc)

theorem SmallWord.windowAfter_mod_eq_iff {word : String} (h : SmallWord word) {bytes : List UInt8} :
    windowAfter bytes % 256 ^ word.toList.length = windowOf word ↔ word.toUTF8.toList <:+ bytes := by
  have hlength : word.toUTF8.toList.length = word.toList.length := by rw [h.toUTF8, List.length_map]
  have hzero : 0 ∉ word.toUTF8.toList := by
    rw [h.toUTF8, List.mem_map]
    rintro ⟨c, hc, heq⟩
    have hbounds := bounds_of_isLower (h.lower c hc)
    rw [letterByte, show (0 : UInt8) = UInt8.ofNat 0 from rfl, byte_inj (by omega) (by decide)] at heq
    omega
  rw [← hlength]
  exact Affinity.windowAfter_mod_eq_iff (hlength ▸ h.short) hzero

/-- A word of four letters fills the window. -/
theorem SmallWord.windowAfter_eq_iff {word : String} (h : SmallWord word) (hfull : word.toList.length = 4)
    {bytes : List UInt8} :
    windowAfter bytes = windowOf word ↔ word.toUTF8.toList <:+ bytes := by
  rw [← h.windowAfter_mod_eq_iff, hfull, Nat.mod_eq_of_lt (windowAfter_lt bytes)]

def textWords : List String := ["char", "clob", "text"]

def realWords : List String := ["real", "floa", "doub"]

/-- One of the words is somewhere in the bytes. -/
def Occurs (words : List String) (bytes : List UInt8) : Prop := ∃ word ∈ words, word.toUTF8.toList <:+: bytes

/-- One of the words was read last. -/
def Ends (words : List String) (bytes : List UInt8) : Prop := ∃ word ∈ words, word.toUTF8.toList <:+ bytes

instance (words : List String) (bytes : List UInt8) : Decidable (Occurs words bytes) :=
  inferInstanceAs (Decidable (∃ word ∈ words, word.toUTF8.toList <:+: bytes))

instance (words : List String) (bytes : List UInt8) : Decidable (Ends words bytes) :=
  inferInstanceAs (Decidable (∃ word ∈ words, word.toUTF8.toList <:+ bytes))

theorem occurs_concat {words : List String} {bytes : List UInt8} {b : UInt8} :
    Occurs words (bytes ++ [b]) ↔ Ends words (bytes ++ [b]) ∨ Occurs words bytes := by
  simp only [Occurs, Ends, List.infix_concat_iff, and_or_left, exists_or]

theorem Occurs.append {words : List String} {bytes : List UInt8} (h : Occurs words bytes) (rest : List UInt8) :
    Occurs words (bytes ++ rest) := by
  obtain ⟨word, hword, hinfix⟩ := h
  exact ⟨word, hword, hinfix.trans (List.prefix_append ..).isInfix⟩

/-- All words that tell something about a declared type. -/
def typeWords : List String := textWords ++ ["blob"] ++ realWords ++ ["int"]

theorem smallWord_of_mem {word : String} (h : word ∈ typeWords) : SmallWord word := by
  have hall : ∀ word ∈ typeWords, (∀ c ∈ word.toList, c.isLower = true) ∧ word.toList.length ≤ 4 := by
    simp [typeWords, textWords, realWords]
  exact ⟨(hall word h).1, (hall word h).2⟩

/-- No word ends together with another one that stands for an integer. -/
theorem not_ends_of_ends_int {words : List String} (hwords : words ⊆ textWords ++ ["blob"] ++ realWords)
    {bytes : List UInt8} (h : Ends ["int"] bytes) : ¬ Ends words bytes := by
  rintro ⟨word, hword, hends⟩
  obtain ⟨_, hint, hends'⟩ := h
  cases List.mem_singleton.1 hint
  have hsmall := smallWord_of_mem (List.mem_append_left ["int"] (hwords hword))
  have hinteger : SmallWord "int" := smallWord_of_mem (by decide)
  have hapart : ∀ word ∈ textWords ++ ["blob"] ++ realWords,
      "int".toList.length ≤ word.toList.length ∧ ¬ "int".toList.map letterByte <:+ word.toList.map letterByte := by
    decide
  rw [hsmall.toUTF8] at hends
  rw [hinteger.toUTF8] at hends'
  refine (hapart word (hwords hword)).2 (List.suffix_of_suffix_length_le hends' hends ?_)
  rw [List.length_map, List.length_map]
  exact (hapart word (hwords hword)).1

/-! ## The scan -/

/-- The step of the scan in terms of the words that were read last. -/
theorem scanStep_windowAfter (found : Affinity) (bytes : List UInt8) : scanStep found (windowAfter bytes) =
    if Ends textWords bytes then some .text
    else if Ends ["blob"] bytes ∧ (found = .numeric ∨ found = .real) then some .blob
    else if Ends realWords bytes ∧ found = .numeric then some .real
    else if Ends ["int"] bytes then none
    else some found := by
  have hfour : ∀ word ∈ textWords ++ ["blob"] ++ realWords,
      windowAfter bytes = windowOf word ↔ word.toUTF8.toList <:+ bytes := by
    intro word hword
    have hfull : ∀ word ∈ textWords ++ ["blob"] ++ realWords, word.toList.length = 4 := by simp [textWords, realWords]
    exact (smallWord_of_mem (List.mem_append_left _ hword)).windowAfter_eq_iff (hfull word hword)
  have hint : windowAfter bytes % 0x1000000 = windowOf "int" ↔ "int".toUTF8.toList <:+ bytes :=
    (smallWord_of_mem (show "int" ∈ typeWords by decide)).windowAfter_mod_eq_iff
  simp only [textWords, realWords, List.cons_append, List.nil_append, List.forall_mem_cons] at hfour
  obtain ⟨hchar, hclob, htext, hblob, hreal, hfloa, hdoub, -⟩ := hfour
  simp only [scanStep, hchar, hclob, htext, hblob, hreal, hfloa, hdoub, hint, Ends, textWords, realWords,
    List.exists_mem_cons_iff, List.not_mem_nil, false_and, exists_false, or_false, Bool.or_eq_true, Bool.and_eq_true,
    decide_eq_true_eq, or_assoc]

/-- The affinity that the words in some bytes tell, in the order in which they outrank each other. -/
def settled (bytes : List UInt8) : Affinity :=
  if Occurs ["int"] bytes then .integer
  else if Occurs textWords bytes then .text
  else if Occurs ["blob"] bytes then .blob
  else if Occurs realWords bytes then .real
  else .numeric

/-- One step: the scan goes on with what the bytes read so far tell, and stops once they tell an integer. -/
theorem scanStep_settled {seen : List UInt8} {b : UInt8} (h : ¬ Occurs ["int"] seen) :
    scanStep (settled seen) (windowAfter (seen ++ [b])) =
      if Occurs ["int"] (seen ++ [b]) then none else some (settled (seen ++ [b])) := by
  have htext := @not_ends_of_ends_int textWords (by simp) (seen ++ [b])
  have hblob := @not_ends_of_ends_int ["blob"] (by simp) (seen ++ [b])
  have hreal := @not_ends_of_ends_int realWords (by simp) (seen ++ [b])
  rw [scanStep_windowAfter]
  simp only [settled, occurs_concat, h, or_false, if_false]
  by_cases hint : Ends ["int"] (seen ++ [b])
  · simp [hint, htext hint, hblob hint, hreal hint]
  · -- A word that ends here replaces what was found before exactly if it outranks it.
    grind

/-- A whole run: from any point on, the scan finds what all bytes together tell. -/
theorem scanType_settled (rest : List UInt8) {seen : List UInt8} (h : ¬ Occurs ["int"] seen) :
    scanType (settled seen) (windowAfter seen) rest = settled (seen ++ rest) := by
  induction rest generalizing seen with
  | nil => rw [scanType, List.append_nil]
  | cons b rest ih =>
      have hwindow : pushByte (windowAfter seen) b = windowAfter (seen ++ [b]) := (List.foldl_concat ..).symm
      have hsplit : seen ++ b :: rest = seen ++ [b] ++ rest := by rw [List.append_assoc, List.singleton_append]
      simp only [scanType, hwindow, scanStep_settled h]
      rw [hsplit]
      by_cases hint : Occurs ["int"] (seen ++ [b])
      · rw [if_pos hint, settled, if_pos (hint.append rest)]
      · rw [if_neg hint]
        exact ih hint

theorem not_occurs_nil {words : List String} (h : words ⊆ typeWords) : ¬ Occurs words [] := by
  have hnonempty : ∀ word ∈ typeWords, word.toList.map letterByte ≠ [] := by decide
  rintro ⟨word, hword, hinfix⟩
  rw [(smallWord_of_mem (h hword)).toUTF8, List.infix_nil] at hinfix
  exact hnonempty word (h hword) hinfix

/-- What the scan finds depends on nothing but the words that occur. -/
theorem scanType_eq_settled (bytes : List UInt8) : scanType .numeric 0 bytes = settled bytes := by
  have hint : ¬ Occurs ["int"] [] := not_occurs_nil (by decide)
  have hstart : settled [] = .numeric := by
    rw [settled, if_neg hint, if_neg (not_occurs_nil (by decide)), if_neg (not_occurs_nil (by decide)),
      if_neg (not_occurs_nil (by decide))]
  have hrun := scanType_settled bytes hint
  rwa [hstart] at hrun

/-- The storage class of what a column of an affinity keeps; one for numbers of any kind keeps them as real ones. -/
def columnType : Affinity → ColumnType
  | .blob => .blob
  | .text => .text
  | .numeric => .real
  | .integer => .integer
  | .real => .real

theorem columnType_settled (bytes : List UInt8) : (settled bytes).columnType =
    if Occurs ["int"] bytes then .integer
    else if Occurs textWords bytes then .text
    else if Occurs ["blob"] bytes then .blob
    else .real := by
  rw [settled]
  split_ifs <;> rfl

end Engine.Affinity

/-! ## Agreement -/

open Engine.Affinity (SmallWord Occurs typeWords textWords smallWord_of_mem columnType_settled scanType_eq_settled)

/-- A word is among the capital letters of a text exactly if its bytes are among those of the small letters. -/
theorem occursIn_capitals_iff {word capitals declared : String} (h : word ∈ typeWords)
    (hcapitals : capitals.toList = word.toList.map Char.toUpper) :
    occursIn capitals.toList (declared.toList.map Char.toUpper) = true ↔
      word.toUTF8.toList <:+: declared.toLower.toUTF8.toList := by
  have hsmall := smallWord_of_mem h
  have hne : word.toList ≠ [] := by
    have hall : ∀ word ∈ typeWords, word.toList ≠ [] := by decide
    exact hall word h
  have hfold : capitals.toList.map Char.toLower = word.toList := by
    rw [hcapitals, List.map_map]
    refine (List.map_congr_left fun c hc => ?_).trans (List.map_id _)
    rw [Function.comp_apply, Char.toLower_toUpper_eq_toLower, id,
      Char.toLower_eq_of_not_isUpper (Char.not_isUpper_of_isLower (hsmall.lower c hc))]
  have hlower : (declared.toList.map Char.toUpper).map Char.toLower = declared.toList.map Char.toLower := by
    simp
  have hupper : (declared.toList.map Char.toLower).map Char.toUpper = declared.toList.map Char.toUpper := by
    simp
  rw [occursIn_iff, toList_toUTF8, toList_toUTF8, infix_flatMap_utf8EncodeChar hsmall.ascii hne, String.toLower,
    String.toList_map]
  constructor
  · intro hinfix
    rw [← hfold, ← hlower]
    exact hinfix.map _
  · intro hinfix
    rw [hcapitals, ← hupper]
    exact hinfix.map _

/-- A declared type is resolved as the engine's scan over the bytes of its small letters finds it; a column without a type
keeps everything as it is. -/
theorem ColumnType.ofDeclared_eq_scanned (declared : String) :
    ColumnType.ofDeclared declared =
      if declared = "" then .blob
      else (Engine.Affinity.scanType .numeric 0 declared.toLower.toUTF8.toList).columnType := by
  by_cases hempty : declared = ""
  · subst hempty
    rfl
  · have hsome : (declared.toList.map Char.toUpper).isEmpty = false := by
      rw [List.isEmpty_eq_false_iff, ne_eq, List.map_eq_nil_iff, String.toList_eq_nil_iff]
      exact hempty
    have hint := @occursIn_capitals_iff "int" "INT" declared (by decide) (by decide)
    have hchar := @occursIn_capitals_iff "char" "CHAR" declared (by decide) (by decide)
    have hclob := @occursIn_capitals_iff "clob" "CLOB" declared (by decide) (by decide)
    have htext := @occursIn_capitals_iff "text" "TEXT" declared (by decide) (by decide)
    have hblob := @occursIn_capitals_iff "blob" "BLOB" declared (by decide) (by decide)
    rw [if_neg hempty, scanType_eq_settled, columnType_settled]
    simp only [ofDeclared, hint, hchar, hclob, htext, hblob, hsome, Bool.or_eq_true, Bool.false_eq_true, false_or,
      Occurs, textWords, List.exists_mem_cons_iff, List.not_mem_nil, false_and, exists_false, or_false, or_assoc]

end RecordTables
