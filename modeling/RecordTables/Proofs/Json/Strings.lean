import RecordTables.Json.Reader

/-!
# Strings of documents read back

A text is written piece by piece, each character as itself or as an escape.  Reading behind the opening quote gives
the pieces back, and the pieces have the text.
-/

namespace RecordTables.Json

open RecordTables.Text (Symbol)

/-- Characters as symbols. -/
def symbols (cs : List Char) : List Symbol := cs.map .char

@[simp]
theorem symbols_nil : symbols [] = [] := rfl

@[simp]
theorem symbols_cons (c : Char) (cs : List Char) : symbols (c :: cs) = .char c :: symbols cs := rfl

@[simp]
theorem symbols_append (cs ds : List Char) : symbols (cs ++ ds) = symbols cs ++ symbols ds := List.map_append

/-! ## Pieces -/

/-- A piece in front of what is read behind it. -/
def consPiece (piece : Piece) (r : List Piece × List Symbol) : List Piece × List Symbol := (piece :: r.1, r.2)

theorem readPieces_unicode {a b c d : Char} {unit : UInt16} (h : hexUnit? a b c d = some unit)
    (rest : List Symbol) :
    readPieces? (.char '\\' :: .char 'u' :: .char a :: .char b :: .char c :: .char d :: rest) =
      (readPieces? rest).map (consPiece (.escape unit)) := by
  rw [readPieces?, h]
  cases readPieces? rest <;> rfl

theorem readPieces_short {c : Char} {unit : UInt16} (h : shortEscape? c = some unit) (rest : List Symbol) :
    readPieces? (.char '\\' :: .char c :: rest) = (readPieces? rest).map (consPiece (.escape unit)) := by
  have hc : c ≠ 'u' := by
    rintro rfl
    simp [shortEscape?] at h
  rw [readPieces?, h]
  · cases readPieces? rest <;> rfl
  · intro a b c' d rest' _ hu
    exact hc hu

theorem readPieces_plain {s : Symbol} (hquote : s ≠ .char '"') (hbackslash : s ≠ .char '\\') (rest : List Symbol) :
    readPieces? (s :: rest) = (readPieces? rest).map (consPiece (.plain s)) := by
  rw [readPieces?]
  · cases readPieces? rest <;> rfl
  -- The other ways to read on start with a quote or with a backslash.
  · exact hquote
  · intro a b c d rest' h
    exact absurd h hbackslash
  · intro c rest' h
    exact absurd h hbackslash
  · exact hbackslash

/-- Whether the characters of an escape are read as it. -/
def readsAs (unit : UInt16) : List Char → Bool
  | [mark, kind, a, b, c, d] => mark == '\\' && kind == 'u' && hexUnit? a b c d == some unit
  | [mark, c] => mark == '\\' && shortEscape? c == some unit
  | _ => false

theorem readPieces_of_readsAs {unit : UInt16} {cs : List Char} (h : readsAs unit cs = true)
    (rest : List Symbol) :
    readPieces? (symbols cs ++ rest) = (readPieces? rest).map (consPiece (.escape unit)) := by
  unfold readsAs at h
  split at h
  · rw [Bool.and_eq_true, Bool.and_eq_true, beq_iff_eq, beq_iff_eq, beq_iff_eq] at h
    obtain ⟨⟨rfl, rfl⟩, hunit⟩ := h
    exact readPieces_unicode hunit rest
  · rw [Bool.and_eq_true, beq_iff_eq, beq_iff_eq] at h
    obtain ⟨rfl, hunit⟩ := h
    exact readPieces_short hunit rest
  · cases h

/-- Each of the 32 control characters is written as an escape that is read as it. -/
theorem readsAs_control {n : Nat} (hn : n < 32) :
    readsAs (UInt16.ofNat n) (escapeChars (UInt16.ofNat n)) = true := by
  have hall : ∀ n < 32, readsAs (UInt16.ofNat n) (escapeChars (UInt16.ofNat n)) = true := by decide
  exact hall n hn

/-- A character that is written is read as its piece. -/
theorem readPieces_ofChar (c : Char) (rest : List Symbol) :
    readPieces? (symbols (Piece.ofChar c).chars ++ rest) = (readPieces? rest).map (consPiece (Piece.ofChar c)) := by
  by_cases hquote : c = '"'
  · subst hquote
    exact readPieces_short rfl rest
  · by_cases hbackslash : c = '\\'
    · subst hbackslash
      exact readPieces_short rfl rest
    · by_cases hcontrol : c < ' '
      · have hpiece : Piece.ofChar c = .escape (UInt16.ofNat c.toNat) := by
          simp [Piece.ofChar, hcontrol]
        rw [hpiece]
        exact readPieces_of_readsAs (readsAs_control hcontrol) rest
      · have hpiece : Piece.ofChar c = .plain (.char c) := by
          simp [Piece.ofChar, hquote, hbackslash, hcontrol]
        rw [hpiece]
        exact readPieces_plain (mt Symbol.char.inj hquote) (mt Symbol.char.inj hbackslash) rest

/-- Behind the opening quote of a text its pieces are read, and the text ends at the closing quote. -/
theorem readPieces_ofString (cs : List Char) (rest : List Symbol) :
    readPieces? (symbols ((cs.map Piece.ofChar).flatMap Piece.chars ++ ['"']) ++ rest) =
      some (cs.map Piece.ofChar, rest) := by
  induction cs with
  | nil => rfl
  | cons c cs ih =>
      rw [List.map_cons, List.flatMap_cons, List.append_assoc, symbols_append, List.append_assoc,
        readPieces_ofChar, ih]
      rfl

/-! ## Texts -/

theorem chars_escape {unit : UInt16} (hhigh : isHighHalf unit = false) (hlow : isLowHalf unit = false)
    (rest : List Piece) :
    Piece.chars? (.escape unit :: rest) = (Piece.chars? rest).map (Char.ofNat unit.toNat :: ·) := by
  cases rest with
  | nil => simp [Piece.chars?, hhigh, hlow]
  | cons piece rest =>
      cases piece with
      | plain s => simp [Piece.chars?, hhigh, hlow]
      | escape v => simp [Piece.chars?, hhigh, hlow]

theorem chars_ofChar (c : Char) (rest : List Piece) :
    Piece.chars? (Piece.ofChar c :: rest) = (Piece.chars? rest).map (c :: ·) := by
  by_cases hescape : c = '"' ∨ c = '\\' ∨ c < ' '
  · have hpiece : Piece.ofChar c = .escape (UInt16.ofNat c.toNat) := by
      rcases hescape with rfl | rfl | h
      · rfl
      · rfl
      · simp [Piece.ofChar, h]
    have hsmall : c.toNat < 128 := by
      rcases hescape with rfl | rfl | h
      · decide
      · decide
      · exact Nat.lt_trans h (by decide)
    have htoNat : (UInt16.ofNat c.toNat).toNat = c.toNat := by
      rw [UInt16.toNat_ofNat']
      omega
    -- An escape may be half of a character, but not one of these.
    have hhalves : ∀ unit : UInt16, unit.toNat < 128 → isHighHalf unit = false ∧ isLowHalf unit = false := by
      intro unit hunit
      simp [isHighHalf, isLowHalf, UInt16.le_iff_toNat_le]
      omega
    obtain ⟨hhigh, hlow⟩ := hhalves (UInt16.ofNat c.toNat) (by omega)
    rw [hpiece, chars_escape hhigh hlow, htoNat, Char.ofNat_toNat]
  · simp only [not_or] at hescape
    have hpiece : Piece.ofChar c = .plain (.char c) := by
      simp [Piece.ofChar, hescape]
    rw [hpiece]
    simp [Piece.chars?, hescape]

theorem chars_map_ofChar (cs : List Char) : Piece.chars? (cs.map Piece.ofChar) = some cs := by
  induction cs with
  | nil => rfl
  | cons c cs ih => rw [List.map_cons, chars_ofChar, ih]; rfl

@[simp]
theorem text_ofString (s : String) : Piece.text? (Piece.ofString s) = some s := by
  simp [Piece.text?, Piece.ofString, chars_map_ofChar]

end RecordTables.Json
