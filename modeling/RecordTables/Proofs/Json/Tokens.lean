import RecordTables.Proofs.Json.Numerals

/-!
# Numerals and strings as they may be written

A number and a string have many spellings: a numeral may have a fraction and an exponent with or without a sign, and a
character may stand for itself or be escaped in two ways.  The relations of this module say which texts spell what,
and the readers take exactly these texts.  A numeral ends where nothing continues it, a string at its quote.
-/

namespace RecordTables.Json

open RecordTables.Text (Symbol)

/-! ## Numerals -/

/-- Digits alone, and at least one. -/
def IsDigits (cs : List Char) : Prop := cs ≠ [] ∧ ∀ c ∈ cs, c.isDigit = true

/-- The text of a fraction, and the digits behind its point. -/
inductive FractionText : List Char → Option (List Char) → Prop
  | none : FractionText [] none
  | some {digits : List Char} (h : IsDigits digits) : FractionText ('.' :: digits) (some digits)

/-- The mark of an exponent. -/
def IsMark (c : Char) : Prop := c = 'e' ∨ c = 'E'

/-- The text of an exponent, and its value. -/
inductive ExponentText : List Char → Option Int → Prop
  | none : ExponentText [] none
  | unsigned {mark : Char} {digits : List Char} (hmark : IsMark mark) (h : IsDigits digits) :
      ExponentText (mark :: digits) (some (digitsValue 0 digits))
  | positive {mark : Char} {digits : List Char} (hmark : IsMark mark) (h : IsDigits digits) :
      ExponentText (mark :: '+' :: digits) (some (digitsValue 0 digits))
  | negative {mark : Char} {digits : List Char} (hmark : IsMark mark) (h : IsDigits digits) :
      ExponentText (mark :: '-' :: digits) (some (-(digitsValue 0 digits : Int)))

/-- The text of a number: a sign, digits without a leading zero, a fraction and an exponent. -/
inductive NumberText : List Char → Number → Prop
  | intro {negative : Bool} {whole fraction exponent : List Char} {digits : Option (List Char)} {power : Option Int}
      (hwhole : IsDigits whole) (hlead : whole.length = 1 ∨ whole.head? ≠ some '0')
      (hfraction : FractionText fraction digits) (hexponent : ExponentText exponent power) :
      NumberText ((if negative then ['-'] else []) ++ (whole ++ (fraction ++ exponent)))
        (numberOf negative whole digits power)

/-- What does not continue a numeral. -/
structure EndsNumeral (rest : List Symbol) : Prop where
  digit : NoDigit rest
  point : ∀ tail, rest ≠ .char '.' :: tail
  mark : ∀ c tail, rest = .char c :: tail → ¬ IsMark c

theorem splitDigits_spec (input : List Symbol) :
    input = symbols (splitDigits input).1 ++ (splitDigits input).2 ∧ ∀ c ∈ (splitDigits input).1, c.isDigit = true := by
  fun_induction splitDigits input with
  | case1 c rest hdigit digits tail heq ih =>
      rw [heq] at ih
      refine ⟨?_, List.forall_mem_cons.2 ⟨hdigit, ih.2⟩⟩
      rw [symbols_cons, List.cons_append, ← ih.1]
  | case2 c rest hdigit => exact ⟨rfl, by simp⟩
  | case3 rest _ => exact ⟨rfl, by simp⟩

/-- Digits are split off as a whole, and there is at least one. -/
theorem isDigits_splitDigits {input : List Symbol} (h : (splitDigits input).1.isEmpty = false) :
    IsDigits (splitDigits input).1 :=
  ⟨by simpa using h, (splitDigits_spec input).2⟩

theorem fractionText_of_read {input rest : List Symbol} {digits : Option (List Char)}
    (h : readFraction? input = some (digits, rest)) :
    ∃ cs, input = symbols cs ++ rest ∧ FractionText cs digits := by
  unfold readFraction? at h
  split at h
  · rename_i more
    dsimp only at h
    split at h
    · cases h
    · rename_i hempty
      cases h
      refine ⟨'.' :: (splitDigits more).1, ?_, .some (isDigits_splitDigits (by simpa using hempty))⟩
      rw [symbols_cons, List.cons_append, ← (splitDigits_spec more).1]
  · cases h
    exact ⟨[], rfl, .none⟩

theorem readFraction_of_text {cs : List Char} {digits : Option (List Char)} {rest : List Symbol}
    (h : FractionText cs digits) (hdigit : NoDigit rest) (hpoint : ∀ tail, rest ≠ .char '.' :: tail) :
    readFraction? (symbols cs ++ rest) = some (digits, rest) := by
  cases h with
  | none =>
      show readFraction? rest = _
      unfold readFraction?
      split
      · exact absurd rfl (hpoint _)
      · rfl
  | some h =>
      rw [symbols_cons, List.cons_append, readFraction?]
      simp only [splitDigits_append h.2 hdigit]
      rw [if_neg (by simpa using h.1)]

theorem splitExponentSign_cases (input : List Symbol) :
    (∃ tail, input = .char '-' :: tail ∧ splitExponentSign input = (true, tail)) ∨
      (∃ tail, input = .char '+' :: tail ∧ splitExponentSign input = (false, tail)) ∨
        splitExponentSign input = (false, input) := by
  unfold splitExponentSign
  split
  · exact .inl ⟨_, rfl, rfl⟩
  · exact .inr (.inl ⟨_, rfl, rfl⟩)
  · exact .inr (.inr rfl)

/-- A digit is no sign. -/
theorem splitExponentSign_digits {digits : List Char} (h : IsDigits digits) (rest : List Symbol) :
    splitExponentSign (symbols digits ++ rest) = (false, symbols digits ++ rest) := by
  obtain ⟨hne, hall⟩ := h
  cases digits with
  | nil => exact absurd rfl hne
  | cons c digits =>
      have hc : c.isDigit = true := hall c (List.mem_cons_self ..)
      rcases splitExponentSign_cases (symbols (c :: digits) ++ rest) with ⟨_, heq, _⟩ | ⟨_, heq, _⟩ | heq
      · cases heq
        cases hc
      · cases heq
        cases hc
      · exact heq

theorem exponentText_of_read {input rest : List Symbol} {power : Option Int}
    (h : readExponent? input = some (power, rest)) :
    ∃ cs, input = symbols cs ++ rest ∧ ExponentText cs power := by
  unfold readExponent? at h
  split at h
  · rename_i c more
    split at h
    · rename_i hmark
      have hmark : IsMark c := by simpa [IsMark] using hmark
      dsimp only at h
      split at h
      · cases h
      · rename_i hempty
        have hdigits := isDigits_splitDigits (Bool.eq_false_iff.2 hempty)
        have hsplit := (splitDigits_spec (splitExponentSign more).2).1
        cases h
        -- What stands between the mark and the digits is one of the two signs, or nothing.
        rcases splitExponentSign_cases more with ⟨tail, rfl, hsign⟩ | ⟨tail, rfl, hsign⟩ | hsign
        · rw [hsign] at hdigits hsplit ⊢
          exact ⟨_, congrArg (.char c :: .char '-' :: ·) hsplit, .negative hmark hdigits⟩
        · rw [hsign] at hdigits hsplit ⊢
          exact ⟨_, congrArg (.char c :: .char '+' :: ·) hsplit, .positive hmark hdigits⟩
        · rw [hsign] at hdigits hsplit ⊢
          exact ⟨_, congrArg (.char c :: ·) hsplit, .unsigned hmark hdigits⟩
    · cases h
      exact ⟨[], rfl, .none⟩
  · cases h
    exact ⟨[], rfl, .none⟩

/-- Behind the mark stand the sign and the digits. -/
theorem readExponent_mark {mark : Char} (hmark : IsMark mark) {body rest : List Symbol} {negative : Bool}
    {digits : List Char} (hsign : splitExponentSign body = (negative, symbols digits ++ rest)) (h : IsDigits digits)
    (hdigit : NoDigit rest) :
    readExponent? (.char mark :: body) =
      some (some (if negative then -(digitsValue 0 digits : Int) else digitsValue 0 digits), rest) := by
  have hmark' : (decide (mark = 'e') || decide (mark = 'E')) = true := by simpa [IsMark] using hmark
  rw [readExponent?, if_pos hmark']
  simp only [hsign, splitDigits_append h.2 hdigit]
  rw [if_neg (by simpa using h.1)]

theorem readExponent_of_text {cs : List Char} {power : Option Int} {rest : List Symbol}
    (h : ExponentText cs power) (hdigit : NoDigit rest) (hend : ∀ c tail, rest = .char c :: tail → ¬ IsMark c) :
    readExponent? (symbols cs ++ rest) = some (power, rest) := by
  cases h with
  | none =>
      show readExponent? rest = _
      unfold readExponent?
      split
      · rename_i c tail
        rw [if_neg (by simpa [IsMark] using hend c tail rfl)]
      · rfl
  | unsigned hmark h => exact readExponent_mark hmark (splitExponentSign_digits h rest) h hdigit
  | @positive mark digits hmark h =>
      have hsign : splitExponentSign (.char '+' :: (symbols digits ++ rest)) = (false, symbols digits ++ rest) := rfl
      exact readExponent_mark hmark hsign h hdigit
  | @negative mark digits hmark h =>
      have hsign : splitExponentSign (.char '-' :: (symbols digits ++ rest)) = (true, symbols digits ++ rest) := rfl
      exact readExponent_mark hmark hsign h hdigit

theorem splitMinus_spec (input : List Symbol) :
    input = symbols (if (splitMinus input).1 then ['-'] else []) ++ (splitMinus input).2 := by
  unfold splitMinus
  split <;> rfl

theorem splitMinus_digits (negative : Bool) {digits : List Char} (h : IsDigits digits) (rest : List Symbol) :
    splitMinus (symbols (if negative then ['-'] else []) ++ (symbols digits ++ rest)) =
      (negative, symbols digits ++ rest) := by
  cases negative with
  | true => rfl
  | false =>
      obtain ⟨hne, hall⟩ := h
      cases digits with
      | nil => exact absurd rfl hne
      | cons c digits =>
          have hc : c.isDigit = true := hall c (List.mem_cons_self ..)
          show splitMinus (.char c :: (symbols digits ++ rest)) = _
          rw [splitMinus]
          · rfl
          · intro tail heq
            cases heq
            cases hc

/-- The guard of the reader: there are digits, and no zero leads others. -/
theorem wholeDigits_iff {whole : List Char} :
    (!whole.isEmpty && (whole.length == 1 || whole.head? != some '0')) = true ↔
      whole ≠ [] ∧ (whole.length = 1 ∨ whole.head? ≠ some '0') := by
  simp

theorem of_guard {p : Prop} [Decidable p] {u : Unit} (h : guard p = some u) : p := by
  apply Decidable.byContradiction
  intro hp
  have hnone : (guard p : Option Unit) = none := if_neg hp
  rw [hnone] at h
  cases h

theorem numberText_of_read {input rest : List Symbol} {n : Number} (h : readNumber? input = some (n, rest)) :
    ∃ cs, input = symbols cs ++ rest ∧ NumberText cs n := by
  rw [readNumber_steps] at h
  obtain ⟨_, hguard, h⟩ := Option.bind_eq_some_iff.1 h
  obtain ⟨fraction, hfraction, h⟩ := Option.bind_eq_some_iff.1 h
  obtain ⟨exponent, hexponent, h⟩ := Option.bind_eq_some_iff.1 h
  cases h
  obtain ⟨hne, hlead⟩ := wholeDigits_iff.1 (of_guard hguard)
  obtain ⟨fs, hfs, hfractionText⟩ := fractionText_of_read hfraction
  obtain ⟨es, hes, hexponentText⟩ := exponentText_of_read hexponent
  have hminus := splitMinus_spec input
  obtain ⟨hwhole, hall⟩ := splitDigits_spec (splitMinus input).2
  refine ⟨_, ?_, .intro ⟨hne, hall⟩ hlead hfractionText hexponentText⟩
  rw [symbols_append, symbols_append, symbols_append, List.append_assoc, List.append_assoc, List.append_assoc, ← hes,
    ← hfs, ← hwhole, ← hminus]

theorem noDigit_exponentText {cs : List Char} {power : Option Int} {rest : List Symbol} (h : ExponentText cs power)
    (hrest : NoDigit rest) : NoDigit (symbols cs ++ rest) := by
  have hmark : ∀ mark tail, IsMark mark → NoDigit (.char mark :: tail) := by
    intro mark tail hmark c tail' heq
    cases heq
    rcases hmark with rfl | rfl <;> rfl
  cases h with
  | none => exact hrest
  | unsigned h | positive h | negative h => exact hmark _ _ h

theorem noDigit_fractionText {cs : List Char} {digits : Option (List Char)} {rest : List Symbol}
    (h : FractionText cs digits) (hrest : NoDigit rest) : NoDigit (symbols cs ++ rest) := by
  cases h with
  | none => exact hrest
  | some h =>
      intro c tail heq
      cases heq
      rfl

theorem noPoint_exponentText {cs : List Char} {power : Option Int} {rest : List Symbol} (h : ExponentText cs power)
    (hrest : ∀ tail, rest ≠ .char '.' :: tail) (tail : List Symbol) : symbols cs ++ rest ≠ .char '.' :: tail := by
  have hmark : ∀ mark more, IsMark mark → Symbol.char mark :: more ≠ .char '.' :: tail := by
    intro mark more hmark heq
    cases heq
    rcases hmark with h | h <;> cases h
  cases h with
  | none => exact hrest tail
  | unsigned h | positive h | negative h => exact hmark _ _ h

/-- A numeral is read up to where nothing continues it. -/
theorem readNumber_of_text {cs : List Char} {n : Number} {rest : List Symbol} (h : NumberText cs n)
    (hrest : EndsNumeral rest) : readNumber? (symbols cs ++ rest) = some (n, rest) := by
  cases h with
  | @intro negative whole fraction exponent digits power hwhole hlead hfraction hexponent =>
      have htail : NoDigit (symbols fraction ++ (symbols exponent ++ rest)) :=
        noDigit_fractionText hfraction (noDigit_exponentText hexponent hrest.digit)
      have hguard := wholeDigits_iff.2 ⟨hwhole.1, hlead⟩
      have hreadFraction := readFraction_of_text hfraction (noDigit_exponentText hexponent hrest.digit)
        (noPoint_exponentText hexponent hrest.point)
      have hreadExponent := readExponent_of_text hexponent hrest.digit hrest.mark
      rw [symbols_append, symbols_append, symbols_append, List.append_assoc, List.append_assoc, List.append_assoc,
        readNumber_steps, splitMinus_digits negative hwhole]
      show (guard _ >>= _) = _
      rw [splitDigits_append hwhole.2 htail, hguard]
      show (readFraction? _).bind _ = _
      rw [hreadFraction]
      show (readExponent? _).bind _ = _
      rw [hreadExponent]
      rfl

/-! ## Strings -/

/-- The text of a piece of a string: a symbol that is neither a quote nor a backslash, or an escape. -/
inductive PieceText : List Symbol → Piece → Prop
  | plain {s : Symbol} (hquote : s ≠ .char '"') (hbackslash : s ≠ .char '\\') : PieceText [s] (.plain s)
  | short {c : Char} {unit : UInt16} (h : shortEscape? c = some unit) :
      PieceText [.char '\\', .char c] (.escape unit)
  | unicode {a b c d : Char} {unit : UInt16} (h : hexUnit? a b c d = some unit) :
      PieceText [.char '\\', .char 'u', .char a, .char b, .char c, .char d] (.escape unit)

/-- The text between the quotes of a string. -/
inductive PiecesText : List Symbol → List Piece → Prop
  | nil : PiecesText [] []
  | cons {front text : List Symbol} {piece : Piece} {pieces : List Piece} (hpiece : PieceText front piece)
      (h : PiecesText text pieces) : PiecesText (front ++ text) (piece :: pieces)

/-- A piece is read in front of what is read behind it. -/
theorem readPieces_piece {front : List Symbol} {piece : Piece} (h : PieceText front piece) (rest : List Symbol) :
    readPieces? (front ++ rest) = (readPieces? rest).map (consPiece piece) := by
  cases h with
  | plain hquote hbackslash => exact readPieces_plain hquote hbackslash rest
  | short h => exact readPieces_short h rest
  | unicode h => exact readPieces_unicode h rest

theorem readPieces_of_text {text : List Symbol} {pieces : List Piece} (h : PiecesText text pieces)
    (rest : List Symbol) : readPieces? (text ++ .char '"' :: rest) = some (pieces, rest) := by
  induction h with
  | nil => rfl
  | cons hpiece _ ih =>
      rw [List.append_assoc, readPieces_piece hpiece, ih]
      rfl

/-- A text of pieces is one of a piece in front of others. -/
theorem piecesText_of_front {front more rest : List Symbol} {piece : Piece} {pieces : List Piece}
    (hpiece : PieceText front piece)
    (ih : ∀ {others : List Piece}, readPieces? more = some (others, rest) →
      ∃ text, more = text ++ .char '"' :: rest ∧ PiecesText text others)
    (h : (readPieces? more).map (consPiece piece) = some (pieces, rest)) :
    ∃ text, front ++ more = text ++ .char '"' :: rest ∧ PiecesText text pieces := by
  obtain ⟨⟨others, tail⟩, hothers, heq⟩ := Option.map_eq_some_iff.1 h
  cases heq
  obtain ⟨text, rfl, htext⟩ := ih hothers
  exact ⟨front ++ text, (List.append_assoc ..).symm, .cons hpiece htext⟩

theorem piecesText_of_read {input rest : List Symbol} {pieces : List Piece}
    (h : readPieces? input = some (pieces, rest)) :
    ∃ text, input = text ++ .char '"' :: rest ∧ PiecesText text pieces := by
  fun_induction readPieces? input generalizing pieces with
  | case1 => cases h
  | case2 tail =>
      cases h
      exact ⟨[], rfl, .nil⟩
  | case3 a b c d more ih =>
      obtain ⟨unit, hunit, h⟩ := Option.bind_eq_some_iff.1 h
      refine piecesText_of_front (.unicode hunit) ih ?_
      rw [← h]
      cases readPieces? more <;> rfl
  | case4 c more hother ih =>
      obtain ⟨unit, hunit, h⟩ := Option.bind_eq_some_iff.1 h
      refine piecesText_of_front (.short hunit) ih ?_
      rw [← h]
      cases readPieces? more <;> rfl
  | case5 => cases h
  | case6 s more hquote _ _ hbackslash ih =>
      refine piecesText_of_front (.plain hquote hbackslash) ih ?_
      rw [← h]
      cases readPieces? more <;> rfl

end RecordTables.Json
