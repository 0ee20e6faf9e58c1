import RecordTables.Engine.Token
import RecordTables.Sql.Statement
import RecordTables.Proofs.Number.Digits

/-!
# What written texts read as

`Token.ofChars` reads all of a text as tokens; unlike a statement that is executed, the text does not end at a NUL.
Each piece that a statement is written from reads as the tokens meant, whatever follows it, as long as what follows
cannot extend the last of them.  A quoted name may be any text at all.
-/

namespace RecordTables.Engine.Token

open RecordTables.Sql (Comparison commaList quote doubleQuotes unquote unquote_doubleQuotes)

/-- The tokens of a text, without their spelling and place. -/
def ofChars (input : List Char) : List Token := (scanFrom input.length 0 input).map Located.token

/-- Neither the place of a text nor fuel beyond its length changes its tokens. -/
theorem map_token_scanFrom {fuel : Nat} : ∀ {fuel' offset offset' : Nat} {input : List Char},
    input.length ≤ fuel → input.length ≤ fuel' →
    (scanFrom fuel offset input).map Located.token = (scanFrom fuel' offset' input).map Located.token := by
  induction fuel with
  | zero =>
      intro fuel' offset offset' input hfuel _
      obtain rfl : input = [] := List.eq_nil_of_length_eq_zero (by omega)
      cases fuel' <;> rfl
  | succ fuel ih =>
      intro fuel' offset offset' input hfuel hfuel'
      cases input with
      | nil => cases fuel' <;> rfl
      | cons c rest =>
          cases fuel' with
          | zero => simp at hfuel'
          | succ fuel' =>
              simp only [List.length_cons] at hfuel hfuel'
              by_cases hblank : isBlank c = true
              · simp only [scanFrom, hblank, if_true]
                exact ih (by omega) (by omega)
              -- A token takes at least one character, so the fuel is enough for what is behind it.
              · simp only [scanFrom, hblank, Bool.false_eq_true, if_false, List.map_cons, List.cons.injEq,
                  true_and]
                apply ih <;> simp only [List.length_drop, List.length_take, List.length_cons] <;> omega

/-- The name of a quoted name. -/
def name? : Token → Option String
  | .name n => some n
  | _ => none

def isMark : Token → Bool
  | .mark _ => true
  | _ => false

@[simp]
theorem ofChars_nil : ofChars [] = [] := rfl

theorem ofChars_blank {c : Char} (hblank : isBlank c = true) (rest : List Char) :
    ofChars (c :: rest) = ofChars rest := by
  simp only [ofChars, List.length_cons, scanFrom, hblank, if_true]
  exact map_token_scanFrom (Nat.le_refl _) (Nat.le_refl _)

@[simp]
theorem ofChars_space (rest : List Char) : ofChars (' ' :: rest) = ofChars rest :=
  ofChars_blank (by decide) rest

/-- A token in front of a text is read first, and the rest of the text after it. -/
theorem ofChars_front {c : Char} {tail rest : List Char} {token : Token} (hblank : isBlank c = false)
    (hfront : front (c :: tail ++ rest) = (token, tail.length + 1)) :
    ofChars (c :: tail ++ rest) = token :: ofChars rest := by
  have htake : (c :: tail ++ rest).take (max (tail.length + 1) 1) = c :: tail := by
    rw [Nat.max_eq_left (by omega), show tail.length + 1 = (c :: tail).length from rfl, List.take_left]
  have hdrop : (c :: tail ++ rest).drop (c :: tail).length = rest := List.drop_left
  simp only [ofChars]
  rw [show (c :: tail ++ rest).length = (tail ++ rest).length + 1 from rfl]
  rw [List.cons_append] at hfront htake hdrop ⊢
  simp only [scanFrom, hblank, Bool.false_eq_true, if_false, hfront, htake, hdrop, List.map_cons,
    List.cons.injEq, true_and]
  exact map_token_scanFrom (by simp) (Nat.le_refl _)

/-- What extends no token: nothing at all, a blank, a comma or a closing parenthesis. -/
def Ends (rest : List Char) : Prop := ∀ c, rest.head? = some c → c = ' ' ∨ c = ',' ∨ c = ')'

theorem ends_nil : Ends [] := fun _ h => by simp at h

theorem ends_space (rest : List Char) : Ends (' ' :: rest) := fun _ h => by
  simp only [List.head?_cons, Option.some.injEq] at h
  exact .inl h.symm

theorem ends_comma (rest : List Char) : Ends (',' :: rest) := fun _ h => by
  simp only [List.head?_cons, Option.some.injEq] at h
  exact .inr (.inl h.symm)

theorem ends_close (rest : List Char) : Ends (')' :: rest) := fun _ h => by
  simp only [List.head?_cons, Option.some.injEq] at h
  exact .inr (.inr h.symm)

/-- A class of characters that holds none of the three that end a token. -/
theorem Ends.not_head {rest : List Char} (h : Ends rest) {p : Char → Bool}
    (hp : p ' ' = false ∧ p ',' = false ∧ p ')' = false) : ∀ c, rest.head? = some c → p c = false := by
  intro c hc
  rcases h c hc with rfl | rfl | rfl
  · exact hp.1
  · exact hp.2.1
  · exact hp.2.2

/-- What satisfies a condition up to an item that does not is taken from the front as a whole. -/
theorem takeWhile_append_of_not_head {α : Type} {p : α → Bool} {word rest : List α} (hword : ∀ c ∈ word, p c = true)
    (hrest : ∀ c, rest.head? = some c → p c = false) : (word ++ rest).takeWhile p = word := by
  rw [List.takeWhile_append_of_pos hword]
  cases rest with
  | nil => simp
  | cons c tail =>
      have hc : p c = false := hrest c rfl
      simp [hc]

/-- A text without a NUL is executed as what it reads as. -/
theorem map_token_scan {s : String} (hnul : '\x00' ∉ s.toList) : (scan s).map Located.token = ofChars s.toList := by
  have hall : (s.toList ++ []).takeWhile (· != '\x00') = s.toList := by
    apply takeWhile_append_of_not_head
    · intro c hc
      simp only [bne_iff_ne, ne_eq]
      exact fun e => hnul (e ▸ hc)
    · simp
  rw [List.append_nil] at hall
  simp only [scan, hall, ofChars]

/-- A character of a class is none of those outside the class. -/
theorem beq_eq_false_of_class {p : Char → Bool} {c d : Char} (hc : p c = true) (hd : p d = false) :
    (c == d) = false := by
  apply beq_eq_false_iff_ne.2
  rintro rfl
  rw [hc] at hd
  cases hd

theorem isBlank_eq_false_of_class {p : Char → Bool} {c : Char} (hc : p c = true)
    (hp : p ' ' = false ∧ p '\t' = false ∧ p '\n' = false ∧ p '\r' = false ∧ p '\x0c' = false) :
    isBlank c = false := by
  obtain ⟨hspace, htab, hline, hreturn, hfeed⟩ := hp
  simp only [isBlank, beq_eq_false_of_class hc hspace, beq_eq_false_of_class hc htab, beq_eq_false_of_class hc hline,
    beq_eq_false_of_class hc hreturn, beq_eq_false_of_class hc hfeed, Bool.or_self]

/-! ## Words, signs and marks -/

/-- A text that reads as one word. -/
def spellsWord (w : String) : Bool :=
  match w.toList with
  | [] => false
  | c :: tail => startsWord c && tail.all continuesWord

theorem ofChars_word {w : String} (hword : spellsWord w = true) {rest : List Char} (hrest : Ends rest) :
    ofChars (w.toList ++ rest) = .word w :: ofChars rest := by
  obtain ⟨cs, rfl⟩ : ∃ cs, w = String.ofList cs := ⟨w.toList, by simp⟩
  simp only [String.toList_ofList, spellsWord] at hword ⊢
  cases cs with
  | nil => simp at hword
  | cons c tail =>
      simp only [Bool.and_eq_true, List.all_eq_true] at hword
      obtain ⟨hstart, htail⟩ := hword
      have hcontinues : ∀ d ∈ c :: tail, continuesWord d = true := by
        intro d hd
        rcases List.mem_cons.1 hd with rfl | hd
        · simp [continuesWord, hstart]
        · exact htail d hd
      have hspan : (c :: tail ++ rest).takeWhile continuesWord = c :: tail :=
        takeWhile_append_of_not_head hcontinues (hrest.not_head (by decide))
      have hne : ∀ d : Char, startsWord d = false → (c == d) = false := fun _ => beq_eq_false_of_class hstart
      apply ofChars_front (isBlank_eq_false_of_class hstart (by decide))
      -- What starts a word starts nothing else, so the first three branches are out.
      rw [List.cons_append] at hspan ⊢
      simp only [front, hne '"' (by decide), hne '\'' (by decide), hne '?' (by decide), Bool.false_eq_true,
        if_false, hstart, if_true, hspan]
      simp

/-- A word and the blank behind it. -/
theorem ofChars_keyword {w : String} (hword : spellsWord w = true) (rest : List Char) :
    ofChars (w.toList ++ ' ' :: rest) = .word w :: ofChars rest := by
  rw [ofChars_word hword (ends_space rest), ofChars_space]

/-- A parenthesis, a comma or a star is a sign of its own, whatever follows. -/
theorem ofChars_sign {c : Char} (hc : c ∈ ['(', ')', ',', '*']) (rest : List Char) :
    ofChars (c :: rest) = .sign (String.singleton c) :: ofChars rest := by
  simp only [List.mem_cons, List.not_mem_nil, or_false] at hc
  have hword : startsWord c = false := by
    rcases hc with rfl | rfl | rfl | rfl <;> decide
  have hdigit : c.isDigit = false := by
    rcases hc with rfl | rfl | rfl | rfl <;> decide
  rcases hc with rfl | rfl | rfl | rfl
  all_goals
    refine @ofChars_front _ [] rest _ (by decide) ?_
    cases rest <;> simp [front, hword, hdigit, sign?, longSigns, shortSigns, ← String.toList_inj]

theorem ofChars_open (rest : List Char) : ofChars ('(' :: rest) = .sign "(" :: ofChars rest :=
  ofChars_sign (by decide) rest

theorem ofChars_close (rest : List Char) : ofChars (')' :: rest) = .sign ")" :: ofChars rest :=
  ofChars_sign (by decide) rest

theorem ofChars_comma (rest : List Char) : ofChars (',' :: rest) = .sign "," :: ofChars rest :=
  ofChars_sign (by decide) rest

theorem ofChars_star (rest : List Char) : ofChars ('*' :: rest) = .sign "*" :: ofChars rest :=
  ofChars_sign (by decide) rest

/-- The token of a comparison. -/
def ofComparison : Comparison → Token
  | .like => .word "LIKE"
  | comparison => .sign comparison.sign

theorem ofChars_comparison (comparison : Comparison) (rest : List Char) :
    ofChars (comparison.sign.toList ++ ' ' :: rest) = ofComparison comparison :: ofChars rest := by
  cases comparison with
  | like => exact ofChars_keyword (by decide) rest
  | _ =>
      rw [← ofChars_space rest]
      first
        | exact @ofChars_front _ [] (' ' :: rest) _ (by decide) rfl
        | exact @ofChars_front _ [_] (' ' :: rest) _ (by decide) rfl

/-- A mark without a number. -/
theorem ofChars_mark {rest : List Char} (hrest : Ends rest) :
    ofChars ('?' :: rest) = .mark none :: ofChars rest := by
  have hdigits : rest.takeWhile Char.isDigit = [] :=
    @takeWhile_append_of_not_head _ Char.isDigit [] rest (by simp) (hrest.not_head (by decide))
  refine @ofChars_front _ [] rest _ (by decide) ?_
  simp [front, hdigits]

/-! ## Names and numbers -/

/-- A quoted name reads as the name, whatever characters it has, unless another quote follows. -/
theorem ofChars_quote (name : String) {rest : List Char} (hrest : Ends rest) :
    ofChars ((quote name).toList ++ rest) = .name name :: ofChars rest := by
  -- A second quote behind the closing one would be read as part of the name.
  have hquote : rest.head? ≠ some '"' := fun h => by
    rcases hrest _ h with h | h | h <;> exact absurd h (by decide)
  have hunquote := unquote_doubleQuotes name.toList rest hquote
  have hchars : (quote name).toList ++ rest = '"' :: (doubleQuotes name.toList ++ ['"']) ++ rest := by
    simp [quote]
  rw [hchars]
  apply ofChars_front (by decide)
  rw [List.cons_append, List.append_assoc, List.singleton_append]
  simp only [front, beq_self_eq_true, if_true, hunquote, String.ofList_toList, Prod.mk.injEq, true_and,
    List.length_cons, List.length_append, List.length_nil]
  omega

/-- A digit starts no word. -/
theorem not_startsWord_of_isDigit {c : Char} (hc : c.isDigit = true) : startsWord c = false := by
  simp only [Char.isDigit, Bool.and_eq_true, decide_eq_true_eq, UInt32.le_iff_toNat_le] at hc
  have hbounds : 48 ≤ c.toNat ∧ c.toNat ≤ 57 := hc
  have hupper : c.isUpper = false := by
    apply decide_eq_false
    rintro ⟨hlow, _⟩
    have hletter : 65 ≤ c.toNat := UInt32.le_iff_toNat_le.1 hlow
    omega
  have hlower : c.isLower = false := by
    have hletter : ¬ 'a'.val ≤ c.val := by
      intro hlow
      have hlow : 97 ≤ c.toNat := UInt32.le_iff_toNat_le.1 hlow
      omega
    show (decide ('a'.val ≤ c.val) && decide (c.val ≤ 'z'.val)) = false
    rw [decide_eq_false hletter, Bool.false_and]
  have hne : (c == '_') = false := by
    apply beq_eq_false_iff_ne.2
    rintro rfl
    exact absurd hbounds (by decide)
  have hsmall : decide (0x80 ≤ c.toNat) = false := decide_eq_false (by omega)
  show ((c.isUpper || c.isLower) || c == '_' || decide (0x80 ≤ c.toNat)) = false
  rw [hupper, hlower, hne, hsmall]
  rfl

/-- Digits with neither a point nor an exponent behind them are an integer. -/
theorem numeral_digits {digits rest : List Char} (hdigits : ∀ c ∈ digits, c.isDigit = true)
    (hrest : Ends rest) : numeral (digits ++ rest) = (.integer (digitsValue 0 digits), digits.length) := by
  have hspan : (digits ++ rest).takeWhile Char.isDigit = digits :=
    takeWhile_append_of_not_head hdigits (hrest.not_head (by decide))
  have hdrop : (digits ++ rest).drop digits.length = rest := List.drop_left
  simp only [numeral, hspan, hdrop]
  cases rest with
  | nil => simp
  | cons c tail => rcases hrest c rfl with rfl | rfl | rfl <;> simp

/-- A number in decimal digits reads as the number. -/
theorem ofChars_integer (n : Nat) {rest : List Char} (hrest : Ends rest) :
    ofChars ((toString n).toList ++ rest) = .integer n :: ofChars rest := by
  have hnumeral := numeral_digits (all_isDigit_toDigits n) hrest
  rw [digitsValue_toDigits] at hnumeral
  rw [Nat.toString_eq_ofList_toDigits, String.toList_ofList]
  cases hdigits : Nat.toDigits 10 n with
  | nil => exact absurd hdigits Nat.toDigits_ne_nil
  | cons c tail =>
      have hc : c.isDigit = true := all_isDigit_toDigits n c (by simp [hdigits])
      have hne : ∀ d : Char, d.isDigit = false → (c == d) = false := fun _ => beq_eq_false_of_class hc
      apply ofChars_front (isBlank_eq_false_of_class hc (by decide))
      rw [hdigits, List.cons_append] at hnumeral
      simp only [List.cons_append, front, hne '"' (by decide), hne '\'' (by decide), hne '?' (by decide),
        Bool.false_eq_true, if_false, not_startsWord_of_isDigit hc, hc, Bool.true_or, if_true, hnumeral,
        List.length_cons]

/-! ## Lists -/

/-- Parts with a comma between any two of them. -/
def commas (parts : List (List Token)) : List Token := [.sign ","].intercalate parts

/-- A list of pieces reads as what the pieces read as, with commas between. -/
theorem ofChars_commaList {α : Type} {text : α → String} {parts : α → List Token}
    (hpiece : ∀ x rest, Ends rest → ofChars ((text x).toList ++ rest) = parts x ++ ofChars rest)
    (xs : List α) {rest : List Char} (hrest : Ends rest) :
    ofChars ((commaList (xs.map text)).toList ++ rest) = commas (xs.map parts) ++ ofChars rest := by
  induction xs with
  | nil => rfl
  | cons x xs ih =>
      cases xs with
      | nil => simpa [commaList, commas] using hpiece x rest hrest
      | cons y ys =>
          have hsplit : (commaList ((x :: y :: ys).map text)).toList ++ rest =
              (text x).toList ++ ',' :: ' ' :: ((commaList ((y :: ys).map text)).toList ++ rest) := by
            simp [commaList, String.toList_intercalate]
          rw [hsplit, hpiece x _ (ends_comma _), ofChars_comma, ofChars_space, ih]
          simp [commas]

end RecordTables.Engine.Token
