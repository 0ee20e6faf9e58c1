import RecordTables.Proofs.Sql.Command
import RecordTables.Proofs.Sql.Unbroken

/-!
# Texts that go on

A text that is written from words, names, signs and marks keeps its tokens when more follows behind a blank, and each
token keeps its place.  The same holds in front of a NUL; so a text of such tokens that is cut off at a NUL, as a
statement is, ends within a name, and what is left of the name is no token.
-/

namespace RecordTables.Engine.Token

open RecordTables.Sql (unquote)

/-- The tokens of written texts without numbers. -/
def keeps : Token → Bool
  | .word _ => true
  | .name _ => true
  | .mark _ => true
  | .sign _ => true
  | _ => false

/-- A blank or a NUL, and what follows it. -/
def Breaks (more : List Char) : Prop := ∃ c rest, more = c :: rest ∧ (c = ' ' ∨ c = '\x00')

theorem Breaks.takeWhile_append {more : List Char} (h : Breaks more) {p : Char → Bool}
    (hp : p ' ' = false ∧ p '\x00' = false) (input : List Char) :
    (input ++ more).takeWhile p = input.takeWhile p := by
  have hmore : more.takeWhile p = [] := by
    obtain ⟨c, rest, rfl, rfl | rfl⟩ := h
    · rw [List.takeWhile_cons_of_neg (by rw [hp.1]; decide)]
    · rw [List.takeWhile_cons_of_neg (by rw [hp.2]; decide)]
  rw [List.takeWhile_append, hmore, List.append_nil]
  split
  · rename_i hall
    exact ((List.takeWhile_prefix p).eq_of_length hall).symm
  · rfl

/-- What is closed stays closed, and more of the text is left behind it. -/
theorem unquote_append {delimiter : Char} {input more inner tail : List Char} (hmore : more.head? ≠ some delimiter)
    (h : unquote delimiter input = some (inner, tail)) :
    unquote delimiter (input ++ more) = some (inner, tail ++ more) ∧ tail.length ≤ input.length := by
  induction input using RecordTables.Sql.unquote.induct delimiter generalizing inner tail with
  | case1 => cases h
  | case2 =>
      rw [unquote, if_pos rfl] at h
      cases h
      cases more with
      | nil => exact ⟨by simp [unquote], Nat.zero_le _⟩
      | cons d more =>
          have hd : d ≠ delimiter := fun e => hmore (by simp [e])
          exact ⟨by simp [unquote, hd], Nat.zero_le _⟩
  | case3 c hc =>
      rw [unquote, if_neg hc] at h
      cases h
  | case4 rest ih =>
      simp only [unquote, if_true, Option.map_eq_some_iff, Prod.exists, Prod.mk.injEq] at h
      obtain ⟨inner', tail', hrest, rfl, rfl⟩ := h
      obtain ⟨happend, hle⟩ := ih hrest
      exact ⟨by simp [unquote, happend], by simp only [List.length_cons]; omega⟩
  | case5 d rest hd =>
      simp only [unquote, if_true, if_neg hd, Option.some.injEq, Prod.mk.injEq] at h
      obtain ⟨rfl, rfl⟩ := h
      exact ⟨by simp [unquote, hd], by simp⟩
  | case6 c d rest hc ih =>
      simp only [unquote, if_neg hc, Option.map_eq_some_iff, Prod.exists, Prod.mk.injEq] at h
      obtain ⟨inner', tail', hrest, rfl, rfl⟩ := h
      obtain ⟨happend, hle⟩ := ih hrest
      exact ⟨by simpa [unquote, hc] using happend, by simp only [List.length_cons] at hle ⊢; omega⟩

theorem keeps_numeral (input : List Char) : keeps (numeral input).1 = false := by
  have hboth : ∀ (p : Prop) [Decidable p] (n k j : Nat) (d : Numeral),
      keeps (if p then (Token.integer n, k) else (.decimal d, j)).1 = false := by
    intro p _ n k j d
    split <;> rfl
  exact hboth _ _ _ _ _

/-- No sign of two characters ends in a blank or a NUL. -/
theorem sign?_append {c : Char} {rest more : List Char} (hmore : Breaks more) :
    sign? (c :: (rest ++ more)) = sign? (c :: rest) := by
  cases rest with
  | cons d rest => rfl
  | nil =>
      obtain ⟨d, tail, rfl, rfl | rfl⟩ := hmore <;> simp [sign?, longSigns, ← String.toList_inj]

theorem length_of_sign? {c : Char} {rest : List Char} {found : Token × Nat} (h : sign? (c :: rest) = some found) :
    found.2 ≤ (c :: rest).length := by
  unfold sign? at h
  dsimp only at h
  split at h
  · rename_i hlong
    cases h
    cases rest with
    | nil => simp [longSigns, ← String.toList_inj] at hlong
    | cons d rest => simp
  · split at h
    · cases h
      simp
    · cases h

/-- A token that is none of the excluded kinds, or becomes none of them, stays as it is. -/
theorem front_append {c : Char} {rest more : List Char} (hmore : Breaks more)
    (hlegal : (front (c :: rest)).1 ≠ .illegal)
    (hkeeps : keeps (front (c :: rest)).1 = true ∨ keeps (front (c :: rest ++ more)).1 = true) :
    front (c :: rest ++ more) = front (c :: rest) ∧ (front (c :: rest)).2 ≤ (c :: rest).length := by
  have hquote : more.head? ≠ some '"' := by
    obtain ⟨d, tail, rfl, rfl | rfl⟩ := hmore <;> simp
  have hdigits := hmore.takeWhile_append (p := Char.isDigit) (by decide) rest
  have hword := hmore.takeWhile_append (p := continuesWord) (by decide +kernel) (c :: rest)
  have hhead : ((rest ++ more).head?.map Char.isDigit).getD false = (rest.head?.map Char.isDigit).getD false := by
    cases rest with
    | nil => obtain ⟨d, tail, rfl, rfl | rfl⟩ := hmore <;> rfl
    | cons d rest => rfl
  rw [List.cons_append] at hkeeps hword ⊢
  unfold front at hlegal hkeeps ⊢
  dsimp only at hlegal hkeeps ⊢
  by_cases hname : (c == '"') = true
  · simp only [hname, if_true] at hlegal ⊢
    cases hclosed : unquote '"' rest with
    | none => simp [hclosed] at hlegal
    | some p =>
        obtain ⟨happend, hle⟩ := unquote_append hquote hclosed
        simp only [happend, List.length_cons, List.length_append, Prod.mk.injEq, true_and]
        omega
  simp only [hname, Bool.false_eq_true, if_false] at hlegal hkeeps ⊢
  by_cases htext : (c == '\'') = true
  · simp only [htext, if_true] at hkeeps
    rcases hkeeps with hkeeps | hkeeps
    · split at hkeeps <;> cases hkeeps
    · split at hkeeps <;> cases hkeeps
  simp only [htext, Bool.false_eq_true, if_false] at hlegal hkeeps ⊢
  by_cases hmark : (c == '?') = true
  · have hlength := (List.takeWhile_prefix Char.isDigit (l := rest)).length_le
    simp only [hmark, if_true, hdigits, List.length_cons, true_and]
    omega
  simp only [hmark, Bool.false_eq_true, if_false] at hlegal hkeeps ⊢
  by_cases hstart : startsWord c = true
  · simp only [hstart, if_true, hword, true_and]
    exact (List.takeWhile_prefix _).length_le
  simp only [hstart, Bool.false_eq_true, if_false, hhead] at hlegal hkeeps ⊢
  by_cases hdigit : (c.isDigit || (c == '.' && (rest.head?.map Char.isDigit).getD false)) = true
  · simp only [hdigit, if_true, keeps_numeral, Bool.false_eq_true, or_self] at hkeeps
  simp only [hdigit, Bool.false_eq_true, if_false] at hlegal hkeeps ⊢
  rw [sign?_append hmore]
  cases hsign : sign? (c :: rest) with
  | none => exact ⟨rfl, by simp⟩
  | some found => exact ⟨rfl, length_of_sign? hsign⟩

/-- The tokens of a text are those of a longer one, as far as the text goes. -/
theorem scanFrom_append {more : List Char} (hmore : Breaks more) {fuel : Nat} : ∀ {fuel' offset : Nat}
    {input : List Char}, input.length ≤ fuel → (input ++ more).length ≤ fuel' →
    (∀ l ∈ scanFrom fuel offset input, l.token ≠ .illegal) →
    ((∀ l ∈ scanFrom fuel offset input, keeps l.token = true) ∨
      ∀ l ∈ scanFrom fuel' offset (input ++ more), keeps l.token = true) →
    ∃ left place, more.length ≤ left ∧
      scanFrom fuel' offset (input ++ more) = scanFrom fuel offset input ++ scanFrom left place more := by
  induction fuel with
  | zero =>
      intro fuel' offset input hfuel hfuel' _ _
      obtain rfl : input = [] := List.eq_nil_of_length_eq_zero (by omega)
      exact ⟨fuel', offset, by simpa using hfuel', rfl⟩
  | succ fuel ih =>
      intro fuel' offset input hfuel hfuel' hlegal hkeeps
      cases input with
      | nil => exact ⟨fuel', offset, by simpa using hfuel', rfl⟩
      | cons c rest =>
          obtain ⟨fuel', rfl⟩ : ∃ k, fuel' = k + 1 := ⟨fuel' - 1, by simp at hfuel'; omega⟩
          simp only [List.length_cons, List.cons_append] at hfuel hfuel' hkeeps ⊢
          by_cases hblank : isBlank c = true
          · simp only [scanFrom, hblank, if_true] at hlegal hkeeps ⊢
            exact ih (by omega) (by simpa using hfuel') hlegal hkeeps
          · simp only [scanFrom, hblank, Bool.false_eq_true, if_false, List.forall_mem_cons] at hlegal hkeeps ⊢
            obtain ⟨hfront, hle⟩ := front_append hmore hlegal.1 (hkeeps.imp And.left And.left)
            rw [List.cons_append] at hfront
            rw [hfront] at hkeeps ⊢
            generalize hlength : max (front (c :: rest)).2 1 = length at *
            have hlength' : length ≤ (c :: rest).length := by
              rw [← hlength, List.length_cons] at *
              omega
            have htake : (c :: (rest ++ more)).take length = (c :: rest).take length := by
              rw [← List.cons_append, List.take_append_of_le_length hlength']
            have htaken : ((c :: rest).take length).length = length := List.length_take_of_le hlength'
            have hdrop : (c :: (rest ++ more)).drop length = (c :: rest).drop length ++ more := by
              rw [← List.cons_append, List.drop_append_of_le_length hlength']
            rw [htake, htaken, hdrop] at hkeeps ⊢
            rw [htaken] at hlegal
            -- A token takes at least one character, so the fuel is enough for what is behind it.
            obtain ⟨left, place, hleft, happend⟩ := @ih _ _ ((c :: rest).drop length)
              (by simp only [List.length_drop, List.length_cons]; omega)
              (by simp only [List.length_append, List.length_drop, List.length_cons] at hfuel' ⊢; omega) hlegal.2
              (hkeeps.imp And.right And.right)
            exact ⟨left, place, hleft, by rw [happend, List.cons_append]⟩

/-- A text without a NUL keeps its tokens when another one follows behind a blank. -/
theorem scan_append {s t : String} (hs : Sql.Unbroken s) (ht : Sql.Unbroken t) (hblank : t.toList.head? = some ' ')
    (hkeeps : ∀ l ∈ scan s, keeps l.token = true) :
    ∃ more, scan (s ++ t) = scan s ++ more ∧ more.map Located.token = ofChars t.toList := by
  have hread : ∀ {u : String}, Sql.Unbroken u → scan u = scanFrom u.toList.length 0 u.toList := by
    intro u hu
    have hall := @List.takeWhile_append_of_pos _ (· != '\x00') u.toList [] fun c hc => by
      simp only [bne_iff_ne, ne_eq]
      exact fun e => hu (e ▸ hc)
    rw [List.append_nil, List.takeWhile_nil, List.append_nil] at hall
    rw [scan, hall]
  have hlegal : ∀ l ∈ scan s, l.token ≠ .illegal := by
    intro l hl hillegal
    have hkept := hkeeps l hl
    rw [hillegal] at hkept
    cases hkept
  have hbreaks : Breaks t.toList := by
    cases hchars : t.toList with
    | nil => rw [hchars] at hblank; cases hblank
    | cons c rest =>
        rw [hchars] at hblank
        exact ⟨c, rest, rfl, .inl (Option.some.inj hblank)⟩
  rw [hread hs] at hkeeps hlegal
  obtain ⟨left, place, hleft, happend⟩ := @scanFrom_append _ hbreaks _ (s ++ t).toList.length 0 _ (Nat.le_refl _)
    (Nat.le_of_eq (by rw [String.toList_append])) hlegal (.inl hkeeps)
  refine ⟨scanFrom left place t.toList, ?_, map_token_scanFrom hleft (Nat.le_refl _)⟩
  rw [hread (Sql.unbroken_append.2 ⟨hs, ht⟩), hread hs, String.toList_append, ← happend, String.toList_append]

/-- A text whose tokens are all written ones is cut off within one of them, if at all. -/
theorem unbroken_of_legal {s : String} (hkeeps : ∀ t ∈ ofChars s.toList, keeps t = true)
    (hlegal : ∀ l ∈ scan s, l.token ≠ .illegal) : Sql.Unbroken s := by
  intro hnul
  obtain ⟨p, q, hsplit, hp⟩ : ∃ p q, s.toList = p ++ '\x00' :: q ∧ s.toList.takeWhile (· != '\x00') = p := by
    have hsplit := @List.takeWhile_append_dropWhile _ (· != '\x00') s.toList
    have hhead := List.head?_dropWhile_not (· != '\x00') s.toList
    cases hrest : s.toList.dropWhile (· != '\x00') with
    | nil =>
        rw [hrest, List.append_nil] at hsplit
        rw [← hsplit] at hnul
        have hpassed := List.all_eq_true.1 List.all_takeWhile _ hnul
        cases hpassed
    | cons c q =>
        simp only [hrest, List.head?_cons, bne_eq_false_iff_eq] at hhead
        rw [hrest, hhead] at hsplit
        exact ⟨_, q, hsplit.symm, rfl⟩
  have hbreaks : Breaks ('\x00' :: q) := ⟨_, _, rfl, .inr rfl⟩
  have hall : ∀ l ∈ scanFrom s.toList.length 0 (p ++ '\x00' :: q), keeps l.token = true := by
    intro l hl
    rw [← hsplit] at hl
    exact hkeeps _ (List.mem_map_of_mem hl)
  rw [scan, hp] at hlegal
  obtain ⟨left, place, hleft, happend⟩ := scanFrom_append hbreaks (Nat.le_refl _)
    (Nat.le_of_eq (by rw [hsplit])) hlegal (.inr hall)
  obtain ⟨left, rfl⟩ : ∃ k, left = k + 1 := ⟨left - 1, by simp at hleft; omega⟩
  have hfront : front ('\x00' :: q) = (.illegal, 1) := by
    have hsign : sign? ('\x00' :: q) = none := by
      cases q <;> simp [sign?, longSigns, shortSigns, ← String.toList_inj]
    have hword : startsWord '\x00' = false := by decide
    have hdigit : Char.isDigit '\x00' = false := by decide
    simp [front, hsign, hword, hdigit]
  rw [happend] at hall
  have hillegal := hall ⟨.illegal, String.ofList (('\x00' :: q).take 1), place⟩ (by
    simp [scanFrom, isBlank, hfront])
  cases hillegal

/-- The tokens of selections without a page. -/
def pageless (t : Token) : Bool := t.keeps && !t.isWord "LIMIT" && !t.isWord "OFFSET" && !t.isSign ";"

/-- The tokens of selections without an ordering and a page. -/
def plain (t : Token) : Bool := t.pageless && !t.isWord "ORDER"

theorem pageless_of_plain {t : Token} (h : t.plain = true) : t.pageless = true := (Bool.and_eq_true_iff.1 h).1

theorem not_order_of_plain {t : Token} (h : t.plain = true) : t.isWord "ORDER" = false := by
  simpa [plain] using (Bool.and_eq_true_iff.1 h).2

end RecordTables.Engine.Token

namespace RecordTables.Sql

open RecordTables.Engine (Token)
open RecordTables.Engine.Token (ofChars pageless plain)

/-- The words and signs that selections are written with, but for orderings and pages. -/
def plainParts : List Part :=
  [.word "AND", .word "ASC", .word "BY", .word "DESC", .word "FROM", .word "IN", .word "IS", .word "LIKE", .word "NOT",
    .word "NULL", .word "OR", .word "SELECT", .word "WHERE", .sign "*", .sign ",", .sign "(", .sign ")", .sign "=",
    .sign "<>", .sign "<", .sign "<=", .sign ">", .sign ">="]

theorem plain_of_mem {part : Part} (h : part ∈ plainParts) : plain part.token = true := by
  have hall : ∀ p ∈ plainParts, plain p.token = true := by decide +kernel
  exact hall part h

theorem Part.plain_commas {pieces : List (List Part)} (h : ∀ piece ∈ pieces, ∀ p ∈ piece, plain p.token = true) :
    ∀ p ∈ Part.commas pieces, plain p.token = true := by
  intro p hp
  rcases Part.mem_commas hp with rfl | ⟨piece, hpiece, hp⟩
  · exact plain_of_mem (by decide)
  · exact h piece hpiece p hp

theorem plain_name (n : String) : plain (Part.name n).token = true := rfl

theorem plain_mark (slot : Slot) : plain (Part.mark slot).token = true := rfl

theorem Predicate.plain_parts (p : Predicate) : ∀ part ∈ p.parts, plain part.token = true := by
  have hnil : ∀ part : Part, part ∈ [] → plain part.token = true := fun _ h => by cases h
  induction p with
  | and left right ihl ihr =>
      simp only [parts, List.forall_mem_append, List.forall_mem_cons]
      exact ⟨ihl, plain_of_mem (by decide), ihr⟩
  | or left right ihl ihr =>
      simp only [parts, List.forall_mem_append, List.forall_mem_cons]
      exact ⟨ihl, plain_of_mem (by decide), ihr⟩
  | not body ih =>
      simp only [parts, List.forall_mem_cons]
      exact ⟨plain_of_mem (by decide), ih⟩
  | isNull column =>
      simp only [parts, List.forall_mem_cons]
      exact ⟨plain_name _, plain_of_mem (by decide), plain_of_mem (by decide), hnil⟩
  | isIn column values =>
      simp only [parts, List.forall_mem_append, List.forall_mem_cons]
      refine ⟨plain_name _, plain_of_mem (by decide), plain_of_mem (by decide), Part.plain_commas ?_, plain_of_mem (by decide), hnil⟩
      intro piece hpiece
      obtain ⟨v, _, rfl⟩ := List.mem_map.1 hpiece
      simp only [List.forall_mem_cons]
      exact ⟨plain_mark _, hnil⟩
  | compare column comparison value =>
      simp only [parts, List.forall_mem_cons]
      refine ⟨plain_name _, ?_, plain_mark _, hnil⟩
      cases comparison <;> exact plain_of_mem (by decide)

theorem OrderTerm.plain_parts (term : OrderTerm) : ∀ part ∈ term.parts, plain part.token = true := by
  simp only [parts, List.forall_mem_cons]
  refine ⟨plain_name _, ?_, fun _ h => (by cases h)⟩
  cases term.descending <;> exact plain_of_mem (by decide)

theorem whereParts_plain (filter : Option Predicate) : ∀ part ∈ whereParts filter, plain part.token = true := by
  cases filter with
  | none => simp [whereParts]
  | some p =>
      simp only [whereParts, List.forall_mem_cons]
      exact ⟨plain_of_mem (by decide), p.plain_parts⟩

theorem orderParts_pageless (order : List OrderTerm) : ∀ part ∈ orderParts order, pageless part.token = true := by
  cases order with
  | nil => simp [orderParts]
  | cons first rest =>
      simp only [orderParts, List.forall_mem_cons]
      refine ⟨by decide +kernel, Token.pageless_of_plain (plain_of_mem (by decide)), fun part hpart => Token.pageless_of_plain ?_⟩
      refine Part.plain_commas (fun piece hpiece => ?_) part hpart
      obtain ⟨term, _, rfl⟩ := List.mem_map.1 hpiece
      exact term.plain_parts

/-- A selection without a limit has no page, and without an ordering nothing that orders. -/
theorem Statement.plain_select (table : String) {q : Query} (h : q.limit = 0) (horder : q.order = []) :
    ∀ t ∈ ofChars (select table q).text.toList, plain t = true := by
  rw [ofChars_select, List.forall_mem_map]
  simp only [Command.parts, pageParts, h, if_true, List.append_nil, List.forall_mem_cons, List.forall_mem_append]
  refine ⟨plain_of_mem (by decide), plain_of_mem (by decide), plain_of_mem (by decide), plain_name _,
    whereParts_plain _, ?_⟩
  rw [horder]
  exact fun _ hpart => by cases hpart

theorem Statement.pageless_select (table : String) {q : Query} (h : q.limit = 0) :
    ∀ t ∈ ofChars (select table q).text.toList, pageless t = true := by
  rw [ofChars_select, List.forall_mem_map]
  simp only [Command.parts, pageParts, h, if_true, List.append_nil, List.forall_mem_cons, List.forall_mem_append]
  have hpart : ∀ {part : Part}, plain part.token = true → pageless part.token = true := Token.pageless_of_plain
  exact ⟨hpart (plain_of_mem (by decide)), hpart (plain_of_mem (by decide)), hpart (plain_of_mem (by decide)),
    hpart (plain_name _), fun part hwhere => hpart (whereParts_plain _ part hwhere), orderParts_pageless _⟩

end RecordTables.Sql
