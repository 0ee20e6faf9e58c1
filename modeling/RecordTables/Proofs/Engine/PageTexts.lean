import RecordTables.Proofs.Engine.Extension

/-!
# Texts of pages

The text of a selection with a limit and an offset is that of the selection without them, with the page behind.  It is
read as the same selection, with its bounds as literals.
-/

namespace RecordTables.Engine

namespace Reading

/-! ## Legal tokens -/

/-- A step takes no token that is illegal. -/
def Legal {α : Type} (m : Reading α) : Prop := ∀ r a r', m r = .ok (a, r') → r.Leaves r'

theorem Legal.pure {α : Type} (a : α) : Legal (pure a) := by
  intro r b r' h
  cases h
  exact .refl r

theorem Legal.bind {α β : Type} {m : Reading α} {f : α → Reading β} (h : Legal m) (hf : ∀ a, Legal (f a)) :
    Legal (m >>= f) := by
  intro r b r'' hb
  obtain ⟨a, r', hm, hb⟩ := bind_apply_eq_ok.1 hb
  exact (h r a r' hm).trans (hf a r' b r'' hb)

theorem Legal.ite {α : Type} {p : Prop} [Decidable p] {m k : Reading α} (h : Legal m) (hk : Legal k) :
    Legal (if p then m else k) := by
  split
  · exact h
  · exact hk

theorem Legal.acceptWord {word : String} : Legal (acceptWord word) := by
  rintro ⟨tokens, n⟩ a r' h
  cases tokens with
  | nil =>
      cases h
      exact .refl _
  | cons t ts =>
      change (if t.token.isWord word = true then _ else _ : Reading Bool) _ = _ at h
      split at h
      · rename_i hword
        cases h
        exact ⟨[t], rfl, by simpa using legal_of_isWord hword⟩
      · cases h
        exact .refl _

/-- What stands behind a word, if it is there. -/
theorem Legal.optional {α β : Type} {word : String} {m : Reading α} {f : Option α → Reading β} (hm : Legal m)
    (hf : ∀ x, Legal (f x)) : Legal (Reading.acceptWord word >>= fun taken =>
      if taken = true then m >>= fun a => Pure.pure (some a) >>= f else Pure.pure none >>= f) :=
  Legal.acceptWord.bind fun _ => .ite (hm.bind fun _ => (Legal.pure _).bind hf) ((Legal.pure _).bind hf)

/-- Tokens for a reader to go on with. -/
theorem startsLimit_singleton : StartsLimit [⟨.word "LIMIT", "LIMIT", 0⟩] := ⟨_, _, rfl, rfl⟩

theorem Legal.of_goesAt {α : Type} {m m' : Reading α} (h : ∀ {more r}, StartsLimit more → GoesAt more r m m') :
    Legal m := fun _ a r' hm => (h startsLimit_singleton a r' hm).1

/-! ## Statements -/

section Statements

variable {r r' : Reader} {t : Located} {ts : List Located} {n : Nat}

/-- A word that is nowhere among the tokens is not taken. -/
theorem acceptWord_of_not {word : String} (h : ∀ t ∈ r.tokens, t.token.isWord word = false) :
    acceptWord word r = .ok (false, r) := by
  obtain ⟨tokens, n⟩ := r
  cases tokens with
  | nil => rfl
  | cons t ts =>
      show (if t.token.isWord word = true then _ else _ : Reading Bool) _ = _
      rw [h t (List.mem_cons_self ..)]
      rfl

theorem acceptSign_of_not {sign : String} (h : ∀ t ∈ r.tokens, t.token.isSign sign = false) :
    acceptSign sign r = .ok (false, r) := by
  obtain ⟨tokens, n⟩ := r
  cases tokens with
  | nil => rfl
  | cons t ts =>
      show (if t.token.isSign sign = true then _ else _ : Reading Bool) _ = _
      rw [h t (List.mem_cons_self ..)]
      rfl

/-- Reads a selection behind its first word, to the end of the statement. -/
def readWhole : Reading Statement := do
  let s ← readSelection
  readEnd
  return .select s

theorem readStatement_select (ht : t.token.isWord "SELECT" = true) :
    readStatement ⟨t :: ts, n⟩ = readWhole ⟨ts, n⟩ := by
  have haccept : acceptWord "SELECT" ⟨t :: ts, n⟩ = .ok (true, ⟨ts, n⟩) := by
    show (if t.token.isWord "SELECT" = true then _ else _ : Reading Bool) _ = _
    rw [ht]
    rfl
  have hnext : next? ⟨t :: ts, n⟩ = .ok (some t, ⟨t :: ts, n⟩) := rfl
  unfold readStatement readWhole
  simp only [bind, StateT.bind, Except.bind, hnext, haccept, if_true]
  rfl

/-- No such token starts a page. -/
theorem readPage_of_pageless (h : ∀ t ∈ r.tokens, t.token.pageless = true) (s : Selection) :
    readPage s r = .ok ({ s with limit := none, offset := none }, r) := by
  have hnot : ∀ t ∈ r.tokens, t.token.isWord "LIMIT" = false ∧ t.token.isWord "OFFSET" = false := by
    intro t ht
    have hpageless := h t ht
    simp only [Token.pageless, Bool.and_eq_true, Bool.not_eq_true'] at hpageless
    exact ⟨hpageless.1.1.2, hpageless.1.2⟩
  have hlimit := acceptWord_of_not fun t ht => (hnot t ht).1
  have hoffset := acceptWord_of_not fun t ht => (hnot t ht).2
  refine bind_apply_eq_ok.2 ⟨false, r, hlimit, ?_⟩
  simp only [Bool.false_eq_true, if_false, pure_bind]
  exact bind_apply_eq_ok.2 ⟨false, r, hoffset, rfl⟩

/-- No such token stands behind a statement. -/
theorem of_readEnd_of_pageless {u : Unit} (hpageless : ∀ t ∈ r.tokens, t.token.pageless = true)
    (h : readEnd r = .ok (u, r')) : r.tokens = [] ∧ r' = r := by
  have hsemicolon : acceptSign ";" r = .ok (false, r) := acceptSign_of_not fun t ht => by
    have ht := hpageless t ht
    simp only [Token.pageless, Bool.and_eq_true, Bool.not_eq_true'] at ht
    exact ht.2
  obtain ⟨taken, between, haccept, h⟩ := bind_apply_eq_ok.1 h
  rw [hsemicolon] at haccept
  cases haccept
  obtain ⟨tokens, n⟩ := r
  cases tokens with
  | nil =>
      cases h
      exact ⟨rfl, rfl⟩
  | cons t ts =>
      obtain ⟨e, he⟩ := @refuses_refuse Unit _ ⟨t :: ts, n⟩ rfl
      have hrefuse : (refuse : Reading Unit) ⟨t :: ts, n⟩ = .ok (u, r') := h
      rw [he] at hrefuse
      cases hrefuse

/-- Where no ordering is spelled, none is read. -/
theorem order_of_readAsked (h : ∀ t ∈ r.tokens, t.token.isWord "ORDER" = false) {asked : Selection}
    (hasked : readAsked r = .ok (asked, r')) : asked.order = [] := by
  obtain ⟨_, _, hget, hasked⟩ := bind_apply_eq_ok.1 hasked
  cases hget
  obtain ⟨columns, r₁, hcolumns, hasked⟩ := bind_apply_eq_ok.1 hasked
  obtain ⟨source, r₂, hsource, hasked⟩ := bind_apply_eq_ok.1 hasked
  obtain ⟨filter, r₃, hfilter, hasked⟩ := bind_apply_eq_ok.1 hasked
  have hlist : Legal (Reading.commaSeparated readResultColumn r.tokens.length) :=
    Legal.of_goesAt fun hmore => GoesAt.commaSeparated hmore (fun _ => .readResultColumn hmore) (Nat.le_refl _)
  obtain ⟨taken, htokens, -⟩ := (hlist _ _ _ hcolumns).trans
    ((Legal.of_goesAt GoesAt.readSource _ _ _ hsource).trans (Legal.of_goesAt GoesAt.readFilter _ _ _ hfilter))
  have hlast : ∀ t ∈ r₃.tokens, t.token.isWord "ORDER" = false := fun t ht =>
    h t (by rw [htokens]; exact List.mem_append_right _ ht)
  obtain ⟨ordered, r₄, haccept, hasked⟩ := bind_apply_eq_ok.1 hasked
  rw [acceptWord_of_not hlast] at haccept
  cases haccept
  cases hasked
  rfl

/-- The rest of a selection is read as it was, and behind it the page. -/
theorem readWhole_append {more : List Located} (hmore : StartsLimit more)
    (hpageless : ∀ t ∈ r.tokens, t.token.pageless = true) {statement : Statement}
    (h : readWhole r = .ok (statement, r')) :
    ∃ s : Selection, statement = .select s ∧ (s.limit = none ∧ s.offset = none) ∧
      ((∀ t ∈ r.tokens, t.token.isWord "ORDER" = false) → s.order = []) ∧
      ∀ s', readPage s ⟨more, r'.parameters⟩ = .ok (s', ⟨[], r'.parameters⟩) →
        readWhole (r.before more) = .ok (.select s', ⟨[], r'.parameters⟩) := by
  obtain ⟨s, between, hselection, h⟩ := bind_apply_eq_ok.1 h
  obtain ⟨u, last, hend, h⟩ := bind_apply_eq_ok.1 h
  cases h
  rw [readSelection_eq] at hselection
  obtain ⟨asked, front, hasked, hpage⟩ := bind_apply_eq_ok.1 hselection
  obtain ⟨⟨taken, htokens, -⟩, hgoes⟩ := GoesAt.readAsked hmore asked front hasked
  have hordered : (∀ t ∈ r.tokens, t.token.isWord "ORDER" = false) → asked.order = [] :=
    fun hunordered => order_of_readAsked hunordered hasked
  have hrest : ∀ t ∈ front.tokens, t.token.pageless = true := fun t ht =>
    hpageless t (by rw [htokens]; exact List.mem_append_right _ ht)
  rw [readPage_of_pageless hrest] at hpage
  cases hpage
  obtain ⟨hnil, rfl⟩ := of_readEnd_of_pageless hrest hend
  refine ⟨_, rfl, ⟨rfl, rfl⟩, hordered, fun s' hs' => ?_⟩
  have hfront : r'.before more = ⟨more, r'.parameters⟩ := by
    rw [Reader.before, hnil, List.nil_append]
  rw [hfront] at hgoes
  refine bind_apply_eq_ok.2 ⟨s', ⟨[], r'.parameters⟩, ?_, rfl⟩
  rw [readSelection_eq]
  exact bind_apply_eq_ok.2 ⟨asked, _, hgoes, hs'⟩

theorem Legal.readEnd {r r' : Reader} {u : Unit} (h : readEnd r = .ok (u, r')) : r.Leaves r' ∧ r'.tokens = [] := by
  obtain ⟨taken, between, haccept, h⟩ := bind_apply_eq_ok.1 h
  have hleaves := Legal.of_goesAt (fun hmore => GoesAt.acceptSign hmore) r taken between haccept
  obtain ⟨tokens, n⟩ := between
  cases tokens with
  | nil =>
      cases h
      exact ⟨hleaves, rfl⟩
  | cons t ts =>
      obtain ⟨e, he⟩ := @refuses_refuse Unit _ ⟨t :: ts, n⟩ rfl
      have hrefuse : (refuse : Reading Unit) ⟨t :: ts, n⟩ = .ok (u, r') := h
      rw [he] at hrefuse
      cases hrefuse

/-- A statement that is a selection has no illegal token. -/
theorem legal_of_readWhole {statement : Statement} (h : readWhole r = .ok (statement, r')) :
    ∀ t ∈ r.tokens, t.token ≠ .illegal := by
  obtain ⟨s, between, hselection, h⟩ := bind_apply_eq_ok.1 h
  obtain ⟨u, last, hend, -⟩ := bind_apply_eq_ok.1 h
  have hexpression : Legal expression := Legal.of_goesAt GoesAt.expression
  have hpage : ∀ s, Legal (readPage s) := fun s =>
    .optional hexpression fun _ => .optional hexpression fun _ => .pure _
  have hread : Legal readSelection := by
    rw [readSelection_eq]
    exact (Legal.of_goesAt GoesAt.readAsked).bind hpage
  obtain ⟨hleaves, hnil⟩ := Legal.readEnd hend
  obtain ⟨taken, htokens, hlegal⟩ := (hread r s between hselection).trans hleaves
  rw [htokens, hnil, List.append_nil]
  exact hlegal

end Statements

/-! ## Pages -/

theorem takes_expression_integer {n k : Nat} {ts : List Token} (h : Closes anyLevel ts) :
    Takes expression ⟨.integer n :: ts, k⟩ ⟨ts, k⟩ (· = .literal (integerLiteral n)) := by
  refine takes_fuelFor.bind_eq ?_
  have hfuel : 8 * (Token.integer n :: ts).length + 8 = (8 * ts.length + 14) + 2 := by
    rw [List.length_cons]
    omega
  rw [hfuel, readExpr]
  refine Takes.bind_eq (a := Expr.literal (integerLiteral n)) (y := ⟨ts, k⟩) ?_ (takes_readOperators_end h)
  rw [readOperand]
  refine takes_next?.bind ?_
  rintro _ ⟨l, rfl, hl⟩
  simp only [hl]
  exact takes_skip.bind fun _ _ => Takes.pure rfl

/-- The bound that a number of a query is written as; zero is left out. -/
def boundOf (n : UInt64) : Option Expr := if n = 0 then none else some (.literal (integerLiteral n.toNat))

theorem takes_readPage {limit offset : UInt64} (hlimit : limit ≠ 0) (s : Selection) (k : Nat) :
    Takes (readPage s) ⟨(Sql.pageParts limit offset).map Sql.Part.token, k⟩ ⟨[], k⟩
      (· = { s with limit := boundOf limit, offset := boundOf offset }) := by
  have hword : (Token.word "LIMIT").isWord "LIMIT" = true := isWord_self (by simp [keywords])
  have hcloses : closes anyLevel (.word "OFFSET") = true := closes_of_mem (by simp [closers])
  have hoffset : (Token.word "OFFSET").isWord "OFFSET" = true := isWord_self (by simp [keywords])
  rw [Sql.pageParts, if_neg hlimit]
  by_cases hzero : offset = 0
  · rw [if_pos hzero]
    refine (takes_acceptWord hword).bind_eq ?_
    refine (takes_expression_integer closes_nil).bind_eq ?_
    rw [pure_bind]
    refine (takes_acceptWord_of_not fun _ h => (by cases h)).bind_eq ?_
    refine Takes.pure ?_
    rw [boundOf, boundOf, if_neg hlimit, if_pos hzero]
  · rw [if_neg hzero]
    refine (takes_acceptWord hword).bind_eq ?_
    refine (takes_expression_integer (closes_cons hcloses)).bind_eq ?_
    rw [pure_bind]
    refine (takes_acceptWord hoffset).bind_eq ?_
    refine (takes_expression_integer closes_nil).bind_eq ?_
    rw [pure_bind]
    refine Takes.pure ?_
    rw [boundOf, boundOf, if_neg hlimit, if_neg hzero]

end Reading

open Reading

theorem Statement.ofText_eq_ok {text : String} {statement : Statement} {needed : Nat} :
    Statement.ofText text = .ok (statement, needed) ↔
      ∃ r, readStatement ⟨Token.scan text, 0⟩ = .ok (statement, r) ∧ r.parameters = needed := by
  have hrun : Statement.ofText text =
      (readStatement ⟨Token.scan text, 0⟩ >>= fun p => .ok (p.1, p.2.parameters)) := rfl
  rw [hrun]
  cases readStatement ⟨Token.scan text, 0⟩ with
  | error e => exact ⟨fun h => (by cases h), by rintro ⟨r, h, -⟩; cases h⟩
  | ok p =>
      constructor
      · intro h
        cases h
        exact ⟨p.2, rfl, rfl⟩
      · rintro ⟨r, h, rfl⟩
        cases h
        rfl

/-- The first word of a selection is read, even if a NUL stands behind it. -/
theorem exists_scan_select (table : String) (q : Sql.Query) :
    ∃ t ts, Token.scan (Sql.Statement.select table q).text = t :: ts ∧ t.token = .word "SELECT" := by
  have hfirst : ∃ rest,
      (Token.scan (Sql.Statement.select table q).text).map Located.token = .word "SELECT" :: rest := by
    have htext : (Sql.Statement.select table q).text.toList = "SELECT ".toList ++ ("* FROM " ++ Sql.quote table ++
        Sql.whereText q.filter ++ Sql.orderText q.order ++ Sql.pageText q.limit q.offset).toList := by
      simp [Sql.Statement.select]
    have hscan : (Token.scan (Sql.Statement.select table q).text).map Located.token =
        Token.ofChars ((Sql.Statement.select table q).text.toList.takeWhile (· != '\x00')) := rfl
    rw [hscan, htext, List.takeWhile_append_of_pos (by simp)]
    exact ⟨_, Token.ofChars_keyword (w := "SELECT") (by decide) _⟩
  obtain ⟨rest, hfirst⟩ := hfirst
  cases hscan : Token.scan (Sql.Statement.select table q).text with
  | nil =>
      rw [hscan] at hfirst
      cases hfirst
  | cons t ts =>
      rw [hscan] at hfirst
      exact ⟨t, ts, rfl, (List.cons.inj hfirst).1⟩

theorem unbroken_pageText (limit offset : UInt64) : Sql.Unbroken (Sql.pageText limit offset) := by
  have hdigits : ∀ n : Nat, Sql.Unbroken (toString n) := by
    intro n hnul
    rw [Nat.toString_eq_ofList_toDigits, String.toList_ofList] at hnul
    exact absurd (all_isDigit_toDigits n _ hnul) (by decide)
  unfold Sql.pageText
  split
  · decide
  · split
    · simp only [Sql.unbroken_append, hdigits, and_true]
      decide
    · simp only [Sql.unbroken_append, hdigits, and_true]
      decide

/-- The text of a selection with a page reads as that of the selection without it, with the page behind. -/
theorem Statement.ofText_select_paged {table : String} {q : Sql.Query} {limit : UInt64} (offset : UInt64)
    (hlimit : limit ≠ 0) {statement : Statement} {needed : Nat}
    (h : Statement.ofText (Sql.Statement.select table (q.setLimit 0)).text = .ok (statement, needed)) :
    ∃ s : Selection, statement = .select s ∧ (s.limit = none ∧ s.offset = none) ∧ (q.order = [] → s.order = []) ∧
      Statement.ofText (Sql.Statement.select table ((q.setLimit limit).setOffset offset)).text =
        .ok (.select { s with limit := boundOf limit, offset := boundOf offset }, needed) := by
  have hword : (Token.word "SELECT").isWord "SELECT" = true := isWord_self (by simp [keywords])
  obtain ⟨t, ts, hscan, ht⟩ := exists_scan_select table (q.setLimit 0)
  rw [← ht] at hword
  obtain ⟨r, hread, rfl⟩ := Statement.ofText_eq_ok.1 h
  rw [hscan, readStatement_select hword] at hread
  -- The text was read to its end, so no name in it is cut off at a NUL.
  have hpageless := Sql.Statement.pageless_select table (q := q.setLimit 0) rfl
  have hkeeps : ∀ t ∈ Token.ofChars (Sql.Statement.select table (q.setLimit 0)).text.toList, t.keeps = true := by
    intro t ht
    have ht := hpageless t ht
    simp only [Token.pageless, Bool.and_eq_true] at ht
    exact ht.1.1.1
  have hlegal : ∀ l ∈ Token.scan (Sql.Statement.select table (q.setLimit 0)).text, l.token ≠ .illegal := by
    rw [hscan, List.forall_mem_cons]
    exact ⟨legal_of_isWord hword, legal_of_readWhole hread⟩
  have hunbroken := Token.unbroken_of_legal hkeeps hlegal
  rw [← Token.map_token_scan hunbroken, List.forall_mem_map] at hpageless hkeeps
  -- The page stands behind it.
  have htext : (Sql.Statement.select table ((q.setLimit limit).setOffset offset)).text =
      (Sql.Statement.select table (q.setLimit 0)).text ++ Sql.pageText limit offset := by
    simp [Sql.Statement.select, Sql.Query.setLimit, Sql.Query.setOffset, Sql.pageText]
  have hblank : (Sql.pageText limit offset).toList.head? = some ' ' := by
    simp [Sql.pageText, hlimit]
  obtain ⟨more, happend, hmore⟩ := Token.scan_append hunbroken (unbroken_pageText limit offset) hblank hkeeps
  rw [Sql.ofChars_pageText] at hmore
  have hstarts : StartsLimit more := by
    rw [Sql.pageParts, if_neg hlimit] at hmore
    cases more with
    | nil => cases hmore
    | cons l rest => exact ⟨l, rest, rfl, (List.cons.inj hmore).1⟩
  rw [hscan, List.forall_mem_cons] at hpageless
  obtain ⟨s, rfl, hnone, hunordered, hwhole⟩ := readWhole_append hstarts hpageless.2 hread
  obtain ⟨s', r', hpage, hfront, rfl⟩ := takes_readPage hlimit s r.parameters ⟨more, r.parameters⟩
    (by rw [← hmore]; rfl)
  refine ⟨s, rfl, hnone, fun horder => hunordered fun l hl => ?_,
    Statement.ofText_eq_ok.2 ⟨⟨[], r.parameters⟩, ?_, rfl⟩⟩
  · have hplain := Sql.Statement.plain_select table (q := q.setLimit 0) rfl horder
    rw [← Token.map_token_scan hunbroken, List.forall_mem_map, hscan, List.forall_mem_cons] at hplain
    exact Token.not_order_of_plain (hplain.2 l hl)
  have hend : r' = ⟨[], r.parameters⟩ := by
    obtain ⟨tokens, n⟩ := r'
    obtain ⟨htokens, rfl⟩ := Front.mk.inj hfront
    obtain rfl : tokens = [] := List.map_eq_nil_iff.1 htokens
    rfl
  rw [hend] at hpage
  rw [htext, happend, hscan, List.cons_append, readStatement_select hword]
  exact hwhole _ hpage

end RecordTables.Engine
