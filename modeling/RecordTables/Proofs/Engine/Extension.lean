import RecordTables.Proofs.Engine.Expressions
import RecordTables.Proofs.Sql.Appended

/-!
# Statements that go on

A selection that is read to the end of its tokens is read the same where a limit follows: no step of its reading takes
the word that a limit starts with, and each goes on from there in the same way, for want of nothing but fuel.
-/

namespace RecordTables.Engine

/-- A reader with more tokens behind those that it has. -/
def Reader.before (r : Reader) (more : List Located) : Reader := ⟨r.tokens ++ more, r.parameters⟩

/-- What one reader has left of the tokens of another, of which it has taken none that is illegal. -/
def Reader.Leaves (r r' : Reader) : Prop :=
  ∃ taken, r.tokens = taken ++ r'.tokens ∧ ∀ t ∈ taken, t.token ≠ .illegal

theorem Reader.Leaves.refl (r : Reader) : r.Leaves r := ⟨[], rfl, by simp⟩

theorem Reader.Leaves.trans {r r' r'' : Reader} (h : r.Leaves r') (h' : r'.Leaves r'') : r.Leaves r'' := by
  obtain ⟨taken, htokens, hlegal⟩ := h
  obtain ⟨taken', htokens', hlegal'⟩ := h'
  refine ⟨taken ++ taken', by rw [htokens, htokens', List.append_assoc], ?_⟩
  rw [List.forall_mem_append]
  exact ⟨hlegal, hlegal'⟩

namespace Reading

theorem legal_of_isWord {t : Token} {word : String} (h : t.isWord word = true) : t ≠ .illegal := by
  rintro rfl
  cases h

theorem legal_of_isSign {t : Token} {sign : String} (h : t.isSign sign = true) : t ≠ .illegal := by
  rintro rfl
  cases h

theorem legal_of_nameOf? {t : Token} {name : String} (h : nameOf? t = some name) : t ≠ .illegal := by
  rintro rfl
  cases h

theorem legal_of_binaryOf? {t : Token} {found : Nat × (Expr → Expr → Expr)} (h : binaryOf? t = some found) :
    t ≠ .illegal := by
  rintro rfl
  cases h

/-- The words that a selection is read by, up to its page. -/
def pagelessWords : List String :=
  ["AS", "ASC", "BY", "DESC", "FROM", "IN", "IS", "ISNULL", "LIKE", "NOT", "NOTNULL", "NULL", "ORDER", "TEXT", "WHERE"]

/-- None of them is taken for a limit. -/
theorem limit_isWord {word : String} (h : word ∈ pagelessWords) : (Token.word "LIMIT").isWord word = false := by
  have hall : ∀ w ∈ pagelessWords, (Token.word "LIMIT").isWord w = false := by decide +kernel
  exact hall word h

/-- Tokens that start with a limit. -/
structure StartsLimit (more : List Located) : Prop where
  starts : ∃ l rest, more = l :: rest ∧ l.token = .word "LIMIT"

/-- What a step reads, another one reads as well when more tokens stand behind, and it leaves these. -/
def GoesAt {α : Type} (more : List Located) (r : Reader) (m m' : Reading α) : Prop :=
  ∀ a r', m r = .ok (a, r') → r.Leaves r' ∧ m' (r.before more) = .ok (a, r'.before more)

section Rules

variable {α β : Type} {more : List Located} {r : Reader} {m m' : Reading α} {f f' : α → Reading β}

theorem GoesAt.pure (a : α) : GoesAt more r (pure a) (pure a) := by
  intro b r' h
  cases h
  exact ⟨.refl _, rfl⟩

theorem GoesAt.throw {e : Failure} : GoesAt more r (throw e : Reading α) m' := fun _ _ h => by cases h

theorem GoesAt.refuse : GoesAt more r (refuse : Reading α) m' := by
  intro a r' h
  obtain ⟨e, he⟩ := @refuses_refuse α r.front r rfl
  rw [he] at h
  cases h

theorem GoesAt.bind (h : GoesAt more r m m')
    (hf : ∀ a r', m r = .ok (a, r') → GoesAt more r' (f a) (f' a)) : GoesAt more r (m >>= f) (m' >>= f') := by
  intro b r'' hb
  obtain ⟨a, r', hm, hb⟩ := bind_apply_eq_ok.1 hb
  obtain ⟨hleaves, hm'⟩ := h a r' hm
  obtain ⟨hleaves', hf'⟩ := hf a r' hm b r'' hb
  exact ⟨hleaves.trans hleaves', bind_apply_eq_ok.2 ⟨a, r'.before more, hm', hf'⟩⟩

/-- A test that comes out the same is followed in the same way. -/
theorem GoesAt.test {p : Prop} [Decidable p] {n n' : Reading α} (h : p → GoesAt more r m m')
    (hn : GoesAt more r n n') : GoesAt more r (if p then m else n) (if p then m' else n') := by
  split
  · exact h ‹p›
  · exact hn

theorem GoesAt.ite {p : Prop} [Decidable p] {n n' : Reading α} (h : GoesAt more r m m') (hn : GoesAt more r n n') :
    GoesAt more r (if p then m else n) (if p then m' else n') := .test (fun _ => h) hn

end Rules

section Steps

variable {α : Type} {more : List Located} {r : Reader} {t : Located} {ts : List Located} {n : Nat}

/-- The next token is the same one, but for a reader at its end, which finds the limit. -/
theorem GoesAt.next? (hmore : StartsLimit more) {f f' : Option Located → Reading α}
    (h : ∀ t ts, r.tokens = t :: ts → GoesAt more r (f (some t)) (f' (some t)))
    (hend : ∀ l, r.tokens = [] → l.token = .word "LIMIT" → GoesAt more r (f none) (f' (some l))) :
    GoesAt more r (next? >>= f) (next? >>= f') := by
  obtain ⟨tokens, n⟩ := r
  cases tokens with
  | cons t ts => exact fun a r' ha => h t ts rfl a r' ha
  | nil =>
      obtain ⟨l, rest, rfl, hl⟩ := hmore.starts
      exact fun a r' ha => hend l rfl hl a r' ha

theorem GoesAt.skip (h : r.tokens = t :: ts) (ht : t.token ≠ .illegal) : GoesAt more r skip skip := by
  obtain ⟨tokens, n⟩ := r
  cases h
  intro a r' ha
  cases ha
  exact ⟨⟨[t], rfl, by simpa using ht⟩, rfl⟩

theorem GoesAt.acceptWord (hmore : StartsLimit more) {word : String}
    (hword : word ∈ pagelessWords) : GoesAt more r (acceptWord word) (acceptWord word) := by
  refine GoesAt.next? hmore (fun t ts h => ?_) fun l _ hl => ?_
  · dsimp only
    exact .test (fun hw => (GoesAt.skip h (legal_of_isWord hw)).bind fun _ _ _ => .pure true) (.pure false)
  · dsimp only
    rw [hl, limit_isWord hword]
    exact .pure false

theorem GoesAt.acceptSign (hmore : StartsLimit more) {sign : String} :
    GoesAt more r (acceptSign sign) (acceptSign sign) := by
  refine GoesAt.next? hmore (fun t ts h => ?_) fun l _ hl => ?_
  · dsimp only
    exact .test (fun hs => (GoesAt.skip h (legal_of_isSign hs)).bind fun _ _ _ => .pure true) (.pure false)
  · dsimp only
    rw [hl]
    exact .pure false

/-- A word that is taken or left makes a difference to what is read next. -/
theorem GoesAt.ifWord (hmore : StartsLimit more) {word : String} (hword : word ∈ pagelessWords)
    {m m' k k' : Reading α} (hm : ∀ r, GoesAt more r m m') (hk : GoesAt more r k k') :
    GoesAt more r (Reading.acceptWord word >>= fun taken => if taken = true then m else k)
      (Reading.acceptWord word >>= fun taken => if taken = true then m' else k') := by
  refine (GoesAt.acceptWord hmore hword).bind fun taken r' htaken => ?_
  cases taken with
  | true => exact hm r'
  | false =>
      obtain rfl : r' = r := by
        obtain ⟨tokens, n⟩ := r
        cases tokens with
        | nil =>
            cases htaken
            rfl
        | cons t ts =>
            change (if t.token.isWord word = true then _ else _ : Reading Bool) _ = _ at htaken
            split at htaken
            · cases htaken
            · cases htaken
              rfl
      exact hk

/-- At its end a reader goes on with what is read where the limit is not a given word. -/
theorem GoesAt.passWord (hmore : StartsLimit more) (hr : r.tokens = []) {word : String}
    (hword : word ∈ pagelessWords) {m k m' : Reading α} (h : GoesAt more r m m') :
    GoesAt more r m (Reading.acceptWord word >>= fun taken => if taken = true then k else m') := by
  intro a r' ha
  obtain ⟨hleaves, hm'⟩ := h a r' ha
  refine ⟨hleaves, bind_apply_eq_ok.2 ⟨false, r.before more, ?_, hm'⟩⟩
  obtain ⟨l, rest, rfl, hl⟩ := hmore.starts
  obtain ⟨tokens, n⟩ := r
  cases hr
  show (if l.token.isWord word = true then _ else _ : Reading Bool) _ = _
  rw [hl, limit_isWord hword]
  rfl

theorem GoesAt.expectWord (hmore : StartsLimit more) {word : String}
    (hword : word ∈ pagelessWords) : GoesAt more r (expectWord word) (expectWord word) :=
  (GoesAt.acceptWord hmore hword).bind fun _ _ _ => .ite (.pure ()) .refuse

theorem GoesAt.expectSign (hmore : StartsLimit more) {sign : String} :
    GoesAt more r (expectSign sign) (expectSign sign) :=
  (GoesAt.acceptSign hmore).bind fun _ _ _ => .ite (.pure ()) .refuse

theorem GoesAt.expectWords (hmore : StartsLimit more) {words : List String}
    (hwords : ∀ w ∈ words, w ∈ pagelessWords) :
    GoesAt more r (expectWords words) (expectWords words) := by
  induction words generalizing r with
  | nil => exact .pure ()
  | cons word words ih =>
      rw [List.forall_mem_cons] at hwords
      exact (GoesAt.expectWord hmore hwords.1).bind fun _ _ _ => ih hwords.2

theorem GoesAt.name (hmore : StartsLimit more) : GoesAt more r name name := by
  refine GoesAt.next? hmore (fun t ts h => ?_) fun l _ _ => .refuse
  dsimp only
  cases hname : nameOf? t.token with
  | none => exact .refuse
  | some text => exact (GoesAt.skip h (legal_of_nameOf? hname)).bind fun _ _ _ => .pure _

theorem GoesAt.parameter {number : Option Nat} {offset : Nat} :
    GoesAt more r (parameter number offset) (parameter number offset) := by
  obtain ⟨tokens, n⟩ := r
  intro a r' h
  cases number with
  | some k =>
      unfold Reading.parameter at h ⊢
      by_cases hk : k = 0 ∨ maxParameter < k
      · simp only [hk, if_true] at h
        cases h
      · simp only [hk, if_false] at h ⊢
        cases h
        exact ⟨.refl _, rfl⟩
  | none =>
      by_cases hk : maxParameter < n + 1
      · have hthrow : Reading.parameter none offset ⟨tokens, n⟩ = .error (.tooManyVariables offset) := by
          show (if maxParameter < n + 1 then _ else _ : Reading Expr) _ = _
          rw [if_pos hk]
          rfl
        rw [hthrow] at h
        cases h
      · have htake : ∀ tokens', Reading.parameter none offset ⟨tokens', n⟩ =
            .ok (.parameter (n + 1), ⟨tokens', max n (n + 1)⟩) := by
          intro tokens'
          show (if maxParameter < n + 1 then _ else _ : Reading Expr) _ = _
          rw [if_neg hk]
          rfl
        rw [htake] at h
        cases h
        exact ⟨.refl _, htake _⟩

theorem GoesAt.limited {e : Expr} : GoesAt more r (limited e) (limited e) := .ite .throw (.pure e)

end Steps

/-! ## Expressions -/

section Expressions

variable {more : List Located} {r : Reader} {fuel fuel' level : Nat}

/-- All readers of expressions and their parts, with as much fuel or more. -/
structure GoOn (more : List Located) (fuel : Nat) : Prop where
  expr : ∀ {fuel' r}, fuel ≤ fuel' → ∀ level, GoesAt more r (readExpr fuel level) (readExpr fuel' level)
  operand : ∀ {fuel' r}, fuel ≤ fuel' → GoesAt more r (readOperand fuel) (readOperand fuel')
  call : ∀ {fuel' r}, fuel ≤ fuel' → ∀ function offset,
    GoesAt more r (readCall fuel function offset) (readCall fuel' function offset)
  exprs : ∀ {fuel' r}, fuel ≤ fuel' → GoesAt more r (readExprs fuel) (readExprs fuel')
  operators : ∀ {fuel' r}, fuel ≤ fuel' → ∀ level left,
    GoesAt more r (readOperators fuel level left) (readOperators fuel' level left)
  membership : ∀ {fuel' r}, fuel ≤ fuel' → ∀ negated left,
    GoesAt more r (readMembership fuel negated left) (readMembership fuel' negated left)

theorem goOn_zero : GoOn more 0 where
  expr := fun _ _ => by rw [readExpr]; exact .refuse
  operand := fun _ => by rw [readOperand]; exact .refuse
  call := fun _ _ _ => by rw [readCall]; exact .refuse
  exprs := fun _ => by rw [readExprs]; exact .refuse
  operators := fun _ _ _ => by rw [readOperators]; exact .refuse
  membership := fun _ _ _ => by rw [readMembership]; exact .refuse

theorem GoOn.operand_succ (hmore : StartsLimit more) (h : GoOn more fuel) (hle : fuel ≤ fuel') :
    GoesAt more r (readOperand (fuel + 1)) (readOperand (fuel' + 1)) := by
  rw [readOperand, readOperand]
  refine GoesAt.next? hmore (fun t ts ht => ?_) fun l _ _ => .refuse
  have hskip : t.token ≠ .illegal → ∀ {α : Type} {m m' : Reading α}, (∀ r, GoesAt more r m m') →
      GoesAt more r (skip >>= fun _ => m) (skip >>= fun _ => m') :=
    fun hlegal _ _ _ hm => (GoesAt.skip ht hlegal).bind fun _ r' _ => hm r'
  obtain ⟨token, raw, offset⟩ := t
  cases token with
  | integer k => exact hskip (by simp) fun _ => .pure _
  | decimal k => exact hskip (by simp) fun _ => .pure _
  | text s => exact hskip (by simp) fun _ => .pure _
  | mark number => exact hskip (by simp) fun _ => .parameter
  | name s => exact hskip (by simp) fun _ => .pure _
  | illegal => exact .refuse
  | sign s =>
      by_cases hs : s = "("
      · subst hs
        exact hskip (by simp) fun _ => (h.expr hle anyLevel).bind fun _ _ _ =>
          (GoesAt.expectSign hmore).bind fun _ _ _ => .pure _
      · simp [hs, GoesAt.refuse]
  | word w =>
      dsimp only
      refine .ite (hskip (by simp) fun _ => (h.expr hle notLevel).bind fun _ _ _ => .limited) ?_
      refine .ite (hskip (by simp) fun _ => .pure _) ?_
      refine .ite (hskip (by simp) fun _ => (GoesAt.expectSign hmore).bind fun _ _ _ =>
        (h.expr hle anyLevel).bind fun _ _ _ => (GoesAt.expectWords hmore (by decide)).bind fun _ _ _ => (GoesAt.expectSign hmore).bind fun _ _ _ =>
          .limited) ?_
      refine .ite .refuse (hskip (by simp) fun _ => (GoesAt.acceptSign hmore).bind fun _ _ _ =>
        .ite (h.call hle w offset) ?_)
      refine (GoesAt.acceptSign hmore).bind fun _ _ _ => .ite ((GoesAt.name hmore).bind fun _ _ _ => ?_) (.pure _)
      exact .ite (.pure _) (.ite (.pure _) .throw)

theorem GoOn.call_succ (hmore : StartsLimit more) (h : GoOn more fuel) (hle : fuel ≤ fuel') (function : String)
    (offset : Nat) : GoesAt more r (readCall (fuel + 1) function offset) (readCall (fuel' + 1) function offset) := by
  rw [readCall, readCall]
  refine (GoesAt.acceptSign hmore).bind fun _ _ _ => .ite ?_ ((GoesAt.acceptSign hmore).bind fun _ _ _ =>
    .ite (.pure _) ?_)
  · exact (GoesAt.expectSign hmore).bind fun _ _ _ => .ite (.pure _) .throw
  · exact (h.exprs hle).bind fun _ _ _ => (GoesAt.expectSign hmore).bind fun _ _ _ => .limited

theorem GoOn.exprs_succ (hmore : StartsLimit more) (h : GoOn more fuel) (hle : fuel ≤ fuel') :
    GoesAt more r (readExprs (fuel + 1)) (readExprs (fuel' + 1)) := by
  rw [readExprs, readExprs]
  exact (h.expr hle anyLevel).bind fun _ _ _ => (GoesAt.acceptSign hmore).bind fun _ _ _ =>
    .ite ((h.exprs hle).bind fun _ _ _ => .pure _) (.pure _)

theorem GoOn.membership_succ (hmore : StartsLimit more) (h : GoOn more fuel) (hle : fuel ≤ fuel') (negated : Bool)
    (left : Expr) :
    GoesAt more r (readMembership (fuel + 1) negated left) (readMembership (fuel' + 1) negated left) := by
  rw [readMembership, readMembership]
  refine (GoesAt.expectSign hmore).bind fun _ _ _ => (GoesAt.acceptSign hmore).bind fun _ _ _ => .ite (.pure _) ?_
  exact (h.exprs hle).bind fun _ _ _ => (GoesAt.expectSign hmore).bind fun _ _ _ => .limited

theorem GoOn.operators_succ (hmore : StartsLimit more) (h : GoOn more fuel) (hle : fuel ≤ fuel') (level : Nat)
    (left : Expr) : GoesAt more r (readOperators (fuel + 1) level left) (readOperators (fuel' + 1) level left) := by
  have hnext : ∀ {r e}, GoesAt more r (limited e >>= readOperators fuel level)
      (limited e >>= readOperators fuel' level) :=
    GoesAt.limited.bind fun e _ _ => h.operators hle level e
  have hmember : ∀ {r negated}, GoesAt more r (readMembership fuel negated left >>= readOperators fuel level)
      (readMembership fuel' negated left >>= readOperators fuel' level) :=
    (h.membership hle _ _).bind fun e _ _ => h.operators hle level e
  rw [readOperators, readOperators]
  refine GoesAt.next? hmore (fun t ts ht => ?_) fun l hr hl => ?_
  · have hskip : t.token ≠ .illegal → ∀ {α : Type} {m m' : Reading α}, (∀ r, GoesAt more r m m') →
        GoesAt more r (skip >>= fun _ => m) (skip >>= fun _ => m') :=
      fun hlegal _ _ _ hm => (GoesAt.skip ht hlegal).bind fun _ r' _ => hm r'
    dsimp only
    cases hbinary : binaryOf? t.token with
    | some found =>
        exact .ite (hskip (legal_of_binaryOf? hbinary) fun _ => (h.expr hle _).bind fun _ _ _ => hnext) (.pure _)
    | none =>
        dsimp only
        refine .ite (.pure _) ?_
        refine .ifWord hmore (by decide) (fun _ => (GoesAt.acceptWord hmore (by decide)).bind
          fun _ _ _ => (GoesAt.expectWord hmore (by decide)).bind fun _ _ _ => hnext) ?_
        refine .ifWord hmore (by decide) (fun _ => hnext) ?_
        refine .ifWord hmore (by decide) (fun _ => hnext) ?_
        refine .ifWord hmore (by decide) (fun _ => hmember) ?_
        refine .test (fun hnot => hskip (legal_of_isWord hnot) fun _ => ?_) (.pure _)
        refine .ifWord hmore (by decide) (fun _ => hmember) ?_
        refine .ifWord hmore (by decide) (fun _ => (h.expr hle _).bind fun _ _ _ => hnext) ?_
        exact (GoesAt.expectWord hmore (by decide)).bind fun _ _ _ => hnext
  -- A limit ends an expression just as the end of the tokens does.
  · have hbinary : binaryOf? (.word "LIMIT") = none := by decide +kernel
    have hnot : (Token.word "LIMIT").isWord "NOT" = false := limit_isWord (by decide)
    dsimp only
    rw [hl, hbinary, hnot]
    dsimp only
    split
    · exact .pure _
    · refine .passWord hmore hr (by decide) ?_
      refine .passWord hmore hr (by decide) ?_
      refine .passWord hmore hr (by decide) ?_
      exact .passWord hmore hr (by decide) (.pure _)

theorem goOn (hmore : StartsLimit more) (fuel : Nat) : GoOn more fuel := by
  induction fuel with
  | zero => exact goOn_zero
  | succ fuel ih =>
      have hsucc : ∀ {fuel'}, fuel + 1 ≤ fuel' → ∃ k, fuel' = k + 1 ∧ fuel ≤ k :=
        fun {fuel'} hle => ⟨fuel' - 1, by omega, by omega⟩
      refine ⟨?_, ?_, ?_, ?_, ?_, ?_⟩
      · intro fuel' r hle level
        obtain ⟨k, rfl, hk⟩ := hsucc hle
        rw [readExpr, readExpr]
        exact (ih.operand hk).bind fun left _ _ => ih.operators hk level left
      · intro fuel' r hle
        obtain ⟨k, rfl, hk⟩ := hsucc hle
        exact ih.operand_succ hmore hk
      · intro fuel' r hle function offset
        obtain ⟨k, rfl, hk⟩ := hsucc hle
        exact ih.call_succ hmore hk function offset
      · intro fuel' r hle
        obtain ⟨k, rfl, hk⟩ := hsucc hle
        exact ih.exprs_succ hmore hk
      · intro fuel' r hle level left
        obtain ⟨k, rfl, hk⟩ := hsucc hle
        exact ih.operators_succ hmore hk level left
      · intro fuel' r hle negated left
        obtain ⟨k, rfl, hk⟩ := hsucc hle
        exact ih.membership_succ hmore hk negated left

theorem GoesAt.expression (hmore : StartsLimit more) : GoesAt more r expression expression := by
  intro e r' h
  exact (goOn hmore _).expr (by simp only [Reader.before, List.length_append]; omega) anyLevel e r' h

end Expressions

/-! ## Clauses -/

section Clauses

variable {α : Type} {more : List Located} {r : Reader}

theorem GoesAt.get_bind {f f' : Reader → Reading α} (h : GoesAt more r (f r) (f' (r.before more))) :
    GoesAt more r (get >>= f) (get >>= f') := h

theorem GoesAt.commaSeparated (hmore : StartsLimit more) {item : Reading α} (hitem : ∀ r, GoesAt more r item item)
    {fuel fuel' : Nat} (hle : fuel ≤ fuel') :
    GoesAt more r (commaSeparated item fuel) (commaSeparated item fuel') := by
  induction fuel generalizing fuel' r with
  | zero => exact .refuse
  | succ fuel ih =>
      obtain ⟨k, rfl⟩ : ∃ k, fuel' = k + 1 := ⟨fuel' - 1, by omega⟩
      exact (hitem r).bind fun _ _ _ => (GoesAt.acceptSign hmore).bind fun _ _ _ =>
        .ite ((ih (by omega)).bind fun _ _ _ => .pure _) (.pure _)

theorem GoesAt.readFilter (hmore : StartsLimit more) : GoesAt more r readFilter readFilter :=
  .ifWord hmore (by decide) (fun _ => (GoesAt.expression hmore).bind fun _ _ _ => .pure _) (.pure _)

theorem GoesAt.readSource (hmore : StartsLimit more) : GoesAt more r readSource readSource := by
  refine .ifWord hmore (by decide) (fun _ => ?_) (.pure _)
  refine (GoesAt.name hmore).bind fun _ _ _ => (GoesAt.acceptSign hmore).bind fun _ _ _ => .ite ?_ (.pure _)
  exact (GoesAt.expression hmore).bind fun _ _ _ => (GoesAt.expectSign hmore).bind fun _ _ _ => .pure _

theorem GoesAt.readOrderKey (hmore : StartsLimit more) : GoesAt more r readOrderKey readOrderKey := by
  refine (GoesAt.expression hmore).bind fun _ _ _ => ?_
  refine .ifWord hmore (by decide) (fun _ => .pure _) ?_
  exact (GoesAt.acceptWord hmore (by decide)).bind fun _ _ _ => .pure _

/-- The columns of a result are spelled by the tokens that they take, however many stand behind. -/
theorem GoesAt.readResultColumn (hmore : StartsLimit more) : GoesAt more r readResultColumn readResultColumn := by
  refine (GoesAt.acceptSign hmore).bind fun all r _ => .ite (.pure _) ?_
  refine .get_bind ((GoesAt.expression hmore).bind fun e r' he => .get_bind ?_)
  have hspelled : (r.before more).tokens.take ((r.before more).tokens.length - (r'.before more).tokens.length) =
      r.tokens.take (r.tokens.length - r'.tokens.length) := by
    simp only [Reader.before, List.length_append, Nat.add_sub_add_right]
    exact List.take_append_of_le_length (Nat.sub_le ..)
  dsimp only
  rw [hspelled]
  refine .ifWord hmore (by decide) (fun _ => (GoesAt.name hmore).bind fun _ _ _ => .pure _) ?_
  refine GoesAt.next? hmore (fun t ts ht => ?_) fun l hr hl => ?_
  · dsimp only [Option.bind_some]
    cases hname : nameOf? t.token with
    | some text => exact (GoesAt.skip ht (legal_of_nameOf? hname)).bind fun _ _ _ => .pure _
    | none => cases e <;> exact .pure _
  · have hname : nameOf? l.token = none := by
      rw [hl]
      decide +kernel
    dsimp only [Option.bind_some, Option.bind_none]
    rw [hname]
    cases e <;> exact .pure _

/-- Reads a selection up to its page. -/
def readAsked : Reading Selection := do
  let fuel := (← get).tokens.length
  let columns ← Reading.commaSeparated readResultColumn fuel
  let source ← Engine.readSource
  let filter ← Engine.readFilter
  let order ← do
    if ← Reading.acceptWord "ORDER" then
      Reading.expectWord "BY"
      Reading.commaSeparated Engine.readOrderKey fuel
    else pure []
  return ⟨columns, source, filter, order, none, none⟩

/-- Reads the page of a selection. -/
def readPage (s : Selection) : Reading Selection := do
  let limit ← do if ← Reading.acceptWord "LIMIT" then pure (some (← Engine.expression)) else pure none
  let offset ← do if ← Reading.acceptWord "OFFSET" then pure (some (← Engine.expression)) else pure none
  return { s with limit, offset }

theorem readSelection_eq : readSelection = readAsked >>= readPage := by
  unfold readSelection readAsked readPage
  simp only [bind_assoc, pure_bind]
  refine bind_congr fun start => bind_congr fun columns => bind_congr fun source => bind_congr fun filter => ?_
  refine bind_congr fun ordered => ?_
  cases ordered <;> simp only [bind_assoc, pure_bind, Bool.false_eq_true, if_true, if_false]

theorem GoesAt.readAsked (hmore : StartsLimit more) : GoesAt more r readAsked readAsked := by
  have hle : r.tokens.length ≤ (r.before more).tokens.length := by
    simp [Reader.before]
  refine .get_bind ((GoesAt.commaSeparated hmore (fun _ => .readResultColumn hmore) hle).bind fun _ _ _ => ?_)
  refine (GoesAt.readSource hmore).bind fun _ _ _ => (GoesAt.readFilter hmore).bind fun _ _ _ => ?_
  refine .ifWord hmore (by decide) (fun _ => (GoesAt.expectWord hmore (by decide)).bind fun _ _ _ => ?_)
    (.pure _)
  exact (GoesAt.commaSeparated hmore (fun _ => .readOrderKey hmore) hle).bind fun _ _ _ => .pure _

end Clauses

end Reading

end RecordTables.Engine
