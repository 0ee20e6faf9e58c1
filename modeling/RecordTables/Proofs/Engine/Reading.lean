import RecordTables.Engine.Grammar.Statement
import RecordTables.Proofs.Sql.Tokens

/-!
# What steps of reading take

`Takes m x y P` says that the step `m` reads on whenever it stands in front of `x`: it comes to stand in front of `y`,
and `P` holds of its result.  Only the tokens count, and not how or where they are spelled.  A step that is made of
others takes what these take one after the other.
-/

namespace RecordTables.Engine

/-- What a reader stands in front of: the tokens still to be read, and the largest number of a parameter so far. -/
structure Front where
  tokens : List Token
  parameters : Nat

def Reader.front (r : Reader) : Front := ⟨r.tokens.map Located.token, r.parameters⟩

namespace Reading

/-- The step leads from one front to another, with a result of a given kind. -/
def Takes {α : Type} (m : Reading α) (x y : Front) (P : α → Prop) : Prop :=
  ∀ r : Reader, r.front = x → ∃ a r', m r = .ok (a, r') ∧ r'.front = y ∧ P a

/-- The step fails in front of some tokens. -/
def Refuses {α : Type} (m : Reading α) (x : Front) : Prop :=
  ∀ r : Reader, r.front = x → ∃ e, m r = .error e

/-- Whatever the step reads, `P` holds of it. -/
def Gives {α : Type} (m : Reading α) (P : α → Prop) : Prop :=
  ∀ r a r', m r = .ok (a, r') → P a

section Rules

variable {α β : Type} {m : Reading α} {f : α → Reading β} {x y z : Front} {P : α → Prop} {Q : β → Prop}

theorem Takes.pure {a : α} (h : P a) : Takes (pure a) x x P := fun r hr => ⟨a, r, rfl, hr, h⟩

theorem Takes.mono {P' : α → Prop} (h : Takes m x y P) (hP : ∀ a, P a → P' a) : Takes m x y P' := by
  intro r hr
  obtain ⟨a, r', hm, hr', ha⟩ := h r hr
  exact ⟨a, r', hm, hr', hP a ha⟩

theorem Takes.bind (h : Takes m x y P) (h' : ∀ a, P a → Takes (f a) y z Q) : Takes (m >>= f) x z Q := by
  intro r hr
  obtain ⟨a, r', hm, hr', ha⟩ := h r hr
  obtain ⟨b, r'', hf, hr'', hb⟩ := h' a ha r' hr'
  refine ⟨b, r'', ?_, hr'', hb⟩
  show (m r >>= fun p => f p.1 p.2) = _
  rw [hm]
  exact hf

/-- A step with a known result goes on with it. -/
theorem Takes.bind_eq {a : α} (h : Takes m x y (· = a)) (h' : Takes (f a) y z Q) : Takes (m >>= f) x z Q :=
  h.bind fun b hb => by
    subst hb
    exact h'

theorem Takes.bind_refuses (h : Takes m x y P) (h' : ∀ a, P a → Refuses (f a) y) : Refuses (m >>= f) x := by
  intro r hr
  obtain ⟨a, r', hm, hr', ha⟩ := h r hr
  obtain ⟨e, hf⟩ := h' a ha r' hr'
  refine ⟨e, ?_⟩
  show (m r >>= fun p => f p.1 p.2) = _
  rw [hm]
  exact hf

theorem Refuses.bind (h : Refuses m x) : Refuses (m >>= f) x := by
  intro r hr
  obtain ⟨e, hm⟩ := h r hr
  refine ⟨e, ?_⟩
  show (m r >>= fun p => f p.1 p.2) = _
  rw [hm]
  rfl

/-- Two steps get through if the first does, and the second behind it. -/
theorem bind_apply_eq_ok {b : β} {r r'' : Reader} :
    (m >>= f) r = .ok (b, r'') ↔ ∃ a r', m r = .ok (a, r') ∧ f a r' = .ok (b, r'') := by
  show (m r >>= fun p => f p.1 p.2) = _ ↔ _
  cases m r with
  | error e => exact ⟨fun h => (by cases h), by rintro ⟨_, _, h, _⟩; cases h⟩
  | ok p =>
      constructor
      · exact fun h => ⟨p.1, p.2, rfl, h⟩
      · rintro ⟨a, r', h, hf⟩
        cases h
        exact hf

/-- What is read behind a step that is sure to get through, and where. -/
theorem Takes.of_bind (h : Takes m x y P) {b : β} {r r'' : Reader} (hr : r.front = x)
    (hb : (m >>= f) r = .ok (b, r'')) : ∃ a r', P a ∧ r'.front = y ∧ f a r' = .ok (b, r'') := by
  obtain ⟨a, r', hm, hr', ha⟩ := h r hr
  obtain ⟨_, _, hm', hf⟩ := bind_apply_eq_ok.1 hb
  cases hm.symm.trans hm'
  exact ⟨a, r', ha, hr', hf⟩

theorem Gives.pure {a : α} (h : P a) : Gives (Pure.pure a) P := by
  intro r b r' hb
  cases hb
  exact h

theorem Gives.bind (h : ∀ a, Gives (f a) Q) : Gives (m >>= f) Q := by
  intro r b r'' hb
  obtain ⟨a, r', -, hb⟩ := bind_apply_eq_ok.1 hb
  exact h a r' b r'' hb

theorem Gives.ite {p : Prop} [Decidable p] {m' : Reading α} (h : Gives m P) (h' : Gives m' P) :
    Gives (if p then m else m') P := by
  split
  · exact h
  · exact h'

end Rules

/-! ## Single tokens -/

variable {t : Token} {ts : List Token} {n : Nat}

/-- What stands first is looked at and not taken. -/
theorem takes_next? : Takes next? ⟨t :: ts, n⟩ ⟨t :: ts, n⟩ fun found => ∃ l, found = some l ∧ l.token = t := by
  rintro ⟨tokens, k⟩ hr
  cases tokens with
  | nil => cases hr
  | cons l rest => exact ⟨some l, ⟨l :: rest, k⟩, rfl, hr, l, rfl, (List.cons.inj (Front.mk.inj hr).1).1⟩

theorem takes_next?_end : Takes next? ⟨[], n⟩ ⟨[], n⟩ (· = none) := by
  rintro ⟨tokens, k⟩ hr
  cases tokens with
  | nil => exact ⟨none, ⟨[], k⟩, rfl, hr, rfl⟩
  | cons l rest => cases hr

theorem takes_skip : Takes skip ⟨t :: ts, n⟩ ⟨ts, n⟩ fun _ => True := by
  rintro ⟨tokens, k⟩ hr
  cases tokens with
  | nil => cases hr
  | cons l rest =>
      obtain ⟨htokens, rfl⟩ := Front.mk.inj hr
      exact ⟨(), ⟨rest, k⟩, rfl, congrArg (Front.mk · k) (List.cons.inj htokens).2, trivial⟩

theorem Reader.length_of_front {r : Reader} (h : r.front = ⟨ts, n⟩) : r.tokens.length = ts.length := by
  rw [← (Front.mk.inj h).1, List.length_map]

theorem takes_get {x : Front} : Takes get x x fun r => r.front = x := fun r hr => ⟨r, r, rfl, hr, hr⟩

theorem refuses_refuse {α : Type} {x : Front} : Refuses (refuse : Reading α) x := by
  rintro ⟨tokens, k⟩ _
  cases tokens with
  | nil => exact ⟨_, rfl⟩
  | cons l rest =>
      obtain ⟨token, raw, offset⟩ := l
      cases token with
      | illegal => exact ⟨.unrecognizedToken raw offset, rfl⟩
      | _ => exact ⟨.unexpectedToken raw offset, rfl⟩

/-- The words that the statements of the store are written with. -/
def keywords : List String :=
  ["BY", "CREATE", "DELETE", "FROM", "INDEX", "INSERT", "INTO", "KEY", "LIMIT", "NOT", "NULL", "OFFSET", "ON", "ORDER",
    "PRIMARY", "SELECT", "SET", "TABLE", "UNIQUE", "UPDATE", "VALUES", "WHERE"]

/-- They are written in capitals, and so are read as themselves and as no other word. -/
theorem isWord_keyword {w : String} (h : w ∈ keywords) (word : String) : (Token.word w).isWord word = (w == word) := by
  have hall : ∀ w ∈ keywords, w.toUpper = w := by decide +kernel
  rw [Token.isWord, hall w h]

theorem isWord_self {w : String} (h : w ∈ keywords) : (Token.word w).isWord w = true := by
  rw [isWord_keyword h, beq_self_eq_true]

theorem not_isWord_of_ne {w word : String} (h : w ∈ keywords) (hne : w ≠ word) : (Token.word w).isWord word = false := by
  rw [isWord_keyword h, beq_eq_false_iff_ne]
  exact hne

theorem takes_acceptWord {word : String} (h : t.isWord word = true) :
    Takes (acceptWord word) ⟨t :: ts, n⟩ ⟨ts, n⟩ (· = true) := by
  refine takes_next?.bind ?_
  rintro _ ⟨l, rfl, rfl⟩
  simp only [h, if_true]
  exact takes_skip.bind fun _ _ => Takes.pure rfl

/-- A word that is not there is not taken. -/
theorem takes_acceptWord_of_not {word : String} (h : ∀ t, ts.head? = some t → t.isWord word = false) :
    Takes (acceptWord word) ⟨ts, n⟩ ⟨ts, n⟩ (· = false) := by
  cases ts with
  | nil => exact takes_next?_end.bind_eq (Takes.pure rfl)
  | cons t ts =>
      refine takes_next?.bind ?_
      rintro _ ⟨l, rfl, rfl⟩
      simp only [h l.token rfl, Bool.false_eq_true, if_false]
      exact Takes.pure rfl

theorem takes_acceptSign {sign : String} (h : t.isSign sign = true) :
    Takes (acceptSign sign) ⟨t :: ts, n⟩ ⟨ts, n⟩ (· = true) := by
  refine takes_next?.bind ?_
  rintro _ ⟨l, rfl, rfl⟩
  simp only [h, if_true]
  exact takes_skip.bind fun _ _ => Takes.pure rfl

theorem takes_acceptSign_of_not {sign : String} (h : ∀ t, ts.head? = some t → t.isSign sign = false) :
    Takes (acceptSign sign) ⟨ts, n⟩ ⟨ts, n⟩ (· = false) := by
  cases ts with
  | nil => exact takes_next?_end.bind_eq (Takes.pure rfl)
  | cons t ts =>
      refine takes_next?.bind ?_
      rintro _ ⟨l, rfl, rfl⟩
      simp only [h l.token rfl, Bool.false_eq_true, if_false]
      exact Takes.pure rfl

theorem takes_expectWord {word : String} (h : t.isWord word = true) :
    Takes (expectWord word) ⟨t :: ts, n⟩ ⟨ts, n⟩ fun _ => True :=
  (takes_acceptWord h).bind_eq (Takes.pure trivial)

theorem takes_expectSign {sign : String} (h : t.isSign sign = true) :
    Takes (expectSign sign) ⟨t :: ts, n⟩ ⟨ts, n⟩ fun _ => True :=
  (takes_acceptSign h).bind_eq (Takes.pure trivial)

/-- A quoted name is taken whatever it is. -/
theorem takes_name {s : String} : Takes name ⟨.name s :: ts, n⟩ ⟨ts, n⟩ fun p => p.1 = s := by
  refine takes_next?.bind ?_
  rintro _ ⟨l, rfl, hl⟩
  simp only [hl, nameOf?]
  exact takes_skip.bind fun _ _ => Takes.pure rfl

theorem refuses_name (h : nameOf? t = none) : Refuses name ⟨t :: ts, n⟩ := by
  refine takes_next?.bind_refuses ?_
  rintro _ ⟨l, rfl, rfl⟩
  simp only [h]
  exact refuses_refuse

/-- A mark without a number is the parameter behind those so far. -/
theorem takes_parameter {offset : Nat} (h : n < maxParameter) :
    Takes (parameter none offset) ⟨ts, n⟩ ⟨ts, n + 1⟩ (· = .parameter (n + 1)) := by
  rintro ⟨tokens, k⟩ hr
  obtain ⟨rfl, hk⟩ := Front.mk.inj hr
  change k = n at hk
  subst hk
  have hsmall : ¬ maxParameter < k + 1 := by omega
  refine ⟨_, ⟨tokens, max k (k + 1)⟩, ?_, ?_, rfl⟩
  · show (if maxParameter < k + 1 then _ else _ : Reading Expr) _ = _
    rw [if_neg hsmall]
    rfl
  · rw [Nat.max_eq_right (by omega)]
    rfl

/-! ## Lists -/

/-- What is made of items in a row, each of which takes as many parameters as the others. -/
def counted {α β : Type} (value : Nat → β → α) (width : Nat) : Nat → List β → List α
  | _, [] => []
  | n, x :: xs => value n x :: counted value width (n + width) xs

theorem counted_zero {α β : Type} (value : β → α) (n : Nat) (xs : List β) :
    counted (fun _ => value) 0 n xs = xs.map value := by
  induction xs with
  | nil => rfl
  | cons x xs ih => rw [counted, List.map_cons, Nat.add_zero, ih]

theorem counted_one {α β : Type} (value : Nat → β → α) (n : Nat) (xs : List β) :
    counted value 1 n xs = (xs.zipIdx n).map fun p => value p.2 p.1 := by
  induction xs generalizing n with
  | nil => rfl
  | cons x xs ih => rw [counted, List.zipIdx_cons, List.map_cons, ih]

/-- What stands behind an item of a list: a comma, or what comes after the list. -/
def Follows (more rest : List Token) : Prop := (∃ us, rest = .sign "," :: us) ∨ rest = more

theorem commas_cons_cons (first second : List Token) (others : List (List Token)) :
    Token.commas (first :: second :: others) = first ++ .sign "," :: Token.commas (second :: others) := by
  rw [Token.commas, List.intercalate_cons_cons, List.append_assoc, List.singleton_append, Token.commas]

theorem commas_singleton (only : List Token) : Token.commas [only] = only := List.intercalate_singleton

/-- There are at least as many tokens as items. -/
theorem length_le_commas {items : List (List Token)} (h : ∀ item ∈ items, item ≠ []) :
    items.length ≤ (Token.commas items).length := by
  induction items with
  | nil => exact Nat.zero_le _
  | cons first items ih =>
      rw [List.forall_mem_cons] at h
      have hfirst := List.length_pos_iff.2 h.1
      cases items with
      | nil => rwa [commas_singleton]
      | cons second others =>
          have hothers := ih h.2
          rw [commas_cons_cons, List.length_append, List.length_cons, List.length_cons (a := Token.sign ",")]
          omega

section Lists

variable {α β : Type} (item : Reading α) (tokens : β → List Token) (value : Nat → β → α) (width : Nat)
  {more : List Token}

/-- A list is taken item by item, as long as no comma follows it. -/
theorem takes_commaSeparated (hmore : ∀ t, more.head? = some t → t.isSign "," = false) {xs : List β} (hne : xs ≠ [])
    (hitem : ∀ x ∈ xs, ∀ k, k + width ≤ n + width * xs.length → ∀ rest, Follows more rest →
      Takes item ⟨tokens x ++ rest, k⟩ ⟨rest, k + width⟩ (· = value k x)) {fuel : Nat} (hfuel : xs.length ≤ fuel) :
    Takes (commaSeparated item fuel) ⟨Token.commas (xs.map tokens) ++ more, n⟩ ⟨more, n + width * xs.length⟩
      (· = counted value width n xs) := by
  induction xs generalizing n fuel with
  | nil => exact absurd rfl hne
  | cons x xs ih =>
      obtain ⟨fuel, rfl⟩ : ∃ k, fuel = k + 1 := ⟨fuel - 1, by simp at hfuel; omega⟩
      cases xs with
      | nil =>
          rw [List.map_singleton, commas_singleton]
          refine (hitem x (List.mem_singleton_self x) n (by simp) more (.inr rfl)).bind_eq ?_
          refine (takes_acceptSign_of_not hmore).bind_eq ?_
          rw [List.length_singleton, Nat.mul_one]
          exact Takes.pure rfl
      | cons y ys =>
          rw [List.map_cons, List.map_cons, commas_cons_cons, List.append_assoc, List.cons_append]
          have hlength : n + width * (x :: y :: ys).length = n + width + width * (y :: ys).length := by
            rw [List.length_cons, Nat.mul_succ]
            omega
          rw [hlength] at hitem ⊢
          refine (hitem x (List.mem_cons_self ..) n (Nat.le_add_right ..) _ (.inl ⟨_, rfl⟩)).bind_eq ?_
          refine (takes_acceptSign rfl).bind_eq ?_
          have hshort : (y :: ys).length ≤ fuel := by simp only [List.length_cons] at hfuel ⊢; omega
          have hrest := ih (n := n + width) (by simp) (fun z hz => hitem z (List.mem_cons_of_mem _ hz)) hshort
          rw [List.map_cons] at hrest
          exact hrest.bind_eq (Takes.pure rfl)

end Lists

end Reading

end RecordTables.Engine
