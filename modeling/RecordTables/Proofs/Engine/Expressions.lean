import RecordTables.Engine.Plan
import RecordTables.Proofs.Engine.Reading

/-!
# Expressions read back

The expressions of written statements are names, marks, and conjunctions of equalities of a name with a mark.  A
condition on a key is read as one equality for each of its columns, whose parameters are numbered in their order.
-/

namespace RecordTables.Engine.Reading

variable {fuel level n : Nat} {ts more : List Token}

/-! ## Ends of expressions -/

/-- Whether an expression of a level ends in front of a token. -/
def closes (level : Nat) (t : Token) : Bool :=
  match binaryOf? t with
  | some (own, _) => decide (own < level)
  | none => decide (testLevel < level) || ["IS", "ISNULL", "NOTNULL", "IN", "NOT"].all fun w => !t.isWord w

/-- Whether an expression of a level ends in front of all that follows. -/
def Closes (level : Nat) (ts : List Token) : Prop := ∀ t, ts.head? = some t → closes level t = true

theorem closes_cons {t : Token} (h : closes level t = true) : Closes level (t :: ts) := by
  intro u hu
  cases hu
  exact h

/-- Tokens that end every expression in front of them. -/
def closers : List Token := [.sign ")", .sign ",", .word "WHERE", .word "OFFSET"]

theorem closes_of_mem {t : Token} (h : t ∈ closers) : closes anyLevel t = true := by
  have hall : ∀ t ∈ closers, closes anyLevel t = true := by decide +kernel
  exact hall t h

/-- What ends an expression ends all that binds closer. -/
theorem Closes.mono {level' : Nat} (h : Closes level ts) (hle : level ≤ level') : Closes level' ts := by
  intro t ht
  have hcloses := h t ht
  unfold closes at hcloses ⊢
  split at hcloses
  · simp only [decide_eq_true_eq] at hcloses ⊢
    omega
  · simp only [Bool.or_eq_true, decide_eq_true_eq] at hcloses ⊢
    rcases hcloses with hcloses | hcloses
    · exact .inl (by omega)
    · exact .inr hcloses

theorem closes_nil : Closes level [] := fun _ h => by cases h

theorem takes_readOperators_end {left : Expr} (h : Closes level ts) :
    Takes (readOperators (fuel + 1) level left) ⟨ts, n⟩ ⟨ts, n⟩ (· = left) := by
  rw [readOperators]
  cases ts with
  | nil => exact takes_next?_end.bind_eq (Takes.pure rfl)
  | cons t ts =>
      have ht := h t rfl
      refine takes_next?.bind ?_
      rintro _ ⟨l, rfl, rfl⟩
      unfold closes at ht
      dsimp only
      split
      · rename_i own build hbinary
        simp only [hbinary, decide_eq_true_eq] at ht
        rw [if_neg (by omega)]
        exact Takes.pure rfl
      · rename_i hbinary
        simp only [hbinary, Bool.or_eq_true, decide_eq_true_eq, List.all_cons, List.all_nil, Bool.and_true,
          Bool.and_eq_true, Bool.not_eq_true'] at ht
        split
        · exact Takes.pure rfl
        · rename_i hlevel
          obtain ⟨his, hisnull, hnotnull, hin, hnot⟩ := ht.resolve_left hlevel
          have hnone : ∀ {w : String}, l.token.isWord w = false → ∀ t, (l.token :: ts).head? = some t →
              t.isWord w = false := by
            intro w hw t ht
            cases ht
            exact hw
          refine (takes_acceptWord_of_not (hnone his)).bind_eq ?_
          refine (takes_acceptWord_of_not (hnone hisnull)).bind_eq ?_
          refine (takes_acceptWord_of_not (hnone hnotnull)).bind_eq ?_
          refine (takes_acceptWord_of_not (hnone hin)).bind_eq ?_
          simp only [hnot, Bool.false_eq_true, if_false]
          exact Takes.pure rfl

/-! ## Names and marks -/

theorem takes_readOperand_name {s : String} :
    Takes (readOperand (fuel + 1)) ⟨.name s :: ts, n⟩ ⟨ts, n⟩ fun e => ∃ offset, e = .name s true offset := by
  rw [readOperand]
  refine takes_next?.bind ?_
  rintro _ ⟨l, rfl, hl⟩
  simp only [hl]
  exact takes_skip.bind fun _ _ => Takes.pure ⟨_, rfl⟩

theorem takes_readExpr_name {s : String} (h : Closes level ts) :
    Takes (readExpr (fuel + 2) level) ⟨.name s :: ts, n⟩ ⟨ts, n⟩ fun e => ∃ offset, e = .name s true offset := by
  rw [readExpr]
  refine takes_readOperand_name.bind ?_
  rintro _ ⟨offset, rfl⟩
  exact (takes_readOperators_end h).mono fun e he => ⟨offset, he⟩

theorem takes_readExpr_mark (h : Closes level ts) (hn : n < maxParameter) :
    Takes (readExpr (fuel + 2) level) ⟨.mark none :: ts, n⟩ ⟨ts, n + 1⟩ (· = .parameter (n + 1)) := by
  rw [readExpr]
  refine Takes.bind_eq (a := Expr.parameter (n + 1)) (y := ⟨ts, n + 1⟩) ?_ (takes_readOperators_end h)
  rw [readOperand]
  refine takes_next?.bind ?_
  rintro _ ⟨l, rfl, hl⟩
  simp only [hl]
  exact takes_skip.bind fun _ _ => takes_parameter hn

theorem takes_limited {e : Expr} (h : e.height ≤ maxHeight) {x : Front} : Takes (limited e) x x (· = e) := by
  rw [limited, if_neg (by omega)]
  exact Takes.pure rfl

/-! ## Lists of marks -/

/-- A row of values is read as the parameters that are next. -/
theorem takes_readExprs_marks (count : Nat) (hcount : count ≠ 0) (hfuel : count + 3 ≤ fuel)
    (hmore : ∀ t, more.head? = some t → t.isSign "," = false) (hcloses : Closes anyLevel more)
    (hn : n + count ≤ maxParameter) :
    Takes (readExprs fuel) ⟨Token.commas (List.replicate count [.mark none]) ++ more, n⟩ ⟨more, n + count⟩
      (· = (List.range' (n + 1) count).map .parameter) := by
  induction count generalizing n fuel with
  | zero => exact absurd rfl hcount
  | succ count ih =>
      obtain ⟨fuel, rfl⟩ : ∃ k, fuel = k + 3 := ⟨fuel - 3, by omega⟩
      rw [readExprs]
      cases count with
      | zero =>
          rw [List.replicate_one, commas_singleton]
          refine (takes_readExpr_mark hcloses (by omega)).bind_eq ?_
          exact (takes_acceptSign_of_not hmore).bind_eq (Takes.pure rfl)
      | succ count =>
          have hcomma : closes anyLevel (.sign ",") = true := closes_of_mem (by simp [closers])
          rw [List.replicate_succ, List.replicate_succ, commas_cons_cons, ← List.replicate_succ, List.singleton_append,
            List.cons_append, List.cons_append]
          refine (takes_readExpr_mark (closes_cons hcomma) (by omega)).bind_eq ?_
          refine (takes_acceptSign rfl).bind_eq ?_
          have henough : count + 1 + 3 ≤ fuel + 2 := by omega
          have hrest := ih (n := n + 1) (by omega) henough (by omega)
          rw [show n + 1 + (count + 1) = n + (count + 1 + 1) from by omega] at hrest
          exact hrest.bind_eq (Takes.pure rfl)

/-! ## Conditions on a key -/

/-- An expression of which the names have a meaning in a table; it is not too high, and no constant. -/
structure Means (columns : List String) (height : Nat) (e planned : Expr) : Prop where
  resolves : resolve columns e = .ok planned
  low : e.height ≤ height
  asks : e.isFalsehood = false

/-- The equality of a column with a parameter. -/
def equality (column parameter : Nat) : Expr := .compare .equal (.column column) (.parameter parameter)

/-- A condition and further equalities behind it, whose parameters follow each other. -/
def withEqualities (left : Expr) : Nat → List Nat → Expr
  | _, [] => left
  | n, i :: rest => withEqualities (.and left (equality i (n + 1))) (n + 1) rest

/-- The tokens of the equality of a name with a mark. -/
def equalityTokens (name : String) : List Token := [.name name, .sign "=", .mark none]

variable {columns : List String} {name : String} {i : Nat}

/-- The sign and the mark behind a name make it an equality, and reading goes on behind them. -/
theorem takes_readOperators_equal {offset : Nat} {y : Front} {P : Expr → Prop} (hlevel : level ≤ 4)
    (hcloses : Closes 5 more) (hn : n < maxParameter)
    (h : Takes (readOperators (fuel + 2) level (.compare .equal (.name name true offset) (.parameter (n + 1))))
      ⟨more, n + 1⟩ y P) :
    Takes (readOperators (fuel + 3) level (.name name true offset)) ⟨.sign "=" :: .mark none :: more, n⟩ y P := by
  have hbinary : binaryOf? (.sign "=") = some (4, .compare .equal) := rfl
  rw [readOperators]
  refine takes_next?.bind ?_
  rintro _ ⟨l, rfl, hl⟩
  simp only [hl, hbinary, hlevel, if_true]
  refine takes_skip.bind fun _ _ => ?_
  refine (takes_readExpr_mark hcloses hn).bind_eq ?_
  refine (takes_limited ?_).bind_eq h
  simp [Expr.height, maxHeight]

theorem means_equality {offset k : Nat} (hcolumn : columns.findIdx? (sameName · name) = some i) :
    Means columns 2 (.compare .equal (.name name true offset) (.parameter k)) (equality i k) where
  resolves := by
    simp only [resolve, hcolumn, bind, Except.bind, pure, Except.pure, equality]
  low := by simp [Expr.height]
  asks := rfl

/-- An equality is read as one where nothing behind it binds closer. -/
theorem takes_readExpr_equality (hcolumn : columns.findIdx? (sameName · name) = some i) (hlevel : level ≤ 4)
    (hcloses : Closes level more) (hcloses' : Closes 5 more) (hn : n < maxParameter) :
    Takes (readExpr (fuel + 4) level) ⟨equalityTokens name ++ more, n⟩ ⟨more, n + 1⟩
      (Means columns 2 · (equality i (n + 1))) := by
  rw [readExpr]
  refine takes_readOperand_name.bind ?_
  rintro _ ⟨offset, rfl⟩
  refine takes_readOperators_equal hlevel hcloses' hn ?_
  refine (takes_readOperators_end hcloses).mono ?_
  rintro _ rfl
  exact means_equality hcolumn

/-- The tokens of further equalities. -/
def furtherTokens (names : List String) : List Token := names.flatMap fun name => .word "AND" :: equalityTokens name

theorem binaryOf?_and : binaryOf? (.word "AND") = some (2, .both) := by
  have hor : (Token.word "AND").isWord "OR" = false := by decide +kernel
  have hand : (Token.word "AND").isWord "AND" = true := by decide +kernel
  simp only [binaryOf?, hor, hand, Bool.false_eq_true, if_false, if_true]

/-- Whatever binds closer than `AND` ends in front of a further equality. -/
theorem closes_furtherTokens (names : List String) (hmore : Closes anyLevel more) (hlevel : 2 < level) :
    Closes level (furtherTokens names ++ more) := by
  cases names with
  | nil => exact hmore.mono (by unfold anyLevel; omega)
  | cons name names =>
      apply closes_cons
      simp only [closes, binaryOf?_and, hlevel, decide_true]

/-- The height of a condition grows with each further equality. -/
theorem Means.and {height : Nat} {left planned e : Expr} {k : Nat} (hleft : Means columns height left planned)
    (hright : Means columns 2 e (equality i k)) (hheight : 2 ≤ height) :
    Means columns (height + 1) (.and left e) (.and planned (equality i k)) where
  resolves := by
    simp only [resolve, hleft.resolves, hright.resolves, bind, Except.bind, pure, Except.pure]
  low := by
    have hlow := hleft.low
    have hlow' := hright.low
    simp only [Expr.height]
    omega
  asks := rfl

/-- Equalities with `AND` between them are read one by one. -/
theorem takes_readOperators_key {left planned : Expr} {height : Nat} (hmore : Closes anyLevel more)
    {key : List (String × Nat)} (hkey : ∀ p ∈ key, columns.findIdx? (sameName · p.1) = some p.2)
    (hleft : Means columns height left planned) (hheight : 2 ≤ height) (hlow : height + key.length ≤ maxHeight)
    (hn : n + key.length ≤ maxParameter) (hfuel : key.length + 5 ≤ fuel) :
    Takes (readOperators fuel anyLevel left) ⟨furtherTokens (key.map Prod.fst) ++ more, n⟩ ⟨more, n + key.length⟩
      (Means columns (height + key.length) · (withEqualities planned n (key.map Prod.snd))) := by
  induction key generalizing left planned height n fuel with
  | nil =>
      obtain ⟨fuel, rfl⟩ : ∃ k, fuel = k + 1 := ⟨fuel - 1, by simp at hfuel; omega⟩
      refine (takes_readOperators_end hmore).mono ?_
      rintro _ rfl
      exact hleft
  | cons p key ih =>
      obtain ⟨name, i⟩ := p
      obtain ⟨fuel, rfl⟩ : ∃ k, fuel = k + 5 := ⟨fuel - 5, by simp at hfuel; omega⟩
      rw [List.forall_mem_cons] at hkey
      simp only [List.length_cons] at hlow hn hfuel ⊢
      have hsplit : furtherTokens (((name, i) :: key).map Prod.fst) ++ more =
          .word "AND" :: (equalityTokens name ++ (furtherTokens (key.map Prod.fst) ++ more)) := by
        simp [furtherTokens]
      rw [hsplit, readOperators]
      refine takes_next?.bind ?_
      rintro _ ⟨l, rfl, hl⟩
      have hlevel : anyLevel ≤ 2 := by decide
      simp only [hl, binaryOf?_and, hlevel, if_true]
      refine takes_skip.bind fun _ _ => ?_
      refine (takes_readExpr_equality hkey.1 (by omega) (closes_furtherTokens _ hmore (by omega))
        (closes_furtherTokens _ hmore (by omega)) (by omega)).bind ?_
      intro right hright
      have hboth : Expr.both left right = .and left right := by
        simp only [Expr.both, hleft.asks, hright.asks, Bool.or_self, Bool.false_eq_true, if_false]
      have hmeans := hleft.and hright hheight
      have hlimited := hmeans.low
      rw [hboth]
      refine (takes_limited (by omega)).bind_eq ?_
      have henough : key.length + 5 ≤ fuel + 4 := by omega
      have hrest := ih (n := n + 1) hkey.2 hmeans (by omega) (by omega) (by omega) henough
      rw [show n + 1 + key.length = n + (key.length + 1) from by omega,
        show height + 1 + key.length = height + (key.length + 1) from by omega] at hrest
      exact hrest

theorem length_furtherTokens (names : List String) : (furtherTokens names).length = 4 * names.length := by
  induction names with
  | nil => rfl
  | cons name names ih =>
      have hsplit : furtherTokens (name :: names) = (.word "AND" :: equalityTokens name) ++ furtherTokens names := rfl
      rw [hsplit, List.length_append, ih]
      simp only [equalityTokens, List.length_cons, List.length_nil]
      omega

theorem takes_fuelFor : Takes fuelFor ⟨ts, n⟩ ⟨ts, n⟩ (· = 8 * ts.length + 8) :=
  takes_get.bind fun _ hr => Takes.pure (by rw [Reader.length_of_front hr])

theorem takes_expression_name {s : String} (h : Closes anyLevel ts) :
    Takes expression ⟨.name s :: ts, n⟩ ⟨ts, n⟩ fun e => ∃ offset, e = .name s true offset :=
  takes_fuelFor.bind_eq (takes_readExpr_name h)

theorem takes_expression_mark (h : Closes anyLevel ts) (hn : n < maxParameter) :
    Takes expression ⟨.mark none :: ts, n⟩ ⟨ts, n + 1⟩ (· = .parameter (n + 1)) :=
  takes_fuelFor.bind_eq (takes_readExpr_mark h hn)

/-- The condition on a key, with one equality for each of its columns. -/
theorem takes_expression_key (hmore : Closes anyLevel more) {first : String × Nat} {key : List (String × Nat)}
    (hkey : ∀ p ∈ first :: key, columns.findIdx? (sameName · p.1) = some p.2) (hlow : key.length + 2 ≤ maxHeight)
    (hn : n + (key.length + 1) ≤ maxParameter) :
    Takes expression ⟨equalityTokens first.1 ++ (furtherTokens (key.map Prod.fst) ++ more), n⟩
      ⟨more, n + (key.length + 1)⟩
      (fun e => resolve columns e = .ok (withEqualities (equality first.2 (n + 1)) (n + 1) (key.map Prod.snd))) := by
  rw [List.forall_mem_cons] at hkey
  refine takes_fuelFor.bind_eq ?_
  generalize hwhole : (equalityTokens first.1 ++ (furtherTokens (key.map Prod.fst) ++ more)).length = length
  have hfuel : 4 * key.length + 3 ≤ length := by
    rw [← hwhole, List.length_append, List.length_append, length_furtherTokens, List.length_map]
    simp only [equalityTokens, List.length_cons, List.length_nil]
    omega
  obtain ⟨fuel, hfuel, henough⟩ : ∃ fuel, 8 * length + 8 = fuel + 4 ∧ key.length + 5 ≤ fuel + 2 :=
    ⟨8 * length + 4, rfl, by omega⟩
  rw [hfuel, readExpr]
  refine Takes.bind (takes_readOperand_name) ?_
  rintro _ ⟨offset, rfl⟩
  refine takes_readOperators_equal (by decide) (closes_furtherTokens _ hmore (by omega)) (by omega) ?_
  have hmeans : Means columns 2 (.compare .equal (.name first.1 true offset) (.parameter (n + 1)))
      (equality first.2 (n + 1)) := means_equality hkey.1
  have hbound : n + 1 + key.length ≤ maxParameter := by omega
  have hkeys := takes_readOperators_key hmore hkey.2 hmeans (Nat.le_refl 2) (by omega) hbound henough
  rw [show n + 1 + key.length = n + (key.length + 1) from by omega] at hkeys
  exact hkeys.mono fun e he => he.resolves

end RecordTables.Engine.Reading
