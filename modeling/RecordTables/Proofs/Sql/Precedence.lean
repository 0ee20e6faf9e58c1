import RecordTables.Engine.Evaluate
import RecordTables.Proofs.Sql.Boundaries

/-!
# Conditions read back by precedence

A condition is written without parentheses, so its text can mean what the tree means only if the tree agrees with
the precedence of the operators.  `ReadsDisjunction` is the grammar of conditions: `NOT` binds looser than a test,
`AND` looser than `NOT` and `OR` looser than `AND`, and chains of `AND` and of `OR` group to the left.  A tree that
agrees with it may come back grouped differently, but with the same conditions in the same order and the same truth
value for every truth of these.
-/

namespace RecordTables.Sql

open RecordTables.Engine (Token truthAnd truthOr truthNot)
open RecordTables.Engine.Token (ofChars ofChars_nil ends_nil ofComparison)

/-! ## The grammar -/

/-- A test of one column, with the values of its marks from left to right. -/
inductive ReadsTest : List Token → List Value → Predicate → Prop where
  | isNull (column : String) :
      ReadsTest [.name column, .word "IS", .word "NULL"] [] (.isNull column)
  | isIn (column : String) (values : List Value) :
      ReadsTest (.name column :: .word "IN" :: .sign "(" ::
        (Token.commas (values.map fun _ => [.mark none]) ++ [.sign ")"])) values (.isIn column values)
  | compare (column : String) (comparison : Comparison) (value : Value) :
      ReadsTest [.name column, ofComparison comparison, .mark none] [value] (.compare column comparison value)

/-- A test behind any number of negations. -/
inductive ReadsNegation : List Token → List Value → Predicate → Prop where
  | test {ts : List Token} {vs : List Value} {p : Predicate} (h : ReadsTest ts vs p) : ReadsNegation ts vs p
  | not {ts : List Token} {vs : List Value} {p : Predicate} (h : ReadsNegation ts vs p) :
      ReadsNegation (.word "NOT" :: ts) vs (.not p)

/-- Items with a word between any two of them, grouped to the left. -/
inductive ReadsChain (word : String) (join : Predicate → Predicate → Predicate)
    (Item : List Token → List Value → Predicate → Prop) : List Token → List Value → Predicate → Prop where
  | item {ts : List Token} {vs : List Value} {p : Predicate} (h : Item ts vs p) : ReadsChain word join Item ts vs p
  | more {ts ts' : List Token} {vs vs' : List Value} {p p' : Predicate} (h : ReadsChain word join Item ts vs p)
      (h' : Item ts' vs' p') : ReadsChain word join Item (ts ++ .word word :: ts') (vs ++ vs') (join p p')

def ReadsConjunction : List Token → List Value → Predicate → Prop := ReadsChain "AND" .and ReadsNegation

/-- A condition of the language, with the values of its marks from left to right. -/
def ReadsDisjunction : List Token → List Value → Predicate → Prop := ReadsChain "OR" .or ReadsConjunction

/-! ## Truth of a tree -/

namespace Predicate

/-- The tests of a tree from left to right. -/
def leaves : Predicate → List Predicate
  | .and left right => left.leaves ++ right.leaves
  | .or left right => left.leaves ++ right.leaves
  | .not body => body.leaves
  | p => [p]

/-- The truth of a tree, given the truth of each of its tests by the place of the test; `first` is the place of its
first one. -/
def truth (leaf : Nat → Option Bool) : Predicate → Nat → Option Bool
  | .and left right, first => truthAnd (left.truth leaf first) (right.truth leaf (first + left.leaves.length))
  | .or left right, first => truthOr (left.truth leaf first) (right.truth leaf (first + left.leaves.length))
  | .not body, first => truthNot (body.truth leaf first)
  | _, first => leaf first

/-- Trees of the same tests in the same order that are true, false and unknown together. -/
def Alike (p q : Predicate) : Prop :=
  p.leaves = q.leaves ∧ ∀ (leaf : Nat → Option Bool) (first : Nat), p.truth leaf first = q.truth leaf first

theorem Alike.refl (p : Predicate) : Alike p p := ⟨rfl, fun _ _ => rfl⟩

theorem Alike.trans {p q r : Predicate} (h : Alike p q) (h' : Alike q r) : Alike p r :=
  ⟨h.1.trans h'.1, fun leaf first => (h.2 leaf first).trans (h'.2 leaf first)⟩

theorem truthAnd_assoc (a b c : Option Bool) : truthAnd (truthAnd a b) c = truthAnd a (truthAnd b c) := by
  rcases a with _ | _ | _ <;> rcases b with _ | _ | _ <;> rcases c with _ | _ | _ <;> rfl

theorem truthOr_assoc (a b c : Option Bool) : truthOr (truthOr a b) c = truthOr a (truthOr b c) := by
  rcases a with _ | _ | _ <;> rcases b with _ | _ | _ <;> rcases c with _ | _ | _ <;> rfl

/-- An operator whose chains mean the same however they are grouped. -/
structure Chains (join : Predicate → Predicate → Predicate) : Prop where
  congr : ∀ {p p' q q' : Predicate}, Alike p p' → Alike q q' → Alike (join p q) (join p' q')
  assoc : ∀ p q r : Predicate, Alike (join (join p q) r) (join p (join q r))

theorem chains_and : Chains .and where
  congr := by
    intro p p' q q' hp hq
    refine ⟨by simp only [leaves, hp.1, hq.1], ?_⟩
    intro leaf first
    simp only [truth, hp.2, hq.2, hp.1]
  assoc := by
    intro p q r
    refine ⟨by simp only [leaves, List.append_assoc], ?_⟩
    intro leaf first
    simp only [truth, leaves, List.length_append, truthAnd_assoc, Nat.add_assoc]

theorem chains_or : Chains .or where
  congr := by
    intro p p' q q' hp hq
    refine ⟨by simp only [leaves, hp.1, hq.1], ?_⟩
    intro leaf first
    simp only [truth, hp.2, hq.2, hp.1]
  assoc := by
    intro p q r
    refine ⟨by simp only [leaves, List.append_assoc], ?_⟩
    intro leaf first
    simp only [truth, leaves, List.length_append, truthOr_assoc, Nat.add_assoc]

/-! ## Trees that agree with the precedence -/

/-- Whether a disjunction occurs in a tree. -/
def hasOr : Predicate → Bool
  | .and left right => left.hasOr || right.hasOr
  | .or _ _ => true
  | .not body => body.hasOr
  | _ => false

/-- Whether a conjunction occurs in a tree. -/
def hasAnd : Predicate → Bool
  | .and _ _ => true
  | .or left right => left.hasAnd || right.hasAnd
  | .not body => body.hasAnd
  | _ => false

/-- No disjunction stands below a conjunction or a negation, and no conjunction below a negation. -/
def respectsPrecedence : Predicate → Bool
  | .and left right => !left.hasOr && !right.hasOr && left.respectsPrecedence && right.respectsPrecedence
  | .or left right => left.respectsPrecedence && right.respectsPrecedence
  | .not body => !body.hasOr && !body.hasAnd && body.respectsPrecedence
  | _ => true

end Predicate

/-! ## Every text has a reading -/

open Predicate (Alike Chains chains_and chains_or)

/-- A chain behind a chain is one chain, grouped to the left. -/
theorem ReadsChain.append {word : String} {join : Predicate → Predicate → Predicate}
    {Item : List Token → List Value → Predicate → Prop} (hjoin : Chains join) {ts ts' : List Token}
    {vs vs' : List Value} {p p' : Predicate} (h : ReadsChain word join Item ts vs p)
    (h' : ReadsChain word join Item ts' vs' p') :
    ∃ q, ReadsChain word join Item (ts ++ .word word :: ts') (vs ++ vs') q ∧ Alike q (join p p') := by
  -- Chains group to the left, so the second chain is moved over item by item, from its first.
  induction h' with
  | item h' => exact ⟨_, .more h h', Alike.refl _⟩
  | @more us us' ws ws' q q' _ hlast ih =>
      obtain ⟨r, hr, halike⟩ := ih
      refine ⟨join r q', ?_, ?_⟩
      · have hmore := ReadsChain.more hr hlast
        rwa [List.append_assoc, List.cons_append, List.append_assoc] at hmore
      · exact (hjoin.congr halike (Alike.refl q')).trans (hjoin.assoc p q q')

theorem tokens_and (left right : Predicate) :
    (Predicate.and left right).tokens = left.tokens ++ .word "AND" :: right.tokens := by
  simp [Predicate.tokens, Predicate.parts, Part.token]

theorem tokens_or (left right : Predicate) :
    (Predicate.or left right).tokens = left.tokens ++ .word "OR" :: right.tokens := by
  simp [Predicate.tokens, Predicate.parts, Part.token]

theorem tokens_isIn (column : String) (values : List Value) :
    (Predicate.isIn column values).tokens = .name column :: .word "IN" :: .sign "(" ::
      (Token.commas (values.map fun _ => [.mark none]) ++ [.sign ")"]) := by
  simp [Predicate.tokens, Predicate.parts, Part.token, Part.map_token_commas, Function.comp_def]

theorem tokens_compare (column : String) (comparison : Comparison) (value : Value) :
    (Predicate.compare column comparison value).tokens =
      [.name column, ofComparison comparison, .mark none] := by
  cases comparison <;> rfl

/-- A tree of tests and negations reads as itself. -/
theorem readsNegation_tokens {p : Predicate} (hor : p.hasOr = false) (hand : p.hasAnd = false) :
    ReadsNegation p.tokens p.params p := by
  induction p with
  | and left right => simp [Predicate.hasAnd] at hand
  | or left right => simp [Predicate.hasOr] at hor
  | not body ih =>
      simp only [Predicate.hasOr, Predicate.hasAnd] at hor hand
      exact .not (ih hor hand)
  | isNull column => exact .test (.isNull column)
  | isIn column values =>
      rw [tokens_isIn]
      exact .test (.isIn column values)
  | compare column comparison value =>
      rw [tokens_compare]
      exact .test (.compare column comparison value)

theorem readsConjunction_tokens {p : Predicate} (hor : p.hasOr = false) (h : p.respectsPrecedence = true) :
    ∃ q, ReadsConjunction p.tokens p.params q ∧ Alike q p := by
  induction p with
  | and left right ihl ihr =>
      simp only [Predicate.hasOr, Bool.or_eq_false_iff] at hor
      simp only [Predicate.respectsPrecedence, Bool.and_eq_true] at h
      obtain ⟨ql, hql, hleft⟩ := ihl hor.1 h.1.2
      obtain ⟨qr, hqr, hright⟩ := ihr hor.2 h.2
      obtain ⟨q, hq, halike⟩ := ReadsChain.append chains_and hql hqr
      rw [tokens_and]
      exact ⟨q, hq, halike.trans (chains_and.congr hleft hright)⟩
  | or left right => simp [Predicate.hasOr] at hor
  | not body =>
      simp only [Predicate.respectsPrecedence, Bool.and_eq_true, Bool.not_eq_true'] at h
      exact ⟨_, .item (readsNegation_tokens hor h.1.2), Alike.refl _⟩
  | isNull column => exact ⟨_, .item (readsNegation_tokens rfl rfl), Alike.refl _⟩
  | isIn column values => exact ⟨_, .item (readsNegation_tokens rfl rfl), Alike.refl _⟩
  | compare column comparison value => exact ⟨_, .item (readsNegation_tokens rfl rfl), Alike.refl _⟩

/-- Every tree that agrees with the precedence has a reading that means what the tree means. -/
theorem readsDisjunction_tokens {p : Predicate} (h : p.respectsPrecedence = true) :
    ∃ q, ReadsDisjunction p.tokens p.params q ∧ Alike q p := by
  -- Only a disjunction at the top lets the tree hold any; every other tree is one conjunction.
  have hconjunction : ∀ p : Predicate, p.hasOr = false → p.respectsPrecedence = true →
      ∃ q, ReadsDisjunction p.tokens p.params q ∧ Alike q p := by
    intro p hor hp
    obtain ⟨q, hq, halike⟩ := readsConjunction_tokens hor hp
    exact ⟨q, .item hq, halike⟩
  induction p with
  | or left right ihl ihr =>
      simp only [Predicate.respectsPrecedence, Bool.and_eq_true] at h
      obtain ⟨ql, hql, hleft⟩ := ihl h.1
      obtain ⟨qr, hqr, hright⟩ := ihr h.2
      obtain ⟨q, hq, halike⟩ := ReadsChain.append chains_or hql hqr
      rw [tokens_or]
      exact ⟨q, hq, halike.trans (chains_or.congr hleft hright)⟩
  | and left right =>
      refine hconjunction _ ?_ h
      simp only [Predicate.respectsPrecedence, Bool.and_eq_true, Bool.not_eq_true'] at h
      simp only [Predicate.hasOr, h.1.1.1, h.1.1.2, Bool.or_self]
  | not body =>
      refine hconjunction _ ?_ h
      simp only [Predicate.respectsPrecedence, Bool.and_eq_true, Bool.not_eq_true'] at h
      exact h.1.1
  | isNull column => exact hconjunction _ rfl rfl
  | isIn column values => exact hconjunction _ rfl rfl
  | compare column comparison value => exact hconjunction _ rfl rfl

/-! ## No text has two readings -/

/-- A reading that is settled by the tokens and the values: none of the given words is among the tokens, there are as
many marks as values, and no other reading has both. -/
structure Settled (words : List String) (Item : List Token → List Value → Predicate → Prop) : Prop where
  words : ∀ {ts : List Token} {vs : List Value} {p : Predicate}, Item ts vs p → ∀ t ∈ ts, isOneOf words t = false
  marks : ∀ {ts : List Token} {vs : List Value} {p : Predicate}, Item ts vs p → ts.countP Token.isMark = vs.length
  unique : ∀ {ts ts' : List Token} {vs vs' : List Value} {p q : Predicate}, Item ts vs p → Item ts' vs' q →
    ts = ts' → vs = vs' → p = q

theorem isOneOf_of_mem {word : String} {words : List String} (hword : word ∈ words) {t : Token}
    (h : isOneOf words t = false) : isOneOf [word] t = false := by
  cases t with
  | word w =>
      simp only [isOneOf, List.contains_eq_mem, decide_eq_false_iff_not, List.mem_singleton] at h ⊢
      exact fun e => h (e ▸ hword)
  | _ => rfl

/-- What stands behind the last occurrence of a word is determined, and so is what stands in front of it. -/
theorem append_word_inj {word : String} {front front' back back' : List Token}
    (hback : ∀ t ∈ back, isOneOf [word] t = false) (hback' : ∀ t ∈ back', isOneOf [word] t = false)
    (h : front ++ .word word :: back = front' ++ .word word :: back') : front = front' ∧ back = back' := by
  -- Read backwards, both texts stop at their first occurrence of the word.
  have hreverse : back.reverse ++ .word word :: front.reverse = back'.reverse ++ .word word :: front'.reverse := by
    simpa using congrArg List.reverse h
  have hhead : ∀ (f : List Token) t, (Token.word word :: f).head? = some t → isOneOf [word] t = true := by
    intro f t ht
    simp only [List.head?_cons, Option.some.injEq] at ht
    subst ht
    simp [isOneOf]
  obtain ⟨hbacks, hfronts⟩ := append_inj_of_stop (fun t ht => hback t (List.mem_reverse.1 ht))
    (fun t ht => hback' t (List.mem_reverse.1 ht)) (hhead _) (hhead _) hreverse
  exact ⟨List.reverse_inj.1 (List.cons.inj hfronts).2, List.reverse_inj.1 hbacks⟩

theorem ReadsTest.tokens_eq {ts : List Token} {vs : List Value} {p : Predicate} (h : ReadsTest ts vs p) :
    ts = p.tokens ∧ vs = p.params := by
  cases h with
  | isNull column => exact ⟨rfl, rfl⟩
  | isIn column => exact ⟨(tokens_isIn column vs).symm, rfl⟩
  | compare column comparison value => exact ⟨(tokens_compare column comparison value).symm, rfl⟩

theorem not_isOneOf_of_mem_marks {words : List String} {values : List Value} (hcomma : isOneOf words (.sign ",") = false)
    (hmark : isOneOf words (.mark none) = false) :
    ∀ t ∈ Token.commas (values.map fun _ => [.mark none]), isOneOf words t = false := by
  intro t ht
  have hparts := Part.map_token_commas (values.map fun _ => [.mark (.member "")])
  rw [List.map_map, show List.map Part.token ∘ (fun _ : Value => [Part.mark (.member "")]) = fun _ => [.mark none] from rfl]
    at hparts
  rw [← hparts] at ht
  obtain ⟨part, hpart, rfl⟩ := List.mem_map.1 ht
  rcases Part.mem_commas hpart with rfl | ⟨piece, hpiece, hpart⟩
  · exact hcomma
  · obtain ⟨_, _, rfl⟩ := List.mem_map.1 hpiece
    obtain rfl := List.mem_singleton.1 hpart
    exact hmark

/-- A test holds no word that joins conditions. -/
theorem ReadsTest.not_isOneOf {ts : List Token} {vs : List Value} {p : Predicate} (h : ReadsTest ts vs p) :
    ∀ t ∈ ts, isOneOf ["AND", "OR", "NOT"] t = false := by
  intro t ht
  cases h with
  | isNull column =>
      simp only [List.mem_cons, List.not_mem_nil, or_false] at ht
      rcases ht with rfl | rfl | rfl <;> rfl
  | isIn column values =>
      simp only [List.mem_cons, List.mem_append, List.not_mem_nil, or_false] at ht
      rcases ht with rfl | rfl | rfl | ht | rfl
      · rfl
      · rfl
      · rfl
      · exact not_isOneOf_of_mem_marks rfl rfl t ht
      · rfl
  | compare column comparison value =>
      simp only [List.mem_cons, List.not_mem_nil, or_false] at ht
      rcases ht with rfl | rfl | rfl
      · rfl
      · cases comparison <;> rfl
      · rfl

/-- A test is told by its tokens and its values. -/
theorem ReadsTest.unique {ts ts' : List Token} {vs vs' : List Value} {p q : Predicate} (h : ReadsTest ts vs p)
    (h' : ReadsTest ts' vs' q) (hts : ts = ts') (hvs : vs = vs') : p = q := by
  cases h with
  | isNull column =>
      cases h' with
      | isNull column' => simp_all
      | isIn column' values' => simp at hts
      | compare column' comparison' value' => simp at hvs
  | isIn column values =>
      cases h' with
      | isNull column' => simp at hts
      | isIn column' values' => simp_all
      | compare column' comparison' value' =>
          have hlength := congrArg List.length hts
          simp at hlength
  | compare column comparison value =>
      cases h' with
      | isNull column' => simp at hvs
      | isIn column' values' =>
          have hlength := congrArg List.length hts
          simp at hlength
      | compare column' comparison' value' =>
          have hcomparison : comparison = comparison' := by
            simp only [List.cons.injEq] at hts
            have hsign := hts.2.1
            cases comparison <;> cases comparison' <;> simp_all [ofComparison, Comparison.sign]
          simp_all

theorem settled_test : Settled ["AND", "OR", "NOT"] ReadsTest where
  words := fun h => h.not_isOneOf
  marks := by
    intro ts vs p h
    obtain ⟨rfl, rfl⟩ := h.tokens_eq
    rw [Predicate.tokens, countP_isMark_map_token, Predicate.filterMap_slot_parts, List.length_map,
      ← Predicate.map_snd_bindings, List.length_map]
  unique := fun h h' => h.unique h'

theorem settled_negation : Settled ["AND", "OR"] ReadsNegation where
  words := by
    intro ts vs p h
    induction h with
    | test h =>
        intro t ht
        have hword := settled_test.words h t ht
        cases t with
        | word w =>
            simp only [isOneOf, List.contains_eq_mem, decide_eq_false_iff_not, List.mem_cons] at hword ⊢
            simp_all
        | _ => rfl
    | not h ih =>
        intro t ht
        rcases List.mem_cons.1 ht with rfl | ht
        · decide
        · exact ih t ht
  marks := by
    intro ts vs p h
    induction h with
    | test h => exact settled_test.marks h
    | not h ih => simpa [List.countP_cons, Token.isMark] using ih
  unique := by
    intro ts ts' vs vs' p q h h' hts hvs
    -- A negation starts with a word and a test with a name.
    have hstart : ∀ {us : List Token} {ws : List Value} {r : Predicate}, ReadsTest us ws r →
        us.head? ≠ some (.word "NOT") := by
      intro us ws r hr
      cases hr <;> simp
    induction h generalizing ts' vs' q with
    | test h =>
        cases h' with
        | test h' => exact settled_test.unique h h' hts hvs
        | not h' => exact absurd (by rw [hts]; rfl) (hstart h)
    | not h ih =>
        cases h' with
        | test h' => exact absurd (by rw [← hts]; rfl) (hstart h')
        | not h' => rw [ih h' (List.cons.inj hts).2 hvs]

theorem ReadsChain.countP_isMark {word : String} {join : Predicate → Predicate → Predicate}
    {Item : List Token → List Value → Predicate → Prop}
    (hitem : ∀ {ts : List Token} {vs : List Value} {p : Predicate}, Item ts vs p → ts.countP Token.isMark = vs.length)
    {ts : List Token} {vs : List Value} {p : Predicate} (h : ReadsChain word join Item ts vs p) :
    ts.countP Token.isMark = vs.length := by
  induction h with
  | item h => exact hitem h
  | more h h' ih =>
      have hlast := hitem h'
      rw [List.countP_append, List.countP_cons_of_neg (by simp [Token.isMark]), List.length_append]
      omega

/-- A chain of settled items is settled, but that it may hold the word that it is joined with. -/
theorem settled_chain {word : String} {words : List String} {join : Predicate → Predicate → Predicate}
    {Item : List Token → List Value → Predicate → Prop} (hitem : Settled (word :: words) Item)
    (hword : word ∉ words) : Settled words (ReadsChain word join Item) where
  words := by
    have hsub : ∀ t, isOneOf (word :: words) t = false → isOneOf words t = false := by
      intro t ht
      cases t with
      | word w => simp_all [isOneOf]
      | _ => rfl
    intro ts vs p h
    induction h with
    | item h => exact fun t ht => hsub t (hitem.words h t ht)
    | more h h' ih =>
        intro t ht
        rcases List.mem_append.1 ht with ht | ht
        · exact ih t ht
        · rcases List.mem_cons.1 ht with rfl | ht
          · simpa [isOneOf] using hword
          · exact hsub t (hitem.words h' t ht)
  marks := fun h => h.countP_isMark hitem.marks
  unique := by
    have hlast : ∀ {us : List Token} {ws : List Value} {r : Predicate}, Item us ws r →
        ∀ t ∈ us, isOneOf [word] t = false :=
      fun hr t ht => isOneOf_of_mem (List.mem_cons_self ..) (hitem.words hr t ht)
    intro ts ts' vs vs' p q h h' hts hvs
    -- No item holds the word, so both chains part at its last occurrence, and the values part with the marks.
    induction h generalizing ts' vs' q with
    | item h =>
        cases h' with
        | item h' => exact hitem.unique h h' hts hvs
        | more h' hitem' =>
            have hnone := hlast h (.word word) (by rw [hts]; simp)
            simp [isOneOf] at hnone
    | @more us us' ws ws' r r' hr hr' ih =>
        cases h' with
        | item h' =>
            have hnone := hlast h' (.word word) (by rw [← hts]; simp)
            simp [isOneOf] at hnone
        | @more us₂ us₂' ws₂ ws₂' r₂ r₂' h₂ h₂' =>
            obtain ⟨hfront, hback⟩ := append_word_inj (hlast hr') (hlast h₂') hts
            have hlength : ws.length = ws₂.length := by
              rw [← hr.countP_isMark hitem.marks, ← h₂.countP_isMark hitem.marks, hfront]
            obtain ⟨hvalues, hvalues'⟩ := List.append_inj hvs hlength
            rw [ih h₂ hfront hvalues, hitem.unique hr' h₂' hback hvalues']

/-! ## The text of a tree -/

theorem ReadsDisjunction.unique {ts : List Token} {vs : List Value} {p q : Predicate}
    (h : ReadsDisjunction ts vs p) (h' : ReadsDisjunction ts vs q) : p = q := by
  have hconjunction : Settled ["OR"] ReadsConjunction := settled_chain settled_negation (by decide)
  have hdisjunction : Settled [] ReadsDisjunction := settled_chain hconjunction (by decide)
  exact hdisjunction.unique h h' rfl rfl

/-- The text of a tree that agrees with the precedence of the operators has exactly one reading.  It has the tests of
the tree in their order, with their values, and whatever the truth of each test is, it is true, false or unknown
as the tree is. -/
theorem text_means_tree {p : Predicate} (h : p.respectsPrecedence = true) :
    ∃ q, ReadsDisjunction (ofChars p.text.toList) p.params q ∧
      (∀ r, ReadsDisjunction (ofChars p.text.toList) p.params r → r = q) ∧ q.leaves = p.leaves ∧
      ∀ leaf : Nat → Option Bool, q.truth leaf 0 = p.truth leaf 0 := by
  have htokens : ofChars p.text.toList = p.tokens := by
    have htext := p.ofChars_text ends_nil
    rwa [List.append_nil, ofChars_nil, List.append_nil] at htext
  obtain ⟨q, hq, hleaves, htruth⟩ := readsDisjunction_tokens h
  rw [htokens]
  exact ⟨q, hq, fun r hr => hr.unique hq, hleaves, fun leaf => htruth leaf 0⟩

/-- Disjunctions to the right, conjunctions to the right of one another, negations of negations and a list. -/
theorem text_means_tree_of_right_nested :
    let p : Predicate :=
      .or (.not (.not (.isNull "AND")))
        (.or (.and (.eq "a" (.int 1)) (.and (.isIn "b OR ?" [.int 2, .null]) (.not (.compare "c" .like (.text "%")))))
          (.isIn "" []))
    p.respectsPrecedence = true ∧
      ∃ q, ReadsDisjunction (ofChars p.text.toList) p.params q ∧
        (∀ r, ReadsDisjunction (ofChars p.text.toList) p.params r → r = q) ∧ q.leaves = p.leaves ∧
        ∀ leaf : Nat → Option Bool, q.truth leaf 0 = p.truth leaf 0 := by
  intro p
  have h : p.respectsPrecedence = true := by decide
  exact ⟨h, text_means_tree h⟩

end RecordTables.Sql
