import RecordTables.Proofs.Sql.Command
import RecordTables.Proofs.Sql.Precedence

/-!
# Filters of a query

Filters that are added one after the other become one conjunction, which is written without parentheses.  A row is
selected exactly if every filter holds as long as no filter brings an operator that binds looser than the `AND` between
them; a filter that is an alternative takes the filters beside it apart.
-/

namespace RecordTables.Sql

open RecordTables.Engine (Token truthAnd)
open RecordTables.Engine.Token (ofChars ofComparison)

/-! ## The clause of a statement -/

/-- The tokens of the condition of a statement: they start behind `WHERE` and end where the rows are ordered or cut. -/
def conditionTokens (ts : List Token) : List Token :=
  (ts.dropWhile fun t => !isOneOf ["WHERE"] t).tail.takeWhile fun t => !isOneOf ["ORDER", "LIMIT"] t

/-- The first condition of a statement is that of its clause. -/
theorem conditionTokens_append {before after : List Token} (hbefore : ∀ t ∈ before, isOneOf ["WHERE"] t = false)
    (p : Predicate) (hafter : ∀ t, after.head? = some t → isOneOf ["ORDER", "LIMIT"] t = true) :
    conditionTokens (before ++ ((whereParts (some p)).map Part.token ++ after)) = p.tokens := by
  have hcondition : ∀ t ∈ p.tokens, isOneOf ["ORDER", "LIMIT"] t = false := by
    intro t ht
    apply not_isOneOf_whereParts (some p) t
    rw [whereParts, List.map_cons]
    exact List.mem_cons_of_mem _ ht
  have hdrop : (before ++ ((whereParts (some p)).map Part.token ++ after)).dropWhile (fun t => !isOneOf ["WHERE"] t) =
      (whereParts (some p)).map Part.token ++ after :=
    dropWhile_isOneOf hbefore (isOneOf_head_whereParts (some p))
  rw [conditionTokens, hdrop, whereParts, List.map_cons, List.cons_append, List.tail_cons]
  exact takeWhile_isOneOf hcondition hafter

/-- The tokens of a selection in front of its clauses.  The table stands between quotes, so it is none of their words. -/
def selectionTokens (table : String) : List Token := [.word "SELECT", .sign "*", .word "FROM", .name table]

theorem ofChars_select_clauses (table : String) (q : Query) :
    ofChars (Statement.select table q).text.toList = selectionTokens table ++ ((whereParts q.filter).map Part.token ++
      ((orderParts q.order).map Part.token ++ (pageParts q.limit q.offset).map Part.token)) := by
  rw [Statement.ofChars_select, Command.parts, List.append_assoc]
  simp only [List.map_cons, List.map_append]
  rfl

/-- The condition of a selection is its filter. -/
theorem conditionTokens_select (table : String) {q : Query} {p : Predicate} (hfilter : q.filter = some p) :
    conditionTokens (ofChars (Statement.select table q).text.toList) = p.tokens := by
  rw [ofChars_select_clauses, hfilter]
  apply conditionTokens_append
  · simp [selectionTokens, isOneOf]
  · exact isOneOf_head_orderParts q.order q.limit q.offset

/-! ## Filters in a row -/

namespace Query

/-- Narrows a query by one condition after the other. -/
def addFilters (q : Query) (ps : List Predicate) : Query := ps.foldl addFilter q

theorem filter_addFilters {p : Predicate} (ps : List Predicate) {q : Query} (hfilter : q.filter = some p) :
    (q.addFilters ps).filter = some (ps.foldl .and p) := by
  induction ps generalizing q p with
  | nil => exact hfilter
  | cons next rest ih =>
      apply ih
      simp only [addFilter, hfilter]

/-- Filters that are added to a query without one are their conjunction. -/
theorem filter_addFilters_of_none (ps : List Predicate) {q : Query} (hfilter : q.filter = none) :
    (q.addFilters ps).filter = Predicate.all? ps := by
  cases ps with
  | nil => exact hfilter
  | cons first rest =>
      apply filter_addFilters rest
      simp only [addFilter, hfilter]

end Query

/-- Whether all of several conditions are true, given the truth of their tests, which are counted through all of
them. -/
def AllTrue (leaf : Nat → Option Bool) : List Predicate → Nat → Prop
  | [], _ => True
  | p :: rest, first => p.truth leaf first = some true ∧ AllTrue leaf rest (first + p.leaves.length)

theorem allTrue_append {leaf : Nat → Option Bool} {ps qs : List Predicate} {first : Nat} :
    AllTrue leaf (ps ++ qs) first ↔
      AllTrue leaf ps first ∧ AllTrue leaf qs (first + (ps.flatMap Predicate.leaves).length) := by
  induction ps generalizing first with
  | nil => simp [AllTrue]
  | cons p rest ih =>
      simp only [List.cons_append, AllTrue, ih, List.flatMap_cons, List.length_append, and_assoc, Nat.add_assoc]

theorem truthAnd_eq_true {a b : Option Bool} : truthAnd a b = some true ↔ a = some true ∧ b = some true := by
  rcases a with _ | _ | _ <;> rcases b with _ | _ | _ <;> decide

namespace Predicate

theorem leaves_foldl_and (ps : List Predicate) (p : Predicate) :
    (ps.foldl .and p).leaves = p.leaves ++ ps.flatMap leaves :=
  foldl_and_append (fun _ _ => rfl) p ps

/-- Conditions that are joined from the left are written with `AND` between any two of them. -/
theorem text_foldl_and (p : Predicate) (ps : List Predicate) :
    (ps.foldl .and p).text = String.intercalate " AND " ((p :: ps).map text) := by
  induction ps generalizing p with
  | nil => rw [List.foldl_nil, List.map_cons, List.map_nil, String.intercalate_singleton]
  | cons next rest ih =>
      rw [List.foldl_cons, ih, List.map_cons, text, String.intercalate_cons_append, List.map_cons, List.map_cons,
        String.intercalate_cons_cons]

/-- A conjunction is true exactly if all that it joins is. -/
theorem truth_foldl_and {leaf : Nat → Option Bool} (ps : List Predicate) {p : Predicate} {first : Nat} :
    (ps.foldl .and p).truth leaf first = some true ↔ AllTrue leaf (p :: ps) first := by
  induction ps generalizing p with
  | nil => simp [AllTrue]
  | cons next rest ih =>
      rw [List.foldl_cons, ih]
      simp only [AllTrue, truth, truthAnd_eq_true, leaves, List.length_append, and_assoc, Nat.add_assoc]

theorem respectsPrecedence_foldl_and (ps : List Predicate) {p : Predicate} (hp : p.respectsPrecedence = true)
    (hps : ∀ r ∈ ps, r.respectsPrecedence = true) (hor : p.hasOr = false) (hors : ∀ r ∈ ps, r.hasOr = false) :
    (ps.foldl .and p).respectsPrecedence = true := by
  induction ps generalizing p with
  | nil => exact hp
  | cons next rest ih =>
      rw [List.forall_mem_cons] at hps hors
      apply ih _ hps.2 _ hors.2
      · simp only [respectsPrecedence, hp, hps.1, hor, hors.1, Bool.not_false, Bool.and_self]
      · rw [hasOr, hor, hors.1, Bool.or_self]

end Predicate

/-! ## What the filters mean together -/

/-- What a selection with several filters is read as. -/
theorem reading_addFilters (table : String) {q : Query} (hfilter : q.filter = none) {ps : List Predicate}
    (hne : ps ≠ []) (hrespects : ∀ p ∈ ps, p.respectsPrecedence = true)
    (hor : 1 < ps.length → ∀ p ∈ ps, p.hasOr = false) :
    ∃ r, ReadsDisjunction (conditionTokens (ofChars (Statement.select table (q.addFilters ps)).text.toList))
        (Statement.select table (q.addFilters ps)).params r ∧
      r.leaves = ps.flatMap Predicate.leaves ∧
      ∀ leaf : Nat → Option Bool, r.truth leaf 0 = some true ↔ AllTrue leaf ps 0 := by
  obtain ⟨p, rest, rfl⟩ := List.exists_cons_of_ne_nil hne
  have hconjunction : (q.addFilters (p :: rest)).filter = some (rest.foldl .and p) :=
    Query.filter_addFilters_of_none (p :: rest) hfilter
  have hwhole : (rest.foldl Predicate.and p).respectsPrecedence = true := by
    rw [List.forall_mem_cons] at hrespects
    cases rest with
    | nil => exact hrespects.1
    | cons next rest =>
        have hors := hor (by simp)
        rw [List.forall_mem_cons] at hors
        exact Predicate.respectsPrecedence_foldl_and _ hrespects.1 hrespects.2 hors.1 hors.2
  obtain ⟨r, hr, hleaves, htruth⟩ := readsDisjunction_tokens hwhole
  refine ⟨r, ?_, ?_, fun leaf => ?_⟩
  · rw [conditionTokens_select table hconjunction, Statement.select, hconjunction]
    exact hr
  · rw [hleaves, Predicate.leaves_foldl_and, List.flatMap_cons]
  · rw [htruth, Predicate.truth_foldl_and]

/-- The condition of a selection is read as the conjunction of filters.  It has one reading, with the tests of the
filters in their order, and it is true exactly if each filter is true; so it is true only where the condition for the
first few of the filters is. -/
structure Conjoined (table : String) (q : Query) (ps : List Predicate) : Prop where
  reads : ∃ r, ReadsDisjunction (conditionTokens (ofChars (Statement.select table (q.addFilters ps)).text.toList))
    (Statement.select table (q.addFilters ps)).params r
  means : ∀ r, ReadsDisjunction (conditionTokens (ofChars (Statement.select table (q.addFilters ps)).text.toList))
    (Statement.select table (q.addFilters ps)).params r →
      r.leaves = ps.flatMap Predicate.leaves ∧
        ∀ leaf : Nat → Option Bool, r.truth leaf 0 = some true ↔ AllTrue leaf ps 0
  narrows : ∀ earlier later : List Predicate, earlier ++ later = ps → earlier ≠ [] → ∀ r r',
    ReadsDisjunction (conditionTokens (ofChars (Statement.select table (q.addFilters ps)).text.toList))
      (Statement.select table (q.addFilters ps)).params r →
    ReadsDisjunction (conditionTokens (ofChars (Statement.select table (q.addFilters earlier)).text.toList))
      (Statement.select table (q.addFilters earlier)).params r' →
    ∀ leaf : Nat → Option Bool, r.truth leaf 0 = some true → r'.truth leaf 0 = some true

/-- Filters that agree with the precedence, and of which none is an alternative unless it stands alone, narrow a
selection one by one: its condition is their conjunction. -/
theorem conjoined_addFilters (table : String) {q : Query} (hfilter : q.filter = none) {ps : List Predicate}
    (hne : ps ≠ []) (hrespects : ∀ p ∈ ps, p.respectsPrecedence = true)
    (hor : 1 < ps.length → ∀ p ∈ ps, p.hasOr = false) : Conjoined table q ps := by
  have hwhole := reading_addFilters table hfilter hne hrespects hor
  refine ⟨hwhole.imp fun r h => h.1, fun r hr => ?_, fun earlier later hsplit hearlier r r' hr hr' leaf htrue => ?_⟩
  · obtain ⟨q', hq', hmeans⟩ := hwhole
    obtain rfl := hr.unique hq'
    exact hmeans
  · -- The first few filters are filters of the same kind, and their tests are the first tests of the whole.
    subst hsplit
    obtain ⟨w, hw, -, hall⟩ := hwhole
    obtain ⟨w', hw', -, hall'⟩ := reading_addFilters table hfilter hearlier
      (fun p hp => hrespects p (List.mem_append_left later hp))
      (fun hlength p hp => hor (by rw [List.length_append]; omega) p (List.mem_append_left later hp))
    obtain rfl := hr.unique hw
    obtain rfl := hr'.unique hw'
    exact (hall' leaf).2 (allTrue_append.1 ((hall leaf).1 htrue)).1

/-- Three filters, the last of them a conjunction, in a query that also orders and cuts. -/
theorem conjoined_three_filters :
    let q : Query := { order := [⟨"ORDER", true⟩], limit := 5 }
    let ps : List Predicate :=
      [.not (.isNull "WHERE"), .isIn "a OR b" [.int 1, .null], .and (.eq "c" (.text "x")) (.compare "d" .like (.text "%"))]
    (q.filter = none ∧ ps ≠ [] ∧ (∀ p ∈ ps, p.respectsPrecedence = true) ∧
      (1 < ps.length → ∀ p ∈ ps, p.hasOr = false)) ∧ Conjoined "t" q ps := by
  intro q ps
  have hrespects : ∀ p ∈ ps, p.respectsPrecedence = true := by decide
  have hor : ∀ p ∈ ps, p.hasOr = false := by decide
  exact ⟨⟨rfl, by simp [ps], hrespects, fun _ => hor⟩,
    conjoined_addFilters "t" rfl (by simp [ps]) hrespects fun _ => hor⟩

/-- An alternative takes the filter behind it apart: the first of its conditions selects rows whatever that filter
says. -/
theorem not_conjoined_of_alternative :
    ¬ Conjoined "tasks" .empty [.or (.eq "id" (.int 1)) (.eq "id" (.int 2)), .eq "title" (.text "b")] := by
  intro h
  let first : Predicate := .eq "id" (.int 1)
  let second : Predicate := .eq "id" (.int 2)
  let third : Predicate := .eq "title" (.text "b")
  -- The text is that of the alternative whose second part holds the other filter.
  have hreads : ReadsDisjunction (first.tokens ++ .word "OR" :: (second.tokens ++ .word "AND" :: third.tokens))
      (first.params ++ (second.params ++ third.params)) (.or first (.and second third)) :=
    .more (.item (.item (readsNegation_tokens rfl rfl)))
      (.more (.item (readsNegation_tokens rfl rfl)) (readsNegation_tokens rfl rfl))
  have hfilter : (Query.empty.addFilters [.or first second, third]).filter = some (.and (.or first second) third) := rfl
  have htokens : conditionTokens
      (ofChars (Statement.select "tasks" (Query.empty.addFilters [.or first second, third])).text.toList) =
        first.tokens ++ .word "OR" :: (second.tokens ++ .word "AND" :: third.tokens) := by
    rw [conditionTokens_select "tasks" hfilter, tokens_and, tokens_or, List.append_assoc, List.cons_append]
  have hmeans := (h.means (.or first (.and second third)) (htokens ▸ hreads)).2 fun n => some (n == 0)
  -- With the first condition true and the other two false, the text is true and the second filter is not.
  exact absurd (hmeans.1 rfl).2.1 (by decide)

end RecordTables.Sql
