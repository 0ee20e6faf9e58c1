import RecordTables.Proofs.Sql.Template

/-!
# Boundaries of clauses

No token of a clause is the word that a later clause starts with, so the tokens of a statement say where each of its
clauses ends.  Within a clause they determine what the clause was written from, values apart.
-/

namespace RecordTables.Sql

open RecordTables.Engine (Token)
open RecordTables.Engine.Token (takeWhile_append_of_not_head)

/-! ## Where clauses end -/

/-- Whether the token is one of the given words. -/
def isOneOf (words : List String) : Token → Bool
  | .word word => words.contains word
  | _ => false

/-- Two texts that each stop at their first item of a kind are cut at the same place. -/
theorem append_inj_of_stop {α : Type} {stop : α → Bool} {front front' back back' : List α}
    (hfront : ∀ x ∈ front, stop x = false) (hfront' : ∀ x ∈ front', stop x = false)
    (hback : ∀ x, back.head? = some x → stop x = true) (hback' : ∀ x, back'.head? = some x → stop x = true)
    (h : front ++ back = front' ++ back') : front = front' ∧ back = back' := by
  have hcut : ∀ {f b : List α}, (∀ x ∈ f, stop x = false) → (∀ x, b.head? = some x → stop x = true) →
      (f ++ b).takeWhile (fun x => !stop x) = f := by
    intro f b hf hb
    apply takeWhile_append_of_not_head
    · intro x hx
      simp [hf x hx]
    · intro x hx
      simp [hb x hx]
  have hfronts : front = front' := by
    rw [← hcut hfront hback, h, hcut hfront' hback']
  subst hfronts
  exact ⟨rfl, List.append_cancel_left h⟩

section Cut

variable {words : List String} {front rest : List Token}

/-- What stands before the first of some words is what they cut off. -/
theorem takeWhile_isOneOf (hfront : ∀ t ∈ front, isOneOf words t = false)
    (hrest : ∀ t, rest.head? = some t → isOneOf words t = true) :
    (front ++ rest).takeWhile (fun t => !isOneOf words t) = front := by
  apply takeWhile_append_of_not_head
  · intro t ht
    rw [hfront t ht, Bool.not_false]
  · intro t ht
    rw [hrest t ht, Bool.not_true]

theorem dropWhile_isOneOf (hfront : ∀ t ∈ front, isOneOf words t = false)
    (hrest : ∀ t, rest.head? = some t → isOneOf words t = true) :
    (front ++ rest).dropWhile (fun t => !isOneOf words t) = rest := by
  rw [List.dropWhile_append_of_pos fun t ht => by rw [hfront t ht, Bool.not_false]]
  cases rest with
  | nil => rfl
  | cons t tail => exact List.dropWhile_cons_of_neg (by rw [hrest t rfl]; decide)

theorem not_isOneOf_of_not_mem {w : String} (h : .word w ∉ front) : ∀ t ∈ front, isOneOf [w] t = false := by
  intro t ht
  cases t with
  | word word =>
      have hne : word ≠ w := fun e => h (e ▸ ht)
      simpa [isOneOf] using hne
  | _ => rfl

end Cut

theorem not_isOneOf_whereParts (filter : Option Predicate) :
    ∀ t ∈ (whereParts filter).map Part.token, isOneOf ["ORDER", "LIMIT"] t = false := by
  intro t ht
  cases filter with
  | none => simp [whereParts] at ht
  | some p =>
      rw [whereParts, List.map_cons, List.mem_cons] at ht
      rcases ht with rfl | ht
      · rfl
      · cases t with
        | word word =>
            have hword := Predicate.mem_words_of_mem_tokens ht
            simp only [List.mem_cons, List.not_mem_nil, or_false] at hword
            rcases hword with rfl | rfl | rfl | rfl | rfl | rfl | rfl <;> decide
        | _ => rfl

theorem isOneOf_head_whereParts (filter : Option Predicate) :
    ∀ t, ((whereParts filter).map Part.token).head? = some t → isOneOf ["WHERE"] t = true := by
  intro t ht
  cases filter with
  | none => simp [whereParts] at ht
  | some p =>
      simp only [whereParts, List.map_cons, List.head?_cons, Option.some.injEq] at ht
      subst ht
      decide

/-- The words that an ordering is written with. -/
theorem mem_words_of_mem_orderParts {terms : List OrderTerm} {word : String}
    (h : Token.word word ∈ (orderParts terms).map Part.token) : word ∈ ["ORDER", "BY", "ASC", "DESC"] := by
  cases terms with
  | nil => simp [orderParts] at h
  | cons term terms =>
      simp only [orderParts, List.map_cons, List.mem_cons, List.mem_map] at h
      rcases h with h | h | ⟨part, hpart, hword⟩
      · cases h
        simp
      · cases h
        simp
      · rcases Part.mem_commas hpart with rfl | ⟨piece, hpiece, hpart⟩
        · cases hword
        · rw [← List.map_cons, List.mem_map] at hpiece
          obtain ⟨⟨column, descending⟩, _, rfl⟩ := hpiece
          simp only [OrderTerm.parts, List.mem_cons, List.not_mem_nil, or_false] at hpart
          rcases hpart with rfl | rfl
          · cases hword
          · cases hword
            cases descending <;> simp

theorem not_isOneOf_orderParts (terms : List OrderTerm) :
    ∀ t ∈ (orderParts terms).map Part.token, isOneOf ["LIMIT"] t = false := by
  intro t ht
  cases t with
  | word word =>
      have hword := mem_words_of_mem_orderParts ht
      simp only [List.mem_cons, List.not_mem_nil, or_false] at hword
      rcases hword with rfl | rfl | rfl | rfl <;> decide
  | _ => rfl

theorem isOneOf_head_pageParts (limit offset : UInt64) :
    ∀ t, ((pageParts limit offset).map Part.token).head? = some t → isOneOf ["LIMIT"] t = true := by
  intro t ht
  simp only [pageParts] at ht
  split at ht
  · simp at ht
  · simp only [List.map_cons, List.head?_cons, Option.some.injEq] at ht
    subst ht
    decide

theorem isOneOf_head_orderParts (terms : List OrderTerm) (limit offset : UInt64) :
    ∀ t, ((orderParts terms).map Part.token ++ (pageParts limit offset).map Part.token).head? = some t →
      isOneOf ["ORDER", "LIMIT"] t = true := by
  intro t ht
  cases terms with
  | nil =>
      have hlimit := isOneOf_head_pageParts limit offset t ht
      cases t <;> simp_all [isOneOf]
  | cons term terms =>
      simp only [orderParts, List.map_cons, List.cons_append, List.head?_cons, Option.some.injEq] at ht
      subst ht
      decide

/-! ## Clauses told apart -/

theorem whereParts_inj {filter filter' : Option Predicate}
    (h : (whereParts filter).map Part.token = (whereParts filter').map Part.token) :
    filter.map Predicate.tokens = filter'.map Predicate.tokens := by
  cases filter <;> cases filter' <;> simp_all [whereParts, Predicate.tokens]

/-- What a token tells of an ordering: a column or a direction. -/
def orderMark? : Token → Option (String ⊕ Bool)
  | .name column => some (.inl column)
  | .word direction => some (.inr (direction == "DESC"))
  | _ => none

theorem flatMap_orderMark_inj {terms terms' : List OrderTerm}
    (h : (terms.flatMap fun t => [Sum.inl t.column, Sum.inr t.descending]) =
      terms'.flatMap fun t => [Sum.inl t.column, Sum.inr t.descending]) : terms = terms' := by
  induction terms generalizing terms' with
  | nil =>
      cases terms' with
      | nil => rfl
      | cons term' terms' => simp at h
  | cons term terms ih =>
      cases terms' with
      | nil => simp at h
      | cons term' terms' =>
          simp only [List.flatMap_cons, List.cons_append, List.nil_append, List.cons.injEq, Sum.inl.injEq,
            Sum.inr.injEq] at h
          obtain ⟨hcolumn, hdescending, hrest⟩ := h
          rw [ih hrest]
          cases term
          cases term'
          simp_all

theorem orderParts_inj {terms terms' : List OrderTerm}
    (h : (orderParts terms).map Part.token = (orderParts terms').map Part.token) : terms = terms' := by
  -- The commas of the list tell nothing, so the marks are those of its terms, two for each.
  have hmarks : ∀ ts : List OrderTerm, (Part.commas (ts.map OrderTerm.parts)).filterMap (orderMark? ∘ Part.token) =
      ts.flatMap fun t => [Sum.inl t.column, Sum.inr t.descending] := by
    intro ts
    rw [Part.filterMap_commas rfl]
    congr 1
    funext t
    cases t with
    | mk column descending => cases descending <;> rfl
  cases terms with
  | nil =>
      cases terms' with
      | nil => rfl
      | cons term' terms' => simp [orderParts] at h
  | cons term terms =>
      cases terms' with
      | nil => simp [orderParts] at h
      | cons term' terms' =>
          have hlist : (Part.commas ((term :: terms).map OrderTerm.parts)).map Part.token =
              (Part.commas ((term' :: terms').map OrderTerm.parts)).map Part.token :=
            (List.cons.inj (List.cons.inj h).2).2
          apply flatMap_orderMark_inj
          rw [← hmarks, ← hmarks, ← List.filterMap_map, ← List.filterMap_map, hlist]

/-- The page that a limit and an offset cut out; without a limit there is none. -/
def page? (limit offset : UInt64) : Option (UInt64 × UInt64) := if limit = 0 then none else some (limit, offset)

theorem pageParts_inj {limit offset limit' offset' : UInt64}
    (h : (pageParts limit offset).map Part.token = (pageParts limit' offset').map Part.token) :
    page? limit offset = page? limit' offset' := by
  by_cases hlimit : limit = 0 <;> by_cases hlimit' : limit' = 0 <;> by_cases hoffset : offset = 0 <;>
    by_cases hoffset' : offset' = 0 <;>
    simp_all [pageParts, page?, Part.token, UInt64.toNat_inj]

/-- The clauses of a query are told apart: the filter ends where the order or the page starts, and the order where the
page does. -/
theorem clauses_inj {filter filter' : Option Predicate} {terms terms' : List OrderTerm}
    {limit offset limit' offset' : UInt64}
    (h : (whereParts filter ++ orderParts terms ++ pageParts limit offset).map Part.token =
      (whereParts filter' ++ orderParts terms' ++ pageParts limit' offset').map Part.token) :
    filter.map Predicate.tokens = filter'.map Predicate.tokens ∧ terms = terms' ∧
      page? limit offset = page? limit' offset' := by
  rw [List.map_append, List.map_append, List.map_append, List.map_append, List.append_assoc, List.append_assoc] at h
  obtain ⟨hwhere, hrest⟩ := append_inj_of_stop (not_isOneOf_whereParts filter) (not_isOneOf_whereParts filter')
    (isOneOf_head_orderParts terms limit offset) (isOneOf_head_orderParts terms' limit' offset') h
  obtain ⟨horder, hpage⟩ := append_inj_of_stop (not_isOneOf_orderParts terms) (not_isOneOf_orderParts terms')
    (isOneOf_head_pageParts limit offset) (isOneOf_head_pageParts limit' offset') hrest
  exact ⟨whereParts_inj hwhere, orderParts_inj horder, pageParts_inj hpage⟩

end RecordTables.Sql
