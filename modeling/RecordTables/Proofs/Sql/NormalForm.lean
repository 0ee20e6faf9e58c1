import Mathlib.Data.List.Induction
import RecordTables.Proofs.Sql.Filters

/-!
# Queries in their normal form

A query is built call by call.  Only calls of one kind get in each other's way: filters and order terms stand in the
order of their calls, and of the limits and of the offsets the last one counts.  So whatever the calls were and however
they were mixed, the query is selected by the one statement that is written from what each kind of calls asked for, and
the columns that it reports are the names that stand in the clauses of this statement.
-/

namespace RecordTables.Sql

open RecordTables.Engine (Token)
open RecordTables.Engine.Token (ofChars)

/-! ## Calls -/

/-- A call that builds up a query. -/
inductive QueryCall where
  | filter (p : Predicate)
  | order (term : OrderTerm)
  | limit (n : UInt64)
  | offset (n : UInt64)

namespace QueryCall

inductive Kind where
  | filter
  | order
  | limit
  | offset
  deriving DecidableEq, Repr

def kind : QueryCall → Kind
  | .filter _ => .filter
  | .order _ => .order
  | .limit _ => .limit
  | .offset _ => .offset

/-- The query after a call. -/
def apply (q : Query) : QueryCall → Query
  | .filter p => q.addFilter p
  | .order term => q.addOrder term
  | .limit n => q.setLimit n
  | .offset n => q.setOffset n

def filter? : QueryCall → Option Predicate
  | .filter p => some p
  | _ => none

def order? : QueryCall → Option OrderTerm
  | .order term => some term
  | _ => none

def limit? : QueryCall → Option UInt64
  | .limit n => some n
  | _ => none

def offset? : QueryCall → Option UInt64
  | .offset n => some n
  | _ => none

/-- Calls of different kinds change different parts of a query. -/
theorem apply_comm {a b : QueryCall} (h : a.kind ≠ b.kind) (q : Query) :
    apply (apply q a) b = apply (apply q b) a := by
  cases a <;> cases b <;> first | rfl | exact absurd rfl h

end QueryCall

/-- The query that calls build up, one after the other, starting with one that selects every row. -/
def Query.build (calls : List QueryCall) : Query := calls.foldl QueryCall.apply .empty

/-! ## What calls ask for -/

/-- What is asked for by the calls of each kind. -/
structure Request where
  filters : List Predicate
  order : List OrderTerm
  limit : UInt64
  offset : UInt64

/-- The parts of a clause behind its opening words; without parts there is no clause. -/
def clause (opening separator : String) : List String → String
  | [] => ""
  | parts => opening ++ String.intercalate separator parts

namespace Request

/-- All filters and order terms count, and the last limit and offset.  Zero stands for no limit and no offset. -/
def ofCalls (calls : List QueryCall) : Request where
  filters := calls.filterMap QueryCall.filter?
  order := calls.filterMap QueryCall.order?
  limit := (calls.filterMap QueryCall.limit?).getLast?.getD 0
  offset := (calls.filterMap QueryCall.offset?).getLast?.getD 0

/-- What is asked for with one more call. -/
def add (r : Request) : QueryCall → Request
  | .filter p => { r with filters := r.filters ++ [p] }
  | .order term => { r with order := r.order ++ [term] }
  | .limit n => { r with limit := n }
  | .offset n => { r with offset := n }

theorem ofCalls_snoc (calls : List QueryCall) (call : QueryCall) :
    ofCalls (calls ++ [call]) = (ofCalls calls).add call := by
  cases call <;>
    simp [ofCalls, add, List.filterMap_cons, QueryCall.filter?, QueryCall.order?, QueryCall.limit?, QueryCall.offset?]

/-- The statement for a request, clause by clause. -/
def statement (table : String) (r : Request) : Statement where
  text := "SELECT * FROM " ++ quote table ++ clause " WHERE " " AND " (r.filters.map Predicate.text) ++
    clause " ORDER BY " ", " (r.order.map OrderTerm.text) ++
    (if r.limit = 0 then "" else " LIMIT " ++ toString r.limit.toNat) ++
    (if r.limit = 0 ∨ r.offset = 0 then "" else " OFFSET " ++ toString r.offset.toNat)
  params := r.filters.flatMap Predicate.params

/-- The query for a request: its filters are one conjunction. -/
def query (r : Request) : Query where
  filter := Predicate.all? r.filters
  order := r.order
  limit := r.limit
  offset := r.offset

end Request

theorem Predicate.all?_append_singleton (ps : List Predicate) (p : Predicate) :
    all? (ps ++ [p]) = some ((all? ps).elim p fun all => .and all p) := by
  cases ps with
  | nil => rfl
  | cons first rest =>
      rw [List.cons_append, all?, List.foldl_append]
      rfl

/-- A query with one more filter is the query for one more filter, and so for the other kinds of calls. -/
theorem QueryCall.apply_query (r : Request) (call : QueryCall) : apply r.query call = (r.add call).query := by
  cases call with
  | filter p =>
      simp only [apply, Query.addFilter, Request.query, Request.add, Predicate.all?_append_singleton]
      cases Predicate.all? r.filters <;> rfl
  | order => rfl
  | limit => rfl
  | offset => rfl

/-- Calls build up the query for what they ask for. -/
theorem Query.build_eq_query (calls : List QueryCall) : build calls = (Request.ofCalls calls).query := by
  induction calls using List.reverseRecOn with
  | nil => rfl
  | append_singleton calls call ih =>
      rw [build, List.foldl_append, ← build, ih, Request.ofCalls_snoc, ← QueryCall.apply_query]
      rfl

/-! ## The clauses of a request -/

namespace Predicate

theorem getD_map_all? {α : Type} {collect : Predicate → List α}
    (hand : ∀ left right, collect (.and left right) = collect left ++ collect right) (conditions : List Predicate) :
    ((all? conditions).map collect).getD [] = conditions.flatMap collect := by
  cases conditions with
  | nil => rfl
  | cons first rest => exact foldl_and_append hand first rest

theorem all?_eq_none {conditions : List Predicate} : all? conditions = none ↔ conditions = [] := by
  cases conditions <;> simp [all?]

theorem text_of_all? {conditions : List Predicate} {p : Predicate} (h : all? conditions = some p) :
    p.text = String.intercalate " AND " (conditions.map text) := by
  cases conditions with
  | nil => cases h
  | cons first rest =>
      cases h
      exact text_foldl_and first rest

end Predicate

theorem whereText_all? (ps : List Predicate) :
    whereText (Predicate.all? ps) = clause " WHERE " " AND " (ps.map Predicate.text) := by
  cases ps with
  | nil => rfl
  | cons p rest => exact congrArg (" WHERE " ++ ·) (Predicate.text_foldl_and p rest)

theorem orderText_eq_clause (terms : List OrderTerm) :
    orderText terms = clause " ORDER BY " ", " (terms.map OrderTerm.text) := by
  cases terms <;> rfl

theorem pageText_eq (limit offset : UInt64) :
    pageText limit offset = (if limit = 0 then "" else " LIMIT " ++ toString limit.toNat) ++
      (if limit = 0 ∨ offset = 0 then "" else " OFFSET " ++ toString offset.toNat) := by
  by_cases hlimit : limit = 0
  · simp [pageText, hlimit]
  · by_cases hoffset : offset = 0 <;> simp [pageText, hlimit, hoffset]

/-- The query for a request is selected by the statement for it. -/
theorem Statement.select_query (table : String) (r : Request) : select table r.query = r.statement table := by
  have hparams : whereParams (Predicate.all? r.filters) = r.filters.flatMap Predicate.params :=
    Predicate.getD_map_all? (fun _ _ => rfl) r.filters
  have htext : "SELECT * FROM " ++ quote table ++ whereText (Predicate.all? r.filters) ++ orderText r.order ++
      pageText r.limit r.offset = (r.statement table).text := by
    rw [whereText_all?, orderText_eq_clause, pageText_eq, ← String.append_assoc]
    rfl
  exact congrArg₂ Statement.mk htext hparams

theorem Query.columns_query (r : Request) :
    r.query.columns = r.filters.flatMap Predicate.columns ++ r.order.map OrderTerm.column := by
  have hcolumns : ((Predicate.all? r.filters).map Predicate.columns).getD [] = r.filters.flatMap Predicate.columns :=
    Predicate.getD_map_all? (fun _ _ => rfl) r.filters
  rw [columns, Request.query, hcolumns]

/-! ## The words of a selection -/

section

variable {w : String}

theorem word_mem_whereParts {filter : Option Predicate} (hw : w ∉ ["AND", "OR", "NOT", "IS", "NULL", "IN", "LIKE"]) :
    .word w ∈ (whereParts filter).map Part.token ↔ w = "WHERE" ∧ filter ≠ none := by
  cases filter with
  | none => simp [whereParts]
  | some p =>
      have hcondition : .word w ∉ p.tokens := fun h => hw (Predicate.mem_words_of_mem_tokens h)
      rw [whereParts, List.map_cons, List.mem_cons, ← Predicate.tokens]
      simp [Part.token, hcondition]

theorem word_mem_orderParts {terms : List OrderTerm} (hw : w ∉ ["BY", "ASC", "DESC"]) :
    .word w ∈ (orderParts terms).map Part.token ↔ w = "ORDER" ∧ terms ≠ [] := by
  constructor
  · intro h
    have hword := mem_words_of_mem_orderParts h
    refine ⟨(List.mem_cons.1 hword).resolve_right hw, ?_⟩
    rintro rfl
    cases h
  · rintro ⟨rfl, hne⟩
    obtain ⟨term, rest, rfl⟩ := List.exists_cons_of_ne_nil hne
    exact List.mem_cons_self

theorem word_mem_pageParts {limit offset : UInt64} : .word w ∈ (pageParts limit offset).map Part.token ↔
    limit ≠ 0 ∧ (w = "LIMIT" ∨ w = "OFFSET" ∧ offset ≠ 0) := by
  by_cases hlimit : limit = 0
  · simp [pageParts, hlimit]
  · by_cases hoffset : offset = 0 <;> simp [pageParts, hlimit, hoffset, Part.token]

/-- A word of a selection is one of its first two or belongs to one of its clauses. -/
theorem word_mem_select {table : String} {q : Query} :
    .word w ∈ ofChars (Statement.select table q).text.toList ↔ w = "SELECT" ∨ w = "FROM" ∨
      .word w ∈ (whereParts q.filter).map Part.token ∨ .word w ∈ (orderParts q.order).map Part.token ∨
        .word w ∈ (pageParts q.limit q.offset).map Part.token := by
  rw [Statement.ofChars_select]
  simp only [Command.parts, List.map_cons, List.map_append, List.mem_cons, List.mem_append, Part.token,
    Token.word.injEq, reduceCtorEq, false_or, or_assoc]

end

/-! ## The clauses of a selection -/

/-- Nothing is found behind a word that is not there. -/
theorem dropWhile_of_not_mem {w : String} {ts : List Token} (h : .word w ∉ ts) :
    ts.dropWhile (fun t => !isOneOf [w] t) = [] := by
  have hend := @dropWhile_isOneOf [w] ts [] (not_isOneOf_of_not_mem h) (by simp)
  rwa [List.append_nil] at hend

theorem where_mem_select {table : String} {q : Query} :
    .word "WHERE" ∈ ofChars (Statement.select table q).text.toList ↔ q.filter ≠ none := by
  simp [word_mem_select, word_mem_whereParts, word_mem_orderParts, word_mem_pageParts]

theorem order_mem_select {table : String} {q : Query} :
    .word "ORDER" ∈ ofChars (Statement.select table q).text.toList ↔ q.order ≠ [] := by
  simp [word_mem_select, word_mem_whereParts, word_mem_orderParts, word_mem_pageParts]

theorem limit_mem_select {table : String} {q : Query} :
    .word "LIMIT" ∈ ofChars (Statement.select table q).text.toList ↔ q.limit ≠ 0 := by
  simp [word_mem_select, word_mem_whereParts, word_mem_orderParts, word_mem_pageParts]

theorem offset_mem_select {table : String} {q : Query} :
    .word "OFFSET" ∈ ofChars (Statement.select table q).text.toList ↔ q.limit ≠ 0 ∧ q.offset ≠ 0 := by
  simp [word_mem_select, word_mem_whereParts, word_mem_orderParts, word_mem_pageParts]

/-- The condition of a selection, which is empty without a filter, names the columns of the filter. -/
theorem names_conditionTokens_select (table : String) (q : Query) :
    (conditionTokens (ofChars (Statement.select table q).text.toList)).filterMap Token.name? =
      (q.filter.map Predicate.columns).getD [] := by
  cases hfilter : q.filter with
  | none =>
      have hnone : .word "WHERE" ∉ ofChars (Statement.select table q).text.toList := by
        rw [where_mem_select, hfilter, not_not]
      rw [conditionTokens, dropWhile_of_not_mem hnone]
      rfl
  | some p =>
      rw [conditionTokens_select table hfilter, p.filterMap_name_tokens]
      rfl

/-- The tokens of the ordering of a statement, which ends where the rows are cut. -/
def orderTokens (ts : List Token) : List Token :=
  (ts.dropWhile fun t => !isOneOf ["ORDER"] t).takeWhile fun t => !isOneOf ["LIMIT"] t

theorem orderTokens_select (table : String) (q : Query) :
    orderTokens (ofChars (Statement.select table q).text.toList) = (orderParts q.order).map Part.token := by
  cases horder : q.order with
  | nil =>
      have hnone : .word "ORDER" ∉ ofChars (Statement.select table q).text.toList := by
        rw [order_mem_select, horder, not_not]
      rw [orderTokens, dropWhile_of_not_mem hnone]
      rfl
  | cons term rest =>
      -- The columns of the condition stand between quotes, so the first `ORDER` is that of the clause.
      have hfront : .word "ORDER" ∉ selectionTokens table ++ (whereParts q.filter).map Part.token := by
        simp [selectionTokens, word_mem_whereParts]
      have hclause : ∀ t, ((orderParts (term :: rest)).map Part.token ++
          (pageParts q.limit q.offset).map Part.token).head? = some t → isOneOf ["ORDER"] t = true := by
        rintro _ ⟨⟩
        rfl
      rw [orderTokens, ofChars_select_clauses, horder, ← List.append_assoc,
        dropWhile_isOneOf (not_isOneOf_of_not_mem hfront) hclause]
      exact takeWhile_isOneOf (not_isOneOf_orderParts _) (isOneOf_head_pageParts _ _)

theorem names_orderTokens_select (table : String) (q : Query) :
    (orderTokens (ofChars (Statement.select table q).text.toList)).filterMap Token.name? =
      q.order.map OrderTerm.column := by
  rw [orderTokens_select, filterMap_name_orderParts]

/-! ## The normal form -/

/-- What is sure of a query that is built by calls, however calls of different kinds are mixed. -/
structure NormalForm (table : String) (calls : List QueryCall) : Prop where
  /-- Neighbouring calls of different kinds can change places. -/
  commute : ∀ before a b after, before ++ a :: b :: after = calls → a.kind ≠ b.kind →
    Query.build (before ++ b :: a :: after) = Query.build calls
  /-- Calls that ask for the same filters and order terms, and that end with the same limit and offset, are as good. -/
  depends : ∀ calls', Request.ofCalls calls' = Request.ofCalls calls → Query.build calls' = Query.build calls ∧
    Statement.select table (Query.build calls') = Statement.select table (Query.build calls)
  /-- The statement is written from what was asked for, clause by clause. -/
  statement : Statement.select table (Query.build calls) = (Request.ofCalls calls).statement table
  /-- Its condition is the conjunction of the filters as a whole. -/
  conjunction : (Query.build calls).filter = Predicate.all? (Request.ofCalls calls).filters ∧
    ∀ p, Predicate.all? (Request.ofCalls calls).filters = some p →
      p.text = String.intercalate " AND " ((Request.ofCalls calls).filters.map Predicate.text) ∧
        p.params = (Request.ofCalls calls).filters.flatMap Predicate.params
  /-- A clause stands in the text if and only if there is something to write in it. -/
  filtered : .word "WHERE" ∈ ofChars (Statement.select table (Query.build calls)).text.toList ↔
    (Request.ofCalls calls).filters ≠ []
  ordered : .word "ORDER" ∈ ofChars (Statement.select table (Query.build calls)).text.toList ↔
    (Request.ofCalls calls).order ≠ []
  limited : .word "LIMIT" ∈ ofChars (Statement.select table (Query.build calls)).text.toList ↔
    (Request.ofCalls calls).limit ≠ 0
  skipping : .word "OFFSET" ∈ ofChars (Statement.select table (Query.build calls)).text.toList ↔
    (Request.ofCalls calls).limit ≠ 0 ∧ (Request.ofCalls calls).offset ≠ 0
  /-- The columns that are reported are those of the filters and of the order terms. -/
  columns : (Query.build calls).columns =
    (Request.ofCalls calls).filters.flatMap Predicate.columns ++ (Request.ofCalls calls).order.map OrderTerm.column
  /-- They are the names between quotes, first those of the condition and then those of the ordering. -/
  clauses : (Query.build calls).columns =
    (conditionTokens (ofChars (Statement.select table (Query.build calls)).text.toList)).filterMap Token.name? ++
      (orderTokens (ofChars (Statement.select table (Query.build calls)).text.toList)).filterMap Token.name?
  quoted : (ofChars (Statement.select table (Query.build calls)).text.toList).filterMap Token.name? =
    table :: (Query.build calls).columns

/-- Every sequence of calls builds a query in normal form. -/
theorem normalForm_build (table : String) (calls : List QueryCall) : NormalForm table calls where
  commute := by
    rintro before a b after rfl hkind
    simp only [Query.build, List.foldl_append, List.foldl_cons, QueryCall.apply_comm hkind]
  depends := fun calls' h => by
    rw [Query.build_eq_query, Query.build_eq_query, h]
    exact ⟨rfl, rfl⟩
  statement := by
    rw [Query.build_eq_query, Statement.select_query]
  conjunction := by
    rw [Query.build_eq_query]
    exact ⟨rfl, fun p hp => ⟨Predicate.text_of_all? hp, Predicate.collect_of_all? (fun _ _ => rfl) hp⟩⟩
  filtered := by
    rw [where_mem_select, Query.build_eq_query, Request.query, Ne, Predicate.all?_eq_none]
  ordered := by
    rw [order_mem_select, Query.build_eq_query]
    rfl
  limited := by
    rw [limit_mem_select, Query.build_eq_query]
    rfl
  skipping := by
    rw [offset_mem_select, Query.build_eq_query]
    rfl
  columns := by
    rw [Query.build_eq_query, Query.columns_query]
  clauses := by
    rw [names_conditionTokens_select, names_orderTokens_select, Query.columns]
  quoted := by
    rw [Statement.ofChars_select, Command.filterMap_name_parts, Command.names]

/-- The first limit does not count, and the offset counts with the last one, although it is set before. -/
example : Statement.select "t" (Query.build [.limit 5, .filter (.isNull "a"), .order ⟨"b", true⟩, .offset 2,
      .filter (.eq "c" (.int 1)), .limit 3]) =
    Statement.mk "SELECT * FROM \"t\" WHERE \"a\" IS NULL AND \"c\" = ? ORDER BY \"b\" DESC LIMIT 3 OFFSET 2"
      [.int 1] := by
  rfl

end RecordTables.Sql
