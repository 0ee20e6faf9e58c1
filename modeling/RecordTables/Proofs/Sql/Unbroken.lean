import RecordTables.Schema.Table
import RecordTables.Proofs.Sql.Tokens

/-!
# Texts that are read to their end

A statement ends at the first NUL, wherever it stands.  A statement whose names hold none is read as a whole; of a name
that holds one, only its beginning is read, and no quote closes it.
-/

namespace RecordTables.Sql

open RecordTables.Engine (Token)
open RecordTables.Engine.Token (ofChars ofChars_nil ofChars_front scan front)

/-- A text without a NUL. -/
def Unbroken (s : String) : Prop := '\x00' ∉ s.toList

instance (s : String) : Decidable (Unbroken s) := inferInstanceAs (Decidable ('\x00' ∉ s.toList))

theorem unbroken_append {s t : String} : Unbroken (s ++ t) ↔ Unbroken s ∧ Unbroken t := by
  simp only [Unbroken, String.toList_append, List.mem_append, not_or]

/-- Only quotes are written in another number. -/
theorem mem_doubleQuotes {c : Char} (hc : c ≠ '"') {name : List Char} : c ∈ doubleQuotes name ↔ c ∈ name := by
  induction name with
  | nil => rfl
  | cons d name ih =>
      unfold doubleQuotes
      split
      · rename_i hd
        subst hd
        simp [hc, ih]
      · simp [ih]

theorem unbroken_quote {name : String} : Unbroken (quote name) ↔ Unbroken name := by
  have hquote : Unbroken "\"" := by decide
  have hinner : Unbroken (String.ofList (doubleQuotes name.toList)) ↔ Unbroken name := by
    rw [Unbroken, String.toList_ofList, mem_doubleQuotes (by decide), Unbroken]
  rw [quote, unbroken_append, unbroken_append, hinner]
  simp only [hquote, true_and, and_true]

theorem unbroken_commaList {texts : List String} (h : ∀ s ∈ texts, Unbroken s) : Unbroken (commaList texts) := by
  have hcomma : Unbroken ", " := by decide
  induction texts with
  | nil => decide
  | cons s texts ih =>
      rw [List.forall_mem_cons] at h
      cases texts with
      | nil => simpa [commaList] using h.1
      | cons t texts =>
          have hsplit : commaList (s :: t :: texts) = s ++ ", " ++ commaList (t :: texts) := by
            simp [commaList, String.intercalate_cons_cons]
          rw [hsplit, unbroken_append, unbroken_append]
          exact ⟨⟨h.1, hcomma⟩, ih h.2⟩

theorem unbroken_quoteList {names : List String} (h : ∀ n ∈ names, Unbroken n) : Unbroken (quoteList names) := by
  apply unbroken_commaList
  intro s hs
  obtain ⟨n, hn, rfl⟩ := List.mem_map.1 hs
  exact unbroken_quote.2 (h n hn)

theorem unbroken_marks (count : Nat) : Unbroken (marks count) := by
  apply unbroken_commaList
  intro s hs
  rw [List.eq_of_mem_replicate hs]
  decide

/-! ## Statements -/

theorem Predicate.unbroken_text {p : Predicate} (h : ∀ c ∈ p.columns, Unbroken c) : Unbroken p.text := by
  induction p with
  | and left right ihl ihr =>
      simp only [columns, List.forall_mem_append] at h
      rw [text, unbroken_append, unbroken_append]
      exact ⟨⟨ihl h.1, by decide⟩, ihr h.2⟩
  | or left right ihl ihr =>
      simp only [columns, List.forall_mem_append] at h
      rw [text, unbroken_append, unbroken_append]
      exact ⟨⟨ihl h.1, by decide⟩, ihr h.2⟩
  | not body ih =>
      rw [text, unbroken_append]
      exact ⟨by decide, ih h⟩
  | isNull column =>
      rw [text, unbroken_append, unbroken_quote]
      exact ⟨h column (List.mem_singleton_self _), by decide⟩
  | isIn column values =>
      rw [text, unbroken_append, unbroken_append, unbroken_append, unbroken_quote]
      exact ⟨⟨⟨h column (List.mem_singleton_self _), by decide⟩, unbroken_marks _⟩, by decide⟩
  | compare column comparison value =>
      rw [text, unbroken_append, unbroken_append, unbroken_append, unbroken_quote]
      refine ⟨⟨⟨h column (List.mem_singleton_self _), by decide⟩, ?_⟩, by decide⟩
      cases comparison <;> decide

theorem unbroken_whereText {filter : Option Predicate} (h : ∀ p, filter = some p → ∀ c ∈ p.columns, Unbroken c) :
    Unbroken (whereText filter) := by
  cases filter with
  | none => decide
  | some p =>
      rw [whereText, unbroken_append]
      exact ⟨by decide, p.unbroken_text (h p rfl)⟩

theorem Statement.unbroken_insert {table : String} {row : Row} (htable : Unbroken table)
    (hrow : ∀ n ∈ row.names, Unbroken n) : Unbroken (insert table row).text := by
  simp only [insert, unbroken_append, unbroken_quote, htable, unbroken_quoteList hrow, unbroken_marks, and_true]
  decide

theorem Statement.unbroken_select_all {table : String} (htable : Unbroken table) :
    Unbroken (select table .empty).text := by
  simp only [select, Query.empty, whereText, orderText, pageText, if_true, unbroken_append, unbroken_quote, htable,
    and_true]
  decide

theorem Statement.unbroken_update {table : String} {row : Row} {filter : Option Predicate} {s : Statement}
    (hs : update? table row filter = some s) (htable : Unbroken table) (hrow : ∀ n ∈ row.names, Unbroken n)
    (hfilter : ∀ p, filter = some p → ∀ c ∈ p.columns, Unbroken c) : Unbroken s.text := by
  unfold update? at hs
  split at hs
  · cases hs
  · cases hs
    have hlist : Unbroken (commaList (row.names.map fun n => quote n ++ " = ?")) := by
      apply unbroken_commaList
      intro t ht
      obtain ⟨n, hn, rfl⟩ := List.mem_map.1 ht
      rw [unbroken_append, unbroken_quote]
      exact ⟨hrow n hn, by decide⟩
    simp only [unbroken_append, unbroken_quote, htable, hlist, unbroken_whereText hfilter, and_true]
    decide

theorem Statement.unbroken_delete {table : String} {filter : Option Predicate} (htable : Unbroken table)
    (hfilter : ∀ p, filter = some p → ∀ c ∈ p.columns, Unbroken c) : Unbroken (delete table filter).text := by
  simp only [delete, unbroken_append, unbroken_quote, htable, unbroken_whereText hfilter, and_true]
  decide

/-! ## Broken names -/

/-- The quotes of a name that stand in pairs close nothing. -/
theorem unquote_doubleQuotes_open (name : List Char) : unquote '"' (doubleQuotes name) = none := by
  induction name with
  | nil => rfl
  | cons c name ih =>
      by_cases hc : c = '"'
      · simp [doubleQuotes, hc, unquote, ih]
      · cases hs : doubleQuotes name with
        | nil => simp [doubleQuotes, hc, hs, unquote]
        | cons d tail =>
            rw [hs] at ih
            simp [doubleQuotes, hc, hs, unquote, ih]

theorem takeWhile_doubleQuotes (name : List Char) :
    (doubleQuotes name).takeWhile (· != '\x00') = doubleQuotes (name.takeWhile (· != '\x00')) := by
  induction name with
  | nil => rfl
  | cons c name ih =>
      by_cases hc : c = '"'
      · subst hc
        simp [doubleQuotes, ih]
      · by_cases hnul : c = '\x00'
        · subst hnul
          simp [doubleQuotes]
        · simp [doubleQuotes, hc, hnul, ih]

/-- A quoted name that nothing closes is illegal, and takes all that is left. -/
theorem ofChars_open_quote (name : List Char) : ofChars ('"' :: doubleQuotes name) = [.illegal] := by
  have hfront : front ('"' :: doubleQuotes name ++ []) = (.illegal, (doubleQuotes name).length + 1) := by
    simp [front, unquote_doubleQuotes_open]
  have htoken := ofChars_front (by decide) hfront
  rwa [List.append_nil, ofChars_nil] at htoken

/-- Of a broken name and all that follows, only the open quote and the beginning are read. -/
theorem map_token_scan_broken {text name : String} {before after : List Char} (hbefore : '\x00' ∉ before)
    (hname : ¬ Unbroken name) (htext : text.toList = before ++ ((quote name).toList ++ after)) :
    ∃ read, (scan text).map Engine.Located.token = ofChars (before ++ '"' :: doubleQuotes read) := by
  refine ⟨name.toList.takeWhile (· != '\x00'), ?_⟩
  have hkeep : ∀ c ∈ before, (c != '\x00') = true := by
    intro c hc
    simp only [bne_iff_ne, ne_eq]
    exact fun e => hbefore (e ▸ hc)
  -- The NUL stands within the name, so nothing behind the name is read.
  have hcut : ((quote name).toList ++ after).takeWhile (· != '\x00') =
      '"' :: doubleQuotes (name.toList.takeWhile (· != '\x00')) := by
    have hchars : (quote name).toList ++ after = '"' :: (doubleQuotes name.toList ++ '"' :: after) := by
      simp [quote]
    have hmem : '\x00' ∈ doubleQuotes name.toList := (mem_doubleQuotes (by decide)).2 (Decidable.not_not.1 hname)
    rw [hchars, List.takeWhile_cons_of_pos (by decide), ← takeWhile_doubleQuotes]
    congr 1
    rw [List.takeWhile_append, if_neg]
    intro hall
    have hsame := (List.takeWhile_prefix (· != '\x00')).eq_of_length hall
    have hall : ∀ c ∈ doubleQuotes name.toList, (c != '\x00') = true := by
      rw [← hsame]
      exact List.all_eq_true.1 List.all_takeWhile
    exact absurd (hall _ hmem) (by decide)
  simp only [scan, htext, List.takeWhile_append_of_pos hkeep, hcut, ofChars]

end RecordTables.Sql
