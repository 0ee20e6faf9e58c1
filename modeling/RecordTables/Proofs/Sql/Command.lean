import Mathlib.Data.List.Forall2
import RecordTables.Proofs.Sql.Boundaries

/-!
# Statements say what was asked for

A command is what one of the four data statements is written for.  The text of its statement reads as the template
of the command, mark by mark with the values in the order of the template, and it determines the command as far as
the store can tell: nothing that a name contains moves the end of a token.
-/

namespace RecordTables.Sql

open RecordTables.Engine (Token)
open RecordTables.Engine.Token (ofChars Ends ends_nil ends_space ends_close ofChars_space ofChars_keyword ofChars_open
  ofChars_close ofChars_mark ofChars_quote ofChars_star ofChars_commaList ofChars_comparison
  takeWhile_append_of_not_head)

/-- What a statement is written for. -/
inductive Command where
  | insert (table : String) (row : Row)
  | select (table : String) (q : Query)
  | update (table : String) (row : Row) (filter : Option Predicate)
  | delete (table : String) (filter : Option Predicate)

namespace Command

/-- The statement of a command.  An update that assigns nothing has none. -/
def statement? : Command → Option Statement
  | .insert table row => some (Statement.insert table row)
  | .select table q => some (Statement.select table q)
  | .update table row filter => Statement.update? table row filter
  | .delete table filter => some (Statement.delete table filter)

/-- An assignment of a column. -/
def assignment (column : String) : List Part := [.name column, .sign "=", .mark (.assigned column)]

/-- The template of a command. -/
def parts : Command → List Part
  | .insert table row =>
      .word "INSERT" :: .word "INTO" :: .name table :: .sign "(" ::
        (Part.commas (row.names.map fun n => [.name n]) ++ .sign ")" :: .word "VALUES" :: .sign "(" ::
          (Part.commas (row.names.map fun n => [.mark (.inserted n)]) ++ [.sign ")"]))
  | .select table q =>
      .word "SELECT" :: .sign "*" :: .word "FROM" :: .name table ::
        (whereParts q.filter ++ orderParts q.order ++ pageParts q.limit q.offset)
  | .update table row filter =>
      .word "UPDATE" :: .name table :: .word "SET" ::
        (Part.commas (row.names.map assignment) ++ whereParts filter)
  | .delete table filter => .word "DELETE" :: .word "FROM" :: .name table :: whereParts filter

/-- The values of a command, each with the slot that it is meant for. -/
def bindings : Command → List (Slot × Value)
  | .insert _ row => row.entries.map fun e => (.inserted e.1, e.2)
  | .select _ q => whereBindings q.filter
  | .update _ row filter => (row.entries.map fun e => (.assigned e.1, e.2)) ++ whereBindings filter
  | .delete _ filter => whereBindings filter

/-- The names of a command, in the order of the text. -/
def names : Command → List String
  | .insert table row => table :: row.names
  | .select table q => table :: q.columns
  | .update table row filter => table :: (row.names ++ (filter.map Predicate.columns).getD [])
  | .delete table filter => table :: (filter.map Predicate.columns).getD []

end Command

/-! ## Texts read as templates -/

namespace Statement

theorem ofChars_insert (table : String) (row : Row) :
    ofChars (insert table row).text.toList = (Command.insert table row).parts.map Part.token := by
  have hmarks : marks row.size = commaList (row.names.map fun _ => "?") := by
    rw [← marks_length, Row.names, List.length_map, Row.size]
  have htext : (insert table row).text = "INSERT INTO " ++ quote table ++ " (" ++ commaList (row.names.map quote) ++
      ") VALUES (" ++ marks row.size ++ ")" := rfl
  -- The text in its pieces, each of them in front of all that follows.
  have hsplit : (insert table row).text.toList =
      "INSERT".toList ++ ' ' :: ("INTO".toList ++ ' ' :: ((quote table).toList ++ ' ' :: '(' ::
        ((commaList (row.names.map quote)).toList ++ ')' :: ' ' :: ("VALUES".toList ++ ' ' :: '(' ::
          ((commaList (row.names.map fun _ => "?")).toList ++ ')' :: []))))) := by
    rw [htext, hmarks]
    simp
  have hname : ∀ (n : String) (r : List Char), Ends r →
      ofChars ((quote n).toList ++ r) = [Token.name n] ++ ofChars r :=
    fun n _ hr => ofChars_quote n hr
  have hmark : ∀ (_ : String) (r : List Char), Ends r →
      ofChars ("?".toList ++ r) = [Token.mark none] ++ ofChars r :=
    fun _ _ hr => ofChars_mark hr
  rw [hsplit, ofChars_keyword (by decide), ofChars_keyword (by decide), ofChars_quote table (ends_space _),
    ofChars_space, ofChars_open, ofChars_commaList hname row.names (ends_close _), ofChars_close, ofChars_space,
    ofChars_keyword (by decide), ofChars_open, ofChars_commaList hmark row.names (ends_close _), ofChars_close]
  simp [Command.parts, Part.token, Part.map_token_commas, Function.comp_def]

theorem ofChars_select (table : String) (q : Query) :
    ofChars (select table q).text.toList = (Command.select table q).parts.map Part.token := by
  have hpage := ends_pageText q.limit q.offset
  have horder := ends_orderText q.order hpage
  have htext : (select table q).text = "SELECT * FROM " ++ quote table ++ whereText q.filter ++
      orderText q.order ++ pageText q.limit q.offset := rfl
  have hsplit : (select table q).text.toList =
      "SELECT".toList ++ ' ' :: '*' :: ' ' :: ("FROM".toList ++ ' ' :: ((quote table).toList ++
        ((whereText q.filter).toList ++ ((orderText q.order).toList ++ (pageText q.limit q.offset).toList)))) := by
    rw [htext]
    simp
  rw [hsplit, ofChars_keyword (by decide), ofChars_star, ofChars_space, ofChars_keyword (by decide),
    ofChars_quote table (ends_whereText q.filter horder), ofChars_whereText q.filter horder,
    ofChars_orderText q.order hpage, ofChars_pageText]
  simp [Command.parts, Part.token]

theorem ofChars_update {table : String} {row : Row} {filter : Option Predicate} {s : Statement}
    (h : update? table row filter = some s) :
    ofChars s.text.toList = (Command.update table row filter).parts.map Part.token := by
  have hwhere : Ends ((whereText filter).toList ++ []) := ends_whereText filter ends_nil
  simp only [update?] at h
  split at h
  · cases h
  · cases h
    have hsplit : ("UPDATE " ++ quote table ++ " SET " ++ commaList (row.names.map fun n => quote n ++ " = ?") ++
        whereText filter).toList =
        "UPDATE".toList ++ ' ' :: ((quote table).toList ++ ' ' :: ("SET".toList ++ ' ' ::
          ((commaList (row.names.map fun n => quote n ++ " = ?")).toList ++
            ((whereText filter).toList ++ [])))) := by
      simp
    have hassignment : ∀ (n : String) (r : List Char), Ends r →
        ofChars ((quote n ++ " = ?").toList ++ r) = (Command.assignment n).map Part.token ++ ofChars r := by
      intro n r hr
      have hpiece : (quote n ++ " = ?").toList ++ r =
          (quote n).toList ++ ' ' :: (Comparison.eq.sign.toList ++ ' ' :: '?' :: r) := by
        simp [Comparison.sign]
      rw [hpiece, ofChars_quote n (ends_space _), ofChars_space, ofChars_comparison, ofChars_mark hr]
      rfl
    rw [hsplit, ofChars_keyword (by decide), ofChars_quote table (ends_space _), ofChars_space,
      ofChars_keyword (by decide), ofChars_commaList hassignment row.names hwhere,
      ofChars_whereText filter ends_nil]
    simp [Command.parts, Part.token, Part.map_token_commas, Function.comp_def]

theorem ofChars_delete (table : String) (filter : Option Predicate) :
    ofChars (delete table filter).text.toList = (Command.delete table filter).parts.map Part.token := by
  have hsplit : (delete table filter).text.toList =
      "DELETE".toList ++ ' ' :: ("FROM".toList ++ ' ' :: ((quote table).toList ++
        ((whereText filter).toList ++ []))) := by
    simp [delete]
  rw [hsplit, ofChars_keyword (by decide), ofChars_keyword (by decide),
    ofChars_quote table (ends_whereText filter ends_nil), ofChars_whereText filter ends_nil]
  simp [Command.parts, Part.token]

end Statement

/-! ## Commands and their templates -/

namespace Command

theorem filterMap_name_assignments (columns : List String) :
    ((Part.commas (columns.map assignment)).map Part.token).filterMap Token.name? = columns := by
  rw [List.filterMap_map, Part.filterMap_commas rfl]
  exact List.flatMap_singleton' columns

theorem not_isOneOf_assignments (columns : List String) :
    ∀ t ∈ (Part.commas (columns.map assignment)).map Part.token, isOneOf ["WHERE"] t = false := by
  intro t ht
  obtain ⟨part, hpart, rfl⟩ := List.mem_map.1 ht
  rcases Part.mem_commas hpart with rfl | ⟨piece, hpiece, hpart⟩
  · rfl
  · obtain ⟨column, _, rfl⟩ := List.mem_map.1 hpiece
    simp only [assignment, List.mem_cons, List.not_mem_nil, or_false] at hpart
    rcases hpart with rfl | rfl | rfl <;> rfl

/-- The assignments of an update end where its filter starts. -/
theorem assignments_inj {columns columns' : List String} {filter filter' : Option Predicate}
    (h : (Part.commas (columns.map assignment) ++ whereParts filter).map Part.token =
      (Part.commas (columns'.map assignment) ++ whereParts filter').map Part.token) :
    columns = columns' ∧ filter.map Predicate.tokens = filter'.map Predicate.tokens := by
  rw [List.map_append, List.map_append] at h
  obtain ⟨hassignments, hwhere⟩ := append_inj_of_stop (not_isOneOf_assignments columns)
    (not_isOneOf_assignments columns') (isOneOf_head_whereParts filter) (isOneOf_head_whereParts filter') h
  refine ⟨?_, whereParts_inj hwhere⟩
  rw [← filterMap_name_assignments columns, hassignments, filterMap_name_assignments]

theorem ofChars_text {c : Command} {s : Statement} (h : c.statement? = some s) :
    ofChars s.text.toList = c.parts.map Part.token := by
  cases c with
  | insert table row =>
      obtain rfl := Option.some.inj h
      exact Statement.ofChars_insert table row
  | select table q =>
      obtain rfl := Option.some.inj h
      exact Statement.ofChars_select table q
  | update table row filter => exact Statement.ofChars_update h
  | delete table filter =>
      obtain rfl := Option.some.inj h
      exact Statement.ofChars_delete table filter

/-- The parameters of a statement are the values of its command. -/
theorem params_eq {c : Command} {s : Statement} (h : c.statement? = some s) :
    s.params = c.bindings.map Prod.snd := by
  cases c with
  | insert table row =>
      obtain rfl := Option.some.inj h
      change row.values = _
      simp [bindings, Row.values, Function.comp_def]
  | select table q =>
      obtain rfl := Option.some.inj h
      exact (map_snd_whereBindings q.filter).symm
  | update table row filter =>
      simp only [statement?, Statement.update?] at h
      split at h
      · cases h
      · cases h
        simp [bindings, Row.values, map_snd_whereBindings, Function.comp_def]
  | delete table filter =>
      obtain rfl := Option.some.inj h
      exact (map_snd_whereBindings filter).symm

theorem filterMap_slot_parts (c : Command) : c.parts.filterMap Part.slot? = c.bindings.map Prod.fst := by
  cases c with
  | insert table row =>
      have hnames : (Part.commas (row.names.map fun n => [.name n])).filterMap Part.slot? = [] := by
        rw [Part.filterMap_commas rfl]
        simp [Part.slot?]
      have hmarks : (Part.commas (row.names.map fun n => [.mark (.inserted n)])).filterMap Part.slot? =
          row.names.map Slot.inserted := by
        rw [Part.filterMap_commas rfl, List.map_eq_flatMap]
        rfl
      have hslots : (row.entries.map fun e => (Slot.inserted e.1, e.2)).map Prod.fst =
          row.names.map Slot.inserted := by
        simp [Row.names]
      rw [bindings, hslots]
      simp [parts, hnames, hmarks, Part.slot?, List.filterMap_cons]
  | select table q =>
      simp [parts, bindings, Part.slot?, List.filterMap_cons, filterMap_slot_whereParts,
        filterMap_slot_orderParts, filterMap_slot_pageParts]
  | update table row filter =>
      have hassignments : (Part.commas (row.names.map assignment)).filterMap Part.slot? =
          row.names.map Slot.assigned := by
        rw [Part.filterMap_commas rfl, List.map_eq_flatMap]
        rfl
      have hslots : (row.entries.map fun e => (Slot.assigned e.1, e.2)).map Prod.fst =
          row.names.map Slot.assigned := by
        simp [Row.names]
      rw [bindings, List.map_append, hslots]
      simp [parts, hassignments, Part.slot?, List.filterMap_cons, filterMap_slot_whereParts]
  | delete table filter => simp [parts, bindings, Part.slot?, List.filterMap_cons, filterMap_slot_whereParts]

/-- The quoted names of a command are its names and no others. -/
theorem filterMap_name_parts (c : Command) : (c.parts.map Part.token).filterMap Token.name? = c.names := by
  cases c with
  | insert table row =>
      have hnames : (Part.commas (row.names.map fun n => [.name n])).filterMap (Token.name? ∘ Part.token) =
          row.names := by
        rw [Part.filterMap_commas rfl]
        exact List.flatMap_singleton' row.names
      have hmarks : (Part.commas (row.names.map fun n => [.mark (.inserted n)])).filterMap
          (Token.name? ∘ Part.token) = [] := by
        rw [Part.filterMap_commas rfl]
        simp [Part.token, Token.name?]
      rw [List.filterMap_map]
      simp [parts, names, hnames, hmarks, Part.token, Token.name?, List.filterMap_cons]
  | select table q =>
      have hwhere := filterMap_name_whereParts q.filter
      have horder := filterMap_name_orderParts q.order
      have hpage := filterMap_name_pageParts q.limit q.offset
      simp only [parts, names, Query.columns, List.map_cons, List.map_append, List.filterMap_cons,
        List.filterMap_append, hwhere, horder, hpage, Part.token, Token.name?, List.append_nil]
  | update table row filter =>
      have hassignments := filterMap_name_assignments row.names
      have hwhere := filterMap_name_whereParts filter
      simp only [parts, names, List.map_cons, List.map_append, List.filterMap_cons, List.filterMap_append,
        hassignments, hwhere, Part.token, Token.name?]
  | delete table filter =>
      have hwhere := filterMap_name_whereParts filter
      simp only [parts, names, List.map_cons, List.filterMap_cons, hwhere, Part.token, Token.name?]

/-! ## Commands with one text -/

/-- Filters that read the same and whose values agree one by one. -/
def FiltersAgree (agree : Value → Value → Prop) (filter filter' : Option Predicate) : Prop :=
  filter.map Predicate.tokens = filter'.map Predicate.tokens ∧
    List.Forall₂ agree (whereParams filter) (whereParams filter')

/-- Entries under the same names in the same order, with values that agree. -/
def RowsAgree (agree : Value → Value → Prop) (row row' : Row) : Prop :=
  List.Forall₂ (fun e e' => e.1 = e'.1 ∧ agree e.2 e'.2) row.entries row'.entries

/-- Commands of one kind that ask for the same, up to how values are compared. -/
def Agree (agree : Value → Value → Prop) : Command → Command → Prop
  | .insert table row, .insert table' row' => table = table' ∧ RowsAgree agree row row'
  | .select table q, .select table' q' =>
      table = table' ∧ FiltersAgree agree q.filter q'.filter ∧ q.order = q'.order ∧
        page? q.limit q.offset = page? q'.limit q'.offset
  | .update table row filter, .update table' row' filter' =>
      table = table' ∧ RowsAgree agree row row' ∧ FiltersAgree agree filter filter'
  | .delete table filter, .delete table' filter' => table = table' ∧ FiltersAgree agree filter filter'
  | _, _ => False

theorem rowsAgree_of_names {agree : Value → Value → Prop} {row row' : Row} (hnames : row.names = row'.names)
    (hvalues : List.Forall₂ agree row.values row'.values) : RowsAgree agree row row' := by
  obtain ⟨entries, distinct⟩ := row
  obtain ⟨entries', distinct'⟩ := row'
  simp only [Row.names, Row.values, RowsAgree] at *
  clear distinct distinct'
  induction entries generalizing entries' with
  | nil =>
      cases entries' with
      | nil => exact .nil
      | cons e' entries' => simp at hnames
  | cons e entries ih =>
      cases entries' with
      | nil => simp at hnames
      | cons e' entries' =>
          rw [List.map_cons, List.map_cons, List.cons.injEq] at hnames
          rw [List.map_cons, List.map_cons, List.forall₂_cons] at hvalues
          exact .cons ⟨hnames.1, hvalues.1⟩ (ih entries' hnames.2 hvalues.2)

/-- Lists of equal lengths in front of two lists are related pairwise on their own. -/
theorem forall₂_append {α : Type} {agree : α → α → Prop} {front front' back back' : List α}
    (hlength : front.length = front'.length) (h : List.Forall₂ agree (front ++ back) (front' ++ back')) :
    List.Forall₂ agree front front' ∧ List.Forall₂ agree back back' := by
  have htake := List.forall₂_take front.length h
  have hdrop := List.forall₂_drop front.length h
  rw [List.take_left, hlength, List.take_left] at htake
  rw [List.drop_left, hlength, List.drop_left] at hdrop
  exact ⟨htake, hdrop⟩

/-- The text of a command determines it, but for its values; these are its parameters. -/
theorem agree_of_tokens {agree : Value → Value → Prop} {c c' : Command}
    (htokens : c.parts.map Part.token = c'.parts.map Part.token)
    (hvalues : List.Forall₂ agree (c.bindings.map Prod.snd) (c'.bindings.map Prod.snd)) : Agree agree c c' := by
  have hnames : c.names = c'.names := by
    rw [← filterMap_name_parts, ← filterMap_name_parts, htokens]
  -- The first word tells the kinds apart, so only equal kinds are left.
  cases c with
  | insert table row =>
      cases c' with
      | insert table' row' =>
          rw [names, names, List.cons.injEq] at hnames
          refine ⟨hnames.1, rowsAgree_of_names hnames.2 ?_⟩
          simpa [bindings, Row.values, Function.comp_def] using hvalues
      | _ => exact absurd (List.cons.inj htokens).1 (by simp [Part.token])
  | select table q =>
      cases c' with
      | select table' q' =>
          have hclauses := (List.cons.inj (List.cons.inj (List.cons.inj (List.cons.inj htokens).2).2).2).2
          obtain ⟨hfilter, horder, hpage⟩ := clauses_inj hclauses
          rw [bindings, bindings, map_snd_whereBindings, map_snd_whereBindings] at hvalues
          exact ⟨(List.cons.inj hnames).1, ⟨hfilter, hvalues⟩, horder, hpage⟩
      | _ => exact absurd (List.cons.inj htokens).1 (by simp [Part.token])
  | update table row filter =>
      cases c' with
      | update table' row' filter' =>
          have hclauses := (List.cons.inj (List.cons.inj (List.cons.inj htokens).2).2).2
          obtain ⟨hrows, hwhere⟩ := assignments_inj hclauses
          -- There is one value for each assignment, so the values part where the assignments end.
          have hlength : row.values.length = row'.values.length := by
            simpa [Row.names, Row.values] using congrArg List.length hrows
          rw [bindings, bindings, List.map_append, List.map_append, map_snd_whereBindings,
            map_snd_whereBindings, List.map_map, List.map_map] at hvalues
          obtain ⟨hrow, hfilter⟩ := forall₂_append hlength hvalues
          exact ⟨(List.cons.inj hnames).1, rowsAgree_of_names hrows hrow, hwhere, hfilter⟩
      | _ => exact absurd (List.cons.inj htokens).1 (by simp [Part.token])
  | delete table filter =>
      cases c' with
      | delete table' filter' =>
          have hwhere := (List.cons.inj (List.cons.inj (List.cons.inj htokens).2).2).2
          rw [bindings, bindings, map_snd_whereBindings, map_snd_whereBindings] at hvalues
          exact ⟨(List.cons.inj hnames).1, whereParts_inj hwhere, hvalues⟩
      | _ => exact absurd (List.cons.inj htokens).1 (by simp [Part.token])

/-! ## Faithful statements -/

/-- A statement that says what a command asks for.  Its text has the tokens of the template, where every quoted name
is a name of the command and every mark stands in the slot of its parameter; and only commands that ask for the same
have its text, whether values agree when they are equal or when they compare as equal. -/
structure Faithful (c : Command) (s : Statement) : Prop where
  tokens : ofChars s.text.toList = c.parts.map Part.token
  quoted : (ofChars s.text.toList).filterMap Token.name? = c.names
  marks : (ofChars s.text.toList).countP Token.isMark = s.params.length
  slots : c.parts.filterMap Part.slot? = c.bindings.map Prod.fst
  params : s.params = c.bindings.map Prod.snd
  determines : ∀ (agree : Value → Value → Prop) (c' : Command) (s' : Statement), c'.statement? = some s' →
    s.text = s'.text → List.Forall₂ agree s.params s'.params → Agree agree c c'

/-- Whatever the names and values of a command are, its statement is faithful to it. -/
theorem statement_faithful {c : Command} {s : Statement} (h : c.statement? = some s) : Faithful c s := by
  have htokens := ofChars_text h
  have hparams := params_eq h
  have hslots := filterMap_slot_parts c
  refine ⟨htokens, ?_, ?_, hslots, hparams, ?_⟩
  · rw [htokens, filterMap_name_parts]
  · rw [htokens, countP_isMark_map_token, hslots, hparams, List.length_map, List.length_map]
  · intro agree c' s' h' htext hvalues
    have htokens' : c.parts.map Part.token = c'.parts.map Part.token := by
      rw [← htokens, htext, ofChars_text h']
    rw [hparams, params_eq h'] at hvalues
    exact agree_of_tokens htokens' hvalues

/-- Names with quotes, marks, commas and keywords in them, and an empty one, take nothing apart. -/
theorem statement_faithful_hostile_names :
    let c := Command.update "a\" SET \"b" ⟨[("", .null), ("x\" = ?, \"y", .int 1)], by decide⟩
      (some (.or (.isIn "? WHERE" [.int 2, .null]) (.isNull "\"\"")))
    let s : Statement :=
      { text := "UPDATE \"a\"\" SET \"\"b\" SET \"\" = ?, \"x\"\" = ?, \"\"y\" = ? WHERE \"? WHERE\" IN (?, ?)" ++
          " OR \"\"\"\"\"\" IS NULL"
        params := [.null, .int 1, .int 2, .null] }
    c.statement? = some s ∧ Faithful c s := by
  intro c s
  have h : c.statement? = some s := by rfl
  exact ⟨h, statement_faithful h⟩

end Command

end RecordTables.Sql
