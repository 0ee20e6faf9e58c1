import RecordTables.Proofs.Sql.Tokens

/-!
# Templates of statements

A template is a statement token by token, each parameter mark with the slot that it stands in.  The template of a
condition follows its tree and the template of a statement its clauses; `ofChars_text` of each says that the written
text reads as the template, whatever the names in it look like.
-/

namespace RecordTables.Sql

open RecordTables.Engine (Token)
open RecordTables.Engine.Token (ofChars Ends ends_nil ends_space ends_close ofChars_nil ofChars_space
  ofChars_keyword ofChars_word ofChars_open ofChars_close ofChars_mark ofChars_quote ofChars_integer
  ofChars_comparison ofChars_commaList
  spellsWord)

/-- What the value of a mark is for: the column it is stored under or compared with. -/
inductive Slot where
  | inserted (column : String)
  | assigned (column : String)
  | compared (column : String) (comparison : Comparison)
  | member (column : String)
  deriving DecidableEq, Repr

/-- A token of a template.  Only a mark has a slot, and every mark has one. -/
inductive Part where
  | word (text : String)
  | name (text : String)
  | sign (text : String)
  | integer (n : Nat)
  | mark (slot : Slot)
  deriving DecidableEq, Repr

namespace Part

def token : Part → Token
  | .word text => .word text
  | .name text => .name text
  | .sign text => .sign text
  | .integer n => .integer n
  | .mark _ => .mark none

def slot? : Part → Option Slot
  | .mark slot => some slot
  | _ => none

/-- Parts with a comma between any two of them. -/
def commas (parts : List (List Part)) : List Part := [.sign ","].intercalate parts

theorem map_token_commas (parts : List (List Part)) :
    (commas parts).map token = Token.commas (parts.map (List.map token)) := by
  induction parts with
  | nil => rfl
  | cons p ps ih =>
      cases ps with
      | nil => simp [commas, Token.commas]
      | cons q qs =>
          simp only [commas, Token.commas, List.intercalate_cons_cons, List.map_cons, List.map_append,
            List.map_nil, token] at ih ⊢
          rw [ih]

/-- Commas carry nothing, so what is picked from a list is what is picked from its pieces. -/
theorem filterMap_commas {α β : Type} {pick : Part → Option β} (hcomma : pick (.sign ",") = none)
    (piece : α → List Part) (xs : List α) :
    (commas (xs.map piece)).filterMap pick = xs.flatMap fun x => (piece x).filterMap pick := by
  induction xs with
  | nil => rfl
  | cons x xs ih =>
      cases xs with
      | nil => simp [commas]
      | cons y ys =>
          simp only [commas, List.map_cons, List.intercalate_cons_cons, List.filterMap_append,
            List.filterMap_cons, hcomma, List.filterMap_nil, List.append_nil, List.flatMap_cons] at ih ⊢
          rw [ih]

theorem mem_commas {part : Part} {parts : List (List Part)} (h : part ∈ commas parts) :
    part = .sign "," ∨ ∃ p ∈ parts, part ∈ p := by
  induction parts with
  | nil => simp [commas] at h
  | cons p ps ih =>
      cases ps with
      | nil => exact .inr ⟨p, by simp, by simpa [commas] using h⟩
      | cons q qs =>
          rw [commas, List.intercalate_cons_cons, List.append_assoc, List.mem_append, List.singleton_append,
            List.mem_cons] at h
          rcases h with h | h | h
          · exact .inr ⟨p, by simp, h⟩
          · exact .inl h
          · exact (ih h).imp id fun ⟨r, hr, hpart⟩ => ⟨r, by simp [hr], hpart⟩

end Part

/-- One mark for each item of a list. -/
theorem marks_length {α : Type} (xs : List α) : marks xs.length = commaList (xs.map fun _ => "?") := by
  simp [marks, List.map_const']

/-! ## Conditions -/

namespace Predicate

/-- The template of a condition: no parentheses but those of a list. -/
def parts : Predicate → List Part
  | .and left right => left.parts ++ .word "AND" :: right.parts
  | .or left right => left.parts ++ .word "OR" :: right.parts
  | .not body => .word "NOT" :: body.parts
  | .isNull column => [.name column, .word "IS", .word "NULL"]
  | .isIn column values =>
      .name column :: .word "IN" :: .sign "(" ::
        (Part.commas (values.map fun _ => [.mark (.member column)]) ++ [.sign ")"])
  | .compare column comparison _ =>
      [.name column, if comparison = .like then .word "LIKE" else .sign comparison.sign,
        .mark (.compared column comparison)]

/-- The values of a condition in the order of the tree, each with what it is for. -/
def bindings : Predicate → List (Slot × Value)
  | .and left right => left.bindings ++ right.bindings
  | .or left right => left.bindings ++ right.bindings
  | .not body => body.bindings
  | .isNull _ => []
  | .isIn column values => values.map fun v => (.member column, v)
  | .compare column comparison value => [(.compared column comparison, value)]

/-- The tokens of a condition. -/
def tokens (p : Predicate) : List Token := p.parts.map Part.token

theorem map_snd_bindings (p : Predicate) : p.bindings.map Prod.snd = p.params := by
  induction p with
  | and left right ihl ihr => simp [bindings, params, ihl, ihr]
  | or left right ihl ihr => simp [bindings, params, ihl, ihr]
  | not body ih => simpa [bindings, params] using ih
  | isNull column => rfl
  | isIn column values => simp [bindings, params, Function.comp_def]
  | compare column comparison value => rfl

/-- The marks of a condition stand in the slots of its values. -/
theorem filterMap_slot_parts (p : Predicate) : p.parts.filterMap Part.slot? = p.bindings.map Prod.fst := by
  induction p with
  | and left right ihl ihr => simp [bindings, parts, Part.slot?, List.filterMap_cons, ihl, ihr]
  | or left right ihl ihr => simp [bindings, parts, Part.slot?, List.filterMap_cons, ihl, ihr]
  | not body ih => simpa [bindings, parts, Part.slot?, List.filterMap_cons] using ih
  | isNull column => rfl
  | isIn column values =>
      have hmarks : (Part.commas (values.map fun _ => [.mark (.member column)])).filterMap Part.slot? =
          values.map fun _ => .member column := by
        rw [Part.filterMap_commas rfl, List.map_eq_flatMap]
        rfl
      have hbindings : (isIn column values).bindings.map Prod.fst = values.map fun _ => .member column := by
        simp only [bindings, List.map_map, Function.comp_def]
      rw [hbindings, ← hmarks, parts]
      simp only [List.filterMap_append, List.filterMap_cons, List.filterMap_nil, Part.slot?, List.append_nil]
  | compare column comparison value => cases comparison <;> rfl

/-- The quoted names of a condition are its columns. -/
theorem filterMap_name_tokens (p : Predicate) : p.tokens.filterMap Token.name? = p.columns := by
  simp only [tokens, List.filterMap_map]
  induction p with
  | and left right ihl ihr => simp [columns, parts, Part.token, Token.name?, List.filterMap_cons, ihl, ihr]
  | or left right ihl ihr => simp [columns, parts, Part.token, Token.name?, List.filterMap_cons, ihl, ihr]
  | not body ih => simpa [columns, parts, Part.token, Token.name?, List.filterMap_cons] using ih
  | isNull column => rfl
  | isIn column values =>
      have hmarks : (Part.commas (values.map fun _ => [.mark (.member column)])).filterMap
          (Token.name? ∘ Part.token) = [] := by
        rw [Part.filterMap_commas rfl]
        simp [Part.token, Token.name?]
      rw [parts, List.filterMap_cons, List.filterMap_cons, List.filterMap_cons, List.filterMap_append, hmarks]
      rfl
  | compare column comparison value => cases comparison <;> rfl

/-- What a conjunction collects from both its sides it collects from all that it joins. -/
theorem foldl_and_append {α : Type} {collect : Predicate → List α}
    (hand : ∀ left right, collect (.and left right) = collect left ++ collect right) (p : Predicate)
    (rest : List Predicate) : collect (rest.foldl .and p) = collect p ++ rest.flatMap collect := by
  induction rest generalizing p with
  | nil => simp
  | cons q rest ih => rw [List.foldl_cons, ih, List.flatMap_cons, hand, List.append_assoc]

theorem collect_of_all? {α : Type} {collect : Predicate → List α}
    (hand : ∀ left right, collect (.and left right) = collect left ++ collect right) {conditions : List Predicate}
    {p : Predicate} (h : all? conditions = some p) : collect p = conditions.flatMap collect := by
  cases conditions with
  | nil => cases h
  | cons first rest =>
      cases h
      exact foldl_and_append hand first rest

/-- A conjunction has the columns of its conditions. -/
theorem columns_of_all? {conditions : List Predicate} {p : Predicate} (h : all? conditions = some p) :
    p.columns = conditions.flatMap columns :=
  collect_of_all? (fun _ _ => rfl) h

/-- The words that a condition is written with; names and texts are no words. -/
theorem mem_words_of_mem_tokens {p : Predicate} {word : String} (h : Token.word word ∈ p.tokens) :
    word ∈ ["AND", "OR", "NOT", "IS", "NULL", "IN", "LIKE"] := by
  simp only [tokens, List.mem_map] at h
  obtain ⟨part, hpart, htoken⟩ := h
  -- Only a word of the template reads as a word.
  have hword : part = .word word := by
    cases part <;> simp_all [Part.token]
  subst hword
  clear htoken
  induction p with
  | and left right ihl ihr =>
      simp only [parts, List.mem_append, List.mem_cons, Part.word.injEq] at hpart
      rcases hpart with h | rfl | h
      · exact ihl h
      · simp
      · exact ihr h
  | or left right ihl ihr =>
      simp only [parts, List.mem_append, List.mem_cons, Part.word.injEq] at hpart
      rcases hpart with h | rfl | h
      · exact ihl h
      · simp
      · exact ihr h
  | not body ih =>
      simp only [parts, List.mem_cons, Part.word.injEq] at hpart
      rcases hpart with rfl | h
      · simp
      · exact ih h
  | isNull column =>
      simp only [parts, List.mem_cons, Part.word.injEq, reduceCtorEq, List.not_mem_nil, or_false,
        false_or] at hpart
      rcases hpart with rfl | rfl <;> simp
  | isIn column values =>
      simp only [parts, List.mem_append, List.mem_cons, Part.word.injEq, reduceCtorEq, List.not_mem_nil, or_false,
        false_or] at hpart
      rcases hpart with rfl | h
      · simp
      · rcases Part.mem_commas h with h | ⟨piece, hpiece, h⟩
        · cases h
        · obtain ⟨v, _, rfl⟩ := List.mem_map.1 hpiece
          simp at h
  | compare column comparison value =>
      cases comparison <;> simp_all [parts]

theorem ofChars_text (p : Predicate) : ∀ {rest : List Char}, Ends rest →
    ofChars (p.text.toList ++ rest) = p.tokens ++ ofChars rest := by
  induction p with
  | and left right ihl ihr =>
      intro rest hrest
      have hsplit : (Predicate.and left right).text.toList ++ rest =
          left.text.toList ++ ' ' :: ("AND".toList ++ ' ' :: (right.text.toList ++ rest)) := by
        simp [text]
      rw [hsplit, ihl (ends_space _), ofChars_space, ofChars_keyword (by decide), ihr hrest]
      simp [tokens, parts, Part.token]
  | or left right ihl ihr =>
      intro rest hrest
      have hsplit : (Predicate.or left right).text.toList ++ rest =
          left.text.toList ++ ' ' :: ("OR".toList ++ ' ' :: (right.text.toList ++ rest)) := by
        simp [text]
      rw [hsplit, ihl (ends_space _), ofChars_space, ofChars_keyword (by decide), ihr hrest]
      simp [tokens, parts, Part.token]
  | not body ih =>
      intro rest hrest
      have hsplit : (Predicate.not body).text.toList ++ rest =
          "NOT".toList ++ ' ' :: (body.text.toList ++ rest) := by
        simp [text]
      rw [hsplit, ofChars_keyword (by decide), ih hrest]
      simp [tokens, parts, Part.token]
  | isNull column =>
      intro rest hrest
      have hsplit : (Predicate.isNull column).text.toList ++ rest =
          (quote column).toList ++ ' ' :: ("IS".toList ++ ' ' :: ("NULL".toList ++ rest)) := by
        simp [text]
      rw [hsplit, ofChars_quote column (ends_space _), ofChars_space, ofChars_keyword (by decide),
        ofChars_word (by decide) hrest]
      simp [tokens, parts, Part.token]
  | isIn column values =>
      intro rest hrest
      have hsplit : (Predicate.isIn column values).text.toList ++ rest =
          (quote column).toList ++ ' ' :: ("IN".toList ++ ' ' :: '(' ::
            ((commaList (values.map fun _ => "?")).toList ++ ')' :: rest)) := by
        simp [text, marks_length]
      have hmark : ∀ (_ : Value) (r : List Char), Ends r →
          ofChars ("?".toList ++ r) = [Token.mark none] ++ ofChars r :=
        fun _ _ hr => ofChars_mark hr
      rw [hsplit, ofChars_quote column (ends_space _), ofChars_space, ofChars_keyword (by decide), ofChars_open,
        ofChars_commaList hmark values (ends_close _), ofChars_close]
      simp [tokens, parts, Part.token, Part.map_token_commas, Function.comp_def]
  | compare column comparison value =>
      intro rest hrest
      have hsplit : (Predicate.compare column comparison value).text.toList ++ rest =
          (quote column).toList ++ ' ' :: (comparison.sign.toList ++ ' ' :: '?' :: rest) := by
        simp [text]
      rw [hsplit, ofChars_quote column (ends_space _), ofChars_space, ofChars_comparison, ofChars_mark hrest]
      cases comparison <;> rfl

end Predicate

/-! ## Clauses -/

def whereParts : Option Predicate → List Part
  | none => []
  | some p => .word "WHERE" :: p.parts

def whereBindings (filter : Option Predicate) : List (Slot × Value) := (filter.map Predicate.bindings).getD []

def OrderTerm.parts (term : OrderTerm) : List Part :=
  [.name term.column, .word (if term.descending then "DESC" else "ASC")]

def orderParts : List OrderTerm → List Part
  | [] => []
  | terms => .word "ORDER" :: .word "BY" :: Part.commas (terms.map OrderTerm.parts)

def pageParts (limit offset : UInt64) : List Part :=
  if limit = 0 then []
  else .word "LIMIT" :: .integer limit.toNat ::
    (if offset = 0 then [] else [.word "OFFSET", .integer offset.toNat])

/-- A clause brings its own blank, so no clause extends the token in front of it. -/
theorem ends_whereText (filter : Option Predicate) {rest : List Char} (hrest : Ends rest) :
    Ends ((whereText filter).toList ++ rest) := by
  cases filter with
  | none => exact hrest
  | some p =>
      have hsplit : (whereText (some p)).toList ++ rest = ' ' :: ("WHERE ".toList ++ p.text.toList ++ rest) := by
        simp [whereText]
      rw [hsplit]
      exact ends_space _

theorem ofChars_whereText (filter : Option Predicate) {rest : List Char} (hrest : Ends rest) :
    ofChars ((whereText filter).toList ++ rest) = (whereParts filter).map Part.token ++ ofChars rest := by
  cases filter with
  | none => rfl
  | some p =>
      have hsplit : (whereText (some p)).toList ++ rest =
          ' ' :: ("WHERE".toList ++ ' ' :: (p.text.toList ++ rest)) := by
        simp [whereText]
      rw [hsplit, ofChars_space, ofChars_keyword (by decide), p.ofChars_text hrest]
      simp [whereParts, Predicate.tokens, Part.token]

theorem OrderTerm.ofChars_text (term : OrderTerm) {rest : List Char} (hrest : Ends rest) :
    ofChars (term.text.toList ++ rest) = term.parts.map Part.token ++ ofChars rest := by
  obtain ⟨column, descending⟩ := term
  have hsplit : (OrderTerm.text ⟨column, descending⟩).toList ++ rest =
      (quote column).toList ++ ' ' :: ((if descending then "DESC" else "ASC").toList ++ rest) := by
    cases descending <;> simp [OrderTerm.text]
  have hword : spellsWord (if descending then "DESC" else "ASC") = true := by
    cases descending <;> decide
  rw [hsplit, ofChars_quote column (ends_space _), ofChars_space, ofChars_word hword hrest]
  simp [OrderTerm.parts, Part.token]

theorem ends_orderText (terms : List OrderTerm) {rest : List Char} (hrest : Ends rest) :
    Ends ((orderText terms).toList ++ rest) := by
  cases terms with
  | nil => exact hrest
  | cons term terms =>
      have hsplit : (orderText (term :: terms)).toList ++ rest =
          ' ' :: ("ORDER BY ".toList ++ (commaList ((term :: terms).map OrderTerm.text)).toList ++ rest) := by
        simp [orderText]
      rw [hsplit]
      exact ends_space _

theorem ofChars_orderText (terms : List OrderTerm) {rest : List Char} (hrest : Ends rest) :
    ofChars ((orderText terms).toList ++ rest) = (orderParts terms).map Part.token ++ ofChars rest := by
  cases terms with
  | nil => rfl
  | cons term terms =>
      have hsplit : (orderText (term :: terms)).toList ++ rest =
          ' ' :: ("ORDER".toList ++ ' ' :: ("BY".toList ++ ' ' ::
            ((commaList ((term :: terms).map OrderTerm.text)).toList ++ rest))) := by
        simp [orderText]
      have hterm : ∀ (t : OrderTerm) (r : List Char), Ends r →
          ofChars (t.text.toList ++ r) = t.parts.map Part.token ++ ofChars r :=
        fun t _ hr => t.ofChars_text hr
      rw [hsplit, ofChars_space, ofChars_keyword (by decide), ofChars_keyword (by decide),
        ofChars_commaList hterm _ hrest]
      simp [orderParts, Part.token, Part.map_token_commas, Function.comp_def]

theorem ends_pageText (limit offset : UInt64) : Ends (pageText limit offset).toList := by
  by_cases hlimit : limit = 0
  · simp [pageText, hlimit, ends_nil]
  · have hsplit : (pageText limit offset).toList = ' ' :: ("LIMIT ".toList ++ (toString limit.toNat).toList ++
        (if offset = 0 then "" else " OFFSET " ++ toString offset.toNat).toList) := by
      simp [pageText, hlimit]
    rw [hsplit]
    exact ends_space _

theorem ofChars_pageText (limit offset : UInt64) :
    ofChars (pageText limit offset).toList = (pageParts limit offset).map Part.token := by
  by_cases hlimit : limit = 0
  · simp [pageText, pageParts, hlimit]
  · by_cases hoffset : offset = 0
    · have hsplit : (pageText limit offset).toList =
          ' ' :: ("LIMIT".toList ++ ' ' :: ((toString limit.toNat).toList ++ [])) := by
        simp [pageText, hlimit, hoffset]
      rw [hsplit, ofChars_space, ofChars_keyword (by decide), ofChars_integer _ ends_nil]
      simp [pageParts, hlimit, hoffset, Part.token]
    · have hsplit : (pageText limit offset).toList = ' ' :: ("LIMIT".toList ++ ' ' ::
          ((toString limit.toNat).toList ++ ' ' :: ("OFFSET".toList ++ ' ' ::
            ((toString offset.toNat).toList ++ [])))) := by
        simp [pageText, hlimit, hoffset]
      rw [hsplit, ofChars_space, ofChars_keyword (by decide), ofChars_integer _ (ends_space _), ofChars_space,
        ofChars_keyword (by decide), ofChars_integer _ ends_nil]
      simp [pageParts, hlimit, hoffset, Part.token]

/-! ## What clauses carry -/

theorem map_snd_whereBindings (filter : Option Predicate) :
    (whereBindings filter).map Prod.snd = whereParams filter := by
  cases filter with
  | none => rfl
  | some p => exact p.map_snd_bindings

theorem filterMap_slot_whereParts (filter : Option Predicate) :
    (whereParts filter).filterMap Part.slot? = (whereBindings filter).map Prod.fst := by
  cases filter with
  | none => rfl
  | some p => exact p.filterMap_slot_parts

theorem filterMap_name_whereParts (filter : Option Predicate) :
    ((whereParts filter).map Part.token).filterMap Token.name? = (filter.map Predicate.columns).getD [] := by
  cases filter with
  | none => rfl
  | some p => exact p.filterMap_name_tokens

theorem filterMap_slot_orderParts (terms : List OrderTerm) : (orderParts terms).filterMap Part.slot? = [] := by
  cases terms with
  | nil => rfl
  | cons term terms =>
      rw [orderParts, List.filterMap_cons, List.filterMap_cons, Part.filterMap_commas rfl]
      · simp [OrderTerm.parts, Part.slot?]
      · simp

theorem filterMap_name_orderParts (terms : List OrderTerm) :
    ((orderParts terms).map Part.token).filterMap Token.name? = terms.map OrderTerm.column := by
  cases terms with
  | nil => rfl
  | cons term terms =>
      rw [List.filterMap_map, orderParts, List.filterMap_cons, List.filterMap_cons, Part.filterMap_commas rfl,
        List.map_eq_flatMap]
      · rfl
      · simp

theorem filterMap_slot_pageParts (limit offset : UInt64) : (pageParts limit offset).filterMap Part.slot? = [] := by
  simp only [pageParts]
  split
  · rfl
  · split <;> rfl

theorem filterMap_name_pageParts (limit offset : UInt64) :
    ((pageParts limit offset).map Part.token).filterMap Token.name? = [] := by
  simp only [pageParts]
  split
  · rfl
  · split <;> rfl

/-- As many marks as slots. -/
theorem countP_isMark_map_token (parts : List Part) :
    (parts.map Part.token).countP Token.isMark = (parts.filterMap Part.slot?).length := by
  induction parts with
  | nil => rfl
  | cons part parts ih =>
      cases part <;>
        simp [Part.token, Part.slot?, Token.isMark, List.filterMap_cons, List.countP_cons, ih]

end RecordTables.Sql
