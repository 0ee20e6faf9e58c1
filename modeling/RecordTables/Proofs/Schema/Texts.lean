import RecordTables.Proofs.Sql.Unbroken

/-!
# Texts of declarations

The statements that create a table and its indexes are made of pieces with commas between them: columns with their types,
and keys.  Each piece is read as its own tokens, whatever the names in it look like.
-/

namespace RecordTables

open Engine (Token)
open Engine.Token (ofChars Ends ends_nil ends_space ends_close ofChars_space ofChars_keyword ofChars_word ofChars_open
  ofChars_close ofChars_quote ofChars_commaList ofChars_nil)
open Sql (quote quoteList commaList Unbroken unbroken_append unbroken_quote unbroken_commaList unbroken_quoteList)

/-- A part of a text together with the tokens that it is read as. -/
structure Piece where
  text : String
  tokens : List Token
  reads : ∀ {rest : List Char}, Ends rest → ofChars (text.toList ++ rest) = tokens ++ ofChars rest

/-- The tokens of names between parentheses. -/
def nameTokens (names : List String) : List Token :=
  .sign "(" :: (Token.commas (names.map fun n => [.name n]) ++ [.sign ")"])

theorem ofChars_nameTokens (names : List String) (rest : List Char) :
    ofChars ('(' :: ((quoteList names).toList ++ ')' :: rest)) = nameTokens names ++ ofChars rest := by
  have hname : ∀ (n : String) (r : List Char), Ends r → ofChars ((quote n).toList ++ r) = [.name n] ++ ofChars r :=
    fun n _ hr => ofChars_quote n hr
  rw [ofChars_open, quoteList, ofChars_commaList hname names (ends_close rest), ofChars_close]
  simp [nameTokens]

/-- The words behind the type of a column. -/
def Column.nullTokens (column : Column) : List Token :=
  if column.nullable then [.word "NULL"] else [.word "NOT", .word "NULL"]

/-- A column in the declaration of its table. -/
def Column.piece (name : String) (column : Column) : Piece where
  text := column.text name
  tokens := .name name :: .word column.type.keyword :: column.nullTokens
  reads := by
    intro rest hrest
    have hkeyword : Token.spellsWord column.type.keyword = true := by
      cases column.type <;> decide
    cases hnullable : column.nullable with
    | true =>
        have hsplit : (column.text name).toList ++ rest =
            (quote name).toList ++ ' ' :: (column.type.keyword.toList ++ ' ' :: ("NULL".toList ++ rest)) := by
          simp [Column.text, hnullable]
        rw [hsplit, ofChars_quote name (ends_space _), ofChars_space, ofChars_keyword hkeyword,
          ofChars_word (by decide) hrest]
        simp [Column.nullTokens, hnullable]
    | false =>
        have hsplit : (column.text name).toList ++ rest = (quote name).toList ++ ' ' :: (column.type.keyword.toList ++
            ' ' :: ("NOT".toList ++ ' ' :: ("NULL".toList ++ rest))) := by
          simp [Column.text, hnullable]
        rw [hsplit, ofChars_quote name (ends_space _), ofChars_space, ofChars_keyword hkeyword,
          ofChars_keyword (by decide), ofChars_word (by decide) hrest]
        simp [Column.nullTokens, hnullable]

theorem Column.unbroken_text {name : String} (column : Column) (h : Unbroken name) : Unbroken (column.text name) := by
  rw [Column.text, unbroken_append, unbroken_append, unbroken_append, unbroken_quote]
  refine ⟨⟨⟨h, by decide⟩, ?_⟩, ?_⟩
  · cases column.type <;> decide
  · cases column.nullable <;> decide

/-- The key in the declaration of its table. -/
def keyPiece (key : List String) : Piece where
  text := "PRIMARY KEY (" ++ quoteList key ++ ")"
  tokens := .word "PRIMARY" :: .word "KEY" :: nameTokens key
  reads := by
    intro rest _
    have hsplit : ("PRIMARY KEY (" ++ quoteList key ++ ")").toList ++ rest =
        "PRIMARY".toList ++ ' ' :: ("KEY".toList ++ ' ' :: '(' :: ((quoteList key).toList ++ ')' :: rest)) := by
      simp
    rw [hsplit, ofChars_keyword (by decide), ofChars_keyword (by decide), ofChars_nameTokens]
    rfl

/-- A key without columns is not declared. -/
def keyPieces (key : List String) : List Piece := if key.isEmpty then [] else [keyPiece key]

namespace TableDefinition

variable (table : TableDefinition)

def pieces : List Piece := table.columns.map (fun p => p.2.piece p.1) ++ keyPieces table.primaryKey

def tokens : List Token :=
  .word "CREATE" :: .word "TABLE" :: .name table.name :: .sign "(" ::
    (Token.commas (table.pieces.map Piece.tokens) ++ [.sign ")"])

theorem tokens_ne_nil : ∀ p ∈ table.pieces, p.tokens ≠ [] := by
  intro p hp
  rcases List.mem_append.1 hp with hp | hp
  · obtain ⟨q, _, rfl⟩ := List.mem_map.1 hp
    exact List.cons_ne_nil _ _
  · unfold keyPieces at hp
    split at hp
    · cases hp
    · rw [List.mem_singleton.1 hp]
      exact List.cons_ne_nil _ _

theorem createText_eq :
    table.createText = "CREATE TABLE " ++ quote table.name ++ " (" ++ commaList (table.pieces.map Piece.text) ++ ")" := by
  have hpieces : table.pieces.map Piece.text = table.columns.map (fun p => p.2.text p.1) ++
      (if table.primaryKey.isEmpty then [] else ["PRIMARY KEY (" ++ quoteList table.primaryKey ++ ")"]) := by
    rw [pieces, List.map_append, List.map_map, keyPieces]
    split <;> rfl
  rw [hpieces]
  rfl

theorem ofChars_createText : ofChars table.createText.toList = table.tokens := by
  have hsplit : table.createText.toList = "CREATE".toList ++ ' ' :: ("TABLE".toList ++ ' ' ::
      ((quote table.name).toList ++ ' ' :: '(' :: ((commaList (table.pieces.map Piece.text)).toList ++ ')' :: []))) := by
    rw [createText_eq]
    simp
  rw [hsplit, ofChars_keyword (by decide), ofChars_keyword (by decide), ofChars_quote _ (ends_space _), ofChars_space,
    ofChars_open, ofChars_commaList (fun p _ hrest => Piece.reads p hrest) table.pieces (ends_close []),
    ofChars_close, ofChars_nil]
  rfl

/-- All names of a definition: its own, those of its columns and those of its indexes. -/
def names : List String := table.name :: (table.columnNames ++ table.indexes.map Index.name)

theorem unbroken_createText (h : ∀ n ∈ table.name :: table.columnNames, Unbroken n) : Unbroken table.createText := by
  obtain ⟨hname, hcolumns⟩ := List.forall_mem_cons.1 h
  have hpieces : Unbroken (commaList (table.pieces.map Piece.text)) := by
    apply unbroken_commaList
    intro text htext
    rw [pieces, List.map_append, List.mem_append, List.map_map] at htext
    rcases htext with htext | htext
    · obtain ⟨p, hp, rfl⟩ := List.mem_map.1 htext
      exact p.2.unbroken_text (hcolumns _ (List.mem_map_of_mem hp))
    · unfold keyPieces at htext
      split at htext
      · cases htext
      · rw [List.map_singleton, List.mem_singleton] at htext
        subst htext
        show Unbroken ("PRIMARY KEY (" ++ quoteList table.primaryKey ++ ")")
        rw [unbroken_append, unbroken_append]
        exact ⟨⟨by decide, unbroken_quoteList fun c hc => hcolumns c (table.key_known c hc)⟩, by decide⟩
  rw [createText_eq, unbroken_append, unbroken_append, unbroken_append, unbroken_append, unbroken_quote]
  exact ⟨⟨⟨⟨by decide, hname⟩, by decide⟩, hpieces⟩, by decide⟩

end TableDefinition

namespace Index

def tokens (table : String) (index : Index) : List Token :=
  .word "CREATE" :: ((if index.unique then [.word "UNIQUE"] else []) ++
    .word "INDEX" :: .name index.name :: .word "ON" :: .name table :: nameTokens index.columns)

theorem ofChars_createText (table : String) (index : Index) :
    ofChars (index.createText table).toList = index.tokens table := by
  have hbehind : ofChars ("INDEX".toList ++ ' ' :: ((quote index.name).toList ++ ' ' :: ("ON".toList ++ ' ' ::
      ((quote table).toList ++ ' ' :: '(' :: ((quoteList index.columns).toList ++ ')' :: []))))) =
        .word "INDEX" :: .name index.name :: .word "ON" :: .name table :: nameTokens index.columns := by
    rw [ofChars_keyword (by decide), ofChars_quote _ (ends_space _), ofChars_space, ofChars_keyword (by decide),
      ofChars_quote _ (ends_space _), ofChars_space, ofChars_nameTokens, ofChars_nil, List.append_nil]
  cases hunique : index.unique with
  | true =>
      have hsplit : (index.createText table).toList = "CREATE".toList ++ ' ' :: ("UNIQUE".toList ++ ' ' ::
          ("INDEX".toList ++ ' ' :: ((quote index.name).toList ++ ' ' :: ("ON".toList ++ ' ' ::
            ((quote table).toList ++ ' ' :: '(' :: ((quoteList index.columns).toList ++ ')' :: [])))))) := by
        simp [createText, hunique]
      rw [hsplit, ofChars_keyword (by decide), ofChars_keyword (by decide), hbehind]
      simp [tokens, hunique]
  | false =>
      have hsplit : (index.createText table).toList = "CREATE".toList ++ ' ' ::
          ("INDEX".toList ++ ' ' :: ((quote index.name).toList ++ ' ' :: ("ON".toList ++ ' ' ::
            ((quote table).toList ++ ' ' :: '(' :: ((quoteList index.columns).toList ++ ')' :: []))))) := by
        simp [createText, hunique]
      rw [hsplit, ofChars_keyword (by decide), hbehind]
      simp [tokens, hunique]

theorem unbroken_createText {table : String} {index : Index} (htable : Unbroken table) (hname : Unbroken index.name)
    (hcolumns : ∀ c ∈ index.columns, Unbroken c) : Unbroken (index.createText table) := by
  simp only [createText, unbroken_append, unbroken_quote]
  refine ⟨⟨⟨⟨⟨⟨⟨⟨by decide, ?_⟩, by decide⟩, hname⟩, by decide⟩, htable⟩, by decide⟩, ?_⟩, by decide⟩
  · cases index.unique <;> decide
  · exact unbroken_quoteList hcolumns

end Index

end RecordTables
