import RecordTables.Proofs.Schema.Columns
import RecordTables.Proofs.Schema.Texts
import RecordTables.Proofs.Text.ByteOrder

/-!
# Texts that determine a definition

The texts that create a table and its indexes can be read back, whatever the names in them look like, so no two
definitions have the same texts.  The reader here takes any text, also one with a NUL in it.
-/

namespace RecordTables

open Engine (Token)
open Engine.Token (ofChars)

/-! ## Lists between parentheses -/

section Readers

variable {α : Type}

/-- Items with commas between them, up to the parenthesis that closes the list.  Each takes at least one token. -/
def readItems (item : List Token → Option (α × List Token)) : Nat → List Token → Option (List α × List Token)
  | 0, _ => none
  | fuel + 1, tokens =>
      match item tokens with
      | some (x, .sign s :: rest) =>
          if s = ")" then some ([x], rest)
          else if s = "," then (readItems item fuel rest).map fun p => (x :: p.1, p.2)
          else none
      | _ => none

/-- Whether a closing parenthesis comes next. -/
def closes : List Token → Bool
  | .sign s :: _ => s == ")"
  | _ => false

/-- A list between parentheses, which may be empty. -/
def readList (item : List Token → Option (α × List Token)) : List Token → Option (List α × List Token)
  | .sign s :: rest =>
      if s = "(" then
        if closes rest then some ([], rest.tail) else readItems item rest.length rest
      else none
  | _ => none

variable {item : List Token → Option (α × List Token)} {spell : α → List Token}

theorem readItems_commas (hitem : ∀ x rest, item (spell x ++ rest) = some (x, rest)) {xs : List α} (hne : xs ≠ [])
    {fuel : Nat} (hfuel : xs.length ≤ fuel) (rest : List Token) :
    readItems item fuel (Token.commas (xs.map spell) ++ .sign ")" :: rest) = some (xs, rest) := by
  induction xs generalizing fuel with
  | nil => exact absurd rfl hne
  | cons x xs ih =>
      obtain ⟨fuel, rfl⟩ := Nat.exists_eq_add_of_le' (Nat.one_le_of_lt hfuel)
      cases xs with
      | nil =>
          rw [List.map_singleton, Token.commas, List.intercalate_singleton, readItems, hitem]
          rfl
      | cons y ys =>
          have hsplit : Token.commas ((x :: y :: ys).map spell) ++ .sign ")" :: rest =
              spell x ++ .sign "," :: (Token.commas ((y :: ys).map spell) ++ .sign ")" :: rest) := by
            simp [Token.commas]
          rw [hsplit, readItems, hitem]
          simp only [if_neg (show ¬ "," = ")" by decide), if_true,
            ih (List.cons_ne_nil _ _) (Nat.le_of_succ_le_succ hfuel), Option.map_some]

/-- The commas of a list and the parenthesis behind it are as many tokens as the list has items. -/
theorem length_le_commas (spell : α → List Token) (xs : List α) :
    xs.length ≤ (Token.commas (xs.map spell)).length + 1 := by
  induction xs with
  | nil => exact Nat.zero_le _
  | cons x xs ih =>
      cases xs with
      | nil => exact Nat.le_add_left ..
      | cons y ys =>
          simp only [Token.commas, List.map_cons, List.intercalate_cons_cons, List.length_append, List.length_cons,
            List.length_nil] at ih ⊢
          omega

/-- A list is read back with what stands behind it, if its items are and none of them looks like the end of the list. -/
theorem readList_commas (hitem : ∀ x rest, item (spell x ++ rest) = some (x, rest))
    (hopen : ∀ x rest, closes (spell x ++ rest) = false) (xs : List α) (rest : List Token) :
    readList item (.sign "(" :: (Token.commas (xs.map spell) ++ .sign ")" :: rest)) = some (xs, rest) := by
  cases xs with
  | nil => rfl
  | cons x xs =>
      have hcloses : closes (Token.commas ((x :: xs).map spell) ++ .sign ")" :: rest) = false := by
        cases xs with
        | nil => simpa [Token.commas] using hopen x _
        | cons y ys => simpa [Token.commas] using hopen x _
      have hfuel : (x :: xs).length ≤ (Token.commas ((x :: xs).map spell) ++ .sign ")" :: rest).length := by
        have hlength := length_le_commas spell (x :: xs)
        rw [List.length_append, show (Token.sign ")" :: rest).length = rest.length + 1 from rfl]
        omega
      rw [readList, if_pos rfl, hcloses]
      exact readItems_commas hitem (List.cons_ne_nil _ _) hfuel rest

end Readers

/-! ## Names and columns -/

def readName : List Token → Option (String × List Token)
  | .name n :: rest => some (n, rest)
  | _ => none

theorem readList_nameTokens (names : List String) (rest : List Token) :
    readList readName (nameTokens names ++ rest) = some (names, rest) := by
  have hnames : readList readName (.sign "(" :: (Token.commas (names.map fun n => [Token.name n]) ++
      .sign ")" :: rest)) = some (names, rest) :=
    readList_commas (fun _ _ => rfl) (fun _ _ => rfl) names rest
  rw [nameTokens, List.cons_append, List.append_assoc]
  exact hnames

/-- The storage class with a keyword. -/
def ColumnType.ofKeyword? (keyword : String) : Option ColumnType :=
  [ColumnType.blob, .integer, .real, .text].find? fun type => type.keyword == keyword

theorem ColumnType.ofKeyword?_keyword (type : ColumnType) : ofKeyword? type.keyword = some type := by
  cases type <;> decide

/-- What stands between the parentheses of a table: a column or a key. -/
inductive TableElement where
  | column (name : String) (column : Column)
  | key (names : List String)
  deriving DecidableEq, Repr

namespace TableElement

def column? : TableElement → Option (String × Column)
  | .column name c => some (name, c)
  | .key _ => none

def keyNames : TableElement → List String
  | .column .. => []
  | .key names => names

def tokens : TableElement → List Token
  | .column name c => (c.piece name).tokens
  | .key names => (keyPiece names).tokens

/-- Whether a column takes NULL, by the words behind its type. -/
def readNullable : List Token → Option (Bool × List Token)
  | .word first :: rest =>
      if first = "NULL" then some (true, rest)
      else if first = "NOT" then
        match rest with
        | .word second :: rest => if second = "NULL" then some (false, rest) else none
        | _ => none
      else none
  | _ => none

def read : List Token → Option (TableElement × List Token)
  | .name n :: .word keyword :: rest => do
      let type ← ColumnType.ofKeyword? keyword
      let (nullable, rest) ← readNullable rest
      return (.column n ⟨type, nullable⟩, rest)
  | .word first :: .word second :: rest =>
      if first = "PRIMARY" ∧ second = "KEY" then (readList readName rest).map fun p => (.key p.1, p.2) else none
  | _ => none

theorem read_tokens (element : TableElement) (rest : List Token) :
    read (element.tokens ++ rest) = some (element, rest) := by
  cases element with
  | column name c =>
      obtain ⟨type, nullable⟩ := c
      have hnull : readNullable ((Column.mk type nullable).nullTokens ++ rest) = some (nullable, rest) := by
        cases nullable <;> rfl
      rw [tokens, Column.piece, List.cons_append, List.cons_append, read, ColumnType.ofKeyword?_keyword]
      simp only [Option.bind_eq_bind, Option.bind_some, hnull]
      rfl
  | key names =>
      rw [tokens, keyPiece, List.cons_append, List.cons_append, read, if_pos ⟨rfl, rfl⟩, readList_nameTokens]
      rfl

theorem not_closes (element : TableElement) (rest : List Token) : closes (element.tokens ++ rest) = false := by
  cases element <;> rfl

end TableElement

/-! ## Texts -/

/-- The name of a table and what its text lists between the parentheses, in the order of the text. -/
def readTableText (text : String) : Option (String × List TableElement) :=
  match ofChars text.toList with
  | .word first :: .word second :: .name n :: rest =>
      if first = "CREATE" ∧ second = "TABLE" then
        match readList TableElement.read rest with
        | some (elements, []) => some (n, elements)
        | _ => none
      else none
  | _ => none

/-- The rest of the text of an index, from its name on. -/
def readIndexed (unique : Bool) : List Token → Option (String × Index)
  | .name n :: .word word :: .name table :: rest =>
      if word = "ON" then
        match readList readName rest with
        | some (columns, []) => some (table, ⟨n, columns, unique⟩)
        | _ => none
      else none
  | _ => none

/-- The table and the index that a text creates. -/
def readIndexText (text : String) : Option (String × Index) :=
  match ofChars text.toList with
  | .word first :: .word second :: rest =>
      if first = "CREATE" then
        if second = "INDEX" then readIndexed false rest
        else if second = "UNIQUE" then
          match rest with
          | .word third :: rest => if third = "INDEX" then readIndexed true rest else none
          | _ => none
        else none
      else none
  | _ => none

/-- An index is read back with its table. -/
theorem readIndexText_createText (table : String) (index : Index) :
    readIndexText (index.createText table) = some (table, index) := by
  obtain ⟨name, columns, unique⟩ := index
  have hlist : readList readName (nameTokens columns) = some (columns, []) := by
    simpa using readList_nameTokens columns []
  rw [readIndexText, Index.ofChars_createText, Index.tokens]
  cases unique with
  | true => simp [readIndexed, hlist]
  | false => simp [readIndexed, hlist]

namespace TableDefinition

variable (table : TableDefinition)

/-- What a definition writes between the parentheses: its columns, and its key if it has one. -/
def elements : List TableElement :=
  table.columns.map (fun p => .column p.1 p.2) ++ if table.primaryKey = [] then [] else [.key table.primaryKey]

theorem map_tokens_elements : table.elements.map TableElement.tokens = table.pieces.map Piece.tokens := by
  rw [elements, pieces, keyPieces, List.map_append, List.map_append, List.map_map, List.map_map]
  cases table.primaryKey <;> rfl

/-- The text of a table is read back to its name, its columns and its key. -/
theorem readTableText_createText : readTableText table.createText = some (table.name, table.elements) := by
  have hlist := readList_commas TableElement.read_tokens TableElement.not_closes table.elements []
  rw [readTableText, ofChars_createText, tokens, ← map_tokens_elements]
  simp [hlist]

/-- A name that looks like the end of a column and a key. -/
example : readTableText "CREATE TABLE \"t\" (\"a\"\" TEXT, PRIMARY KEY (\"\"a\" TEXT NOT NULL)" =
    some ("t", [.column "a\" TEXT, PRIMARY KEY (\"a" ⟨.text, false⟩]) := by
  decide +kernel

/-- The columns and the key of a definition can be told from what it writes between the parentheses. -/
theorem elements_inj {a b : TableDefinition} (h : a.elements = b.elements) :
    a.columns = b.columns ∧ a.primaryKey = b.primaryKey := by
  have hcolumns : ∀ t : TableDefinition, t.elements.filterMap TableElement.column? = t.columns := by
    intro t
    have hkey : (if t.primaryKey = [] then [] else [TableElement.key t.primaryKey]).filterMap
        TableElement.column? = [] := by
      split <;> rfl
    rw [elements, List.filterMap_append, hkey, List.append_nil, List.filterMap_map]
    exact List.filterMap_some ..
  have hkeys : ∀ t : TableDefinition, t.elements.flatMap TableElement.keyNames = t.primaryKey := by
    intro t
    have hnone : (t.columns.map fun p => TableElement.column p.1 p.2).flatMap TableElement.keyNames = [] := by
      rw [List.flatMap_map]
      exact List.flatMap_eq_nil_iff.2 fun _ _ => rfl
    rw [elements, List.flatMap_append, hnone, List.nil_append]
    split
    · rename_i hempty
      rw [hempty]
      rfl
    · exact List.append_nil _
  rw [← hcolumns a, ← hcolumns b, ← hkeys a, ← hkeys b, h]
  exact ⟨rfl, rfl⟩

/-- What the texts of a definition say.  That of the table lists the columns in the order of the bytes of their names,
and behind them the key if there is one; those of the indexes say the table and the index; and no other definition has
the same texts. -/
structure SpelledOut : Prop where
  listed : readTableText table.createText = some (table.name, table.elements)
  ascending : table.columnNames.Pairwise BytesBefore
  indexes : table.indexTexts.map readIndexText = table.indexes.map fun i => some (table.name, i)
  determined : ∀ other : TableDefinition, other.createText = table.createText → other.indexTexts = table.indexTexts →
    other = table

theorem map_readIndexText_indexTexts :
    table.indexTexts.map readIndexText = table.indexes.map fun i => some (table.name, i) := by
  rw [indexTexts, List.map_map]
  apply List.map_congr_left
  intro i _
  rw [Function.comp_apply, readIndexText_createText]

/-- The texts of a definition determine it, whatever the names in it are. -/
theorem texts_spell_out : table.SpelledOut where
  listed := table.readTableText_createText
  ascending := List.pairwise_map.2 (table.columns_ascending.imp bytesBefore_of_lt)
  indexes := table.map_readIndexText_indexTexts
  determined := by
    intro other htext hindexTexts
    have hread := other.readTableText_createText
    rw [htext, table.readTableText_createText, Option.some.injEq, Prod.mk.injEq] at hread
    obtain ⟨hname, helements⟩ := hread
    obtain ⟨hcolumns, hkey⟩ := elements_inj helements
    have hindexes := other.map_readIndexText_indexTexts
    rw [hindexTexts, table.map_readIndexText_indexTexts, hname] at hindexes
    have hinj : ∀ i j : Index, some (other.name, i) = some (other.name, j) → i = j :=
      fun i j hij => (Prod.mk.inj (Option.some.inj hij)).2
    exact eq_of_fields hname.symm hcolumns.symm hkey.symm ((List.map_inj_right hinj).1 hindexes).symm

end TableDefinition

end RecordTables
