import RecordTables.Proofs.Engine.Created
import RecordTables.Proofs.Engine.Selected

/-!
# Declarations that are accepted

A name that breaks off leaves an open quote, and a declaration with one in it is not read; neither is an index without
columns.  So much is known of a table that was created: its name was free, its names do not break off, and those of its
columns stand apart.
-/

namespace RecordTables

open Engine (Token Located)
open Engine.Reading
open Engine.Token (ofChars ofChars_keyword ofChars_quote ofChars_space ofChars_open ofChars_comma ends_space ends_comma)
open Sql (Unbroken quote quoteList commaList doubleQuotes unbroken_append unbroken_quote)

namespace Engine

variable {n fuel : Nat} {ts : List Token}

/-! ## Tables -/

/-- The tokens of columns, each with a comma behind it. -/
def columnsBefore (columns : List (String × Column)) : List Token :=
  columns.flatMap fun p => (p.2.piece p.1).tokens ++ [.sign ","]

/-- Columns are read up to the first whose name breaks off. -/
theorem refuses_readColumns (columns : List (String × Column)) (fuel : Nat) :
    Refuses (readColumns fuel) ⟨columnsBefore columns ++ [.illegal], n⟩ := by
  induction columns generalizing fuel with
  | nil =>
      cases fuel with
      | zero => exact refuses_refuse
      | succ fuel =>
          rw [readColumns]
          exact (refuses_name rfl).bind.bind
  | cons p rest ih =>
      cases fuel with
      | zero => exact refuses_refuse
      | succ fuel =>
          have hsplit : columnsBefore (p :: rest) ++ [.illegal] =
              (p.2.piece p.1).tokens ++ .sign "," :: (columnsBefore rest ++ [.illegal]) := by
            simp [columnsBefore]
          -- What follows the comma starts with a name or with the open quote, so it is no key.
          obtain ⟨t, us, hus, hword⟩ : ∃ t us, columnsBefore rest ++ [.illegal] = t :: us ∧
              ∀ word, t.isWord word = false := by
            cases rest with
            | nil => exact ⟨.illegal, [], rfl, fun _ => rfl⟩
            | cons q rest => exact ⟨.name q.1, _, rfl, fun _ => rfl⟩
          have hrest := ih fuel
          rw [hus] at hrest
          rw [hsplit, hus, readColumns]
          refine (takes_readColumn p.2 startsSign_cons).bind_refuses ?_
          rintro _ rfl
          refine (takes_acceptSign rfl).bind_refuses ?_
          rintro _ rfl
          refine takes_next?.bind_refuses ?_
          rintro _ ⟨l, rfl, hl⟩
          simp only [hl, hword, Bool.or_self, Bool.false_eq_true, if_false]
          exact hrest.bind

/-- A table whose body is not read fails where the body is asked for. -/
theorem takes_readDeclaration_refused {table : String} (h : Refuses readTableBody ⟨ts, n⟩) :
    Takes readDeclaration ⟨.word "TABLE" :: .name table :: ts, n⟩ ⟨[], n⟩
      fun s => ∃ raw offset e, s = .createTable table raw offset (.error e) := by
  refine (takes_acceptWord (isWord_self (by simp [keywords]))).bind_eq ?_
  refine takes_name.bind ?_
  rintro ⟨_, l⟩ rfl
  refine takes_get.bind fun r hr => ?_
  obtain ⟨e, hrun⟩ := h r hr
  have hmatch : readTableBody.run r = .error e := hrun
  have hparameters : r.parameters = n := (Front.mk.inj hr).2
  simp only [hmatch]
  refine Takes.bind (P := fun _ => True) (y := ⟨[], n⟩) ?_ fun _ _ => Takes.pure ⟨l.raw, l.offset, e, rfl⟩
  exact fun _ _ => ⟨(), { r with tokens := [] }, rfl, congrArg (Front.mk []) hparameters, trivial⟩

theorem refuses_readTableBody (columns : List (String × Column)) :
    Refuses readTableBody ⟨.sign "(" :: (columnsBefore columns ++ [.illegal]), n⟩ := by
  refine (takes_expectSign rfl).bind_refuses fun _ _ => ?_
  exact takes_get.bind_refuses fun r _ => (refuses_readColumns columns _).bind

/-- The first of some texts, up to one in the middle. -/
theorem toList_commaList_append (before : List String) (text : String) (after : List String) :
    ∃ more, (commaList (before ++ text :: after)).toList =
      before.flatMap (fun s => s.toList ++ [',', ' ']) ++ (text.toList ++ more) := by
  induction before with
  | nil =>
      cases after with
      | nil => exact ⟨[], by simp [commaList]⟩
      | cons next after => exact ⟨_, by simp [commaList, String.intercalate_cons_cons]; rfl⟩
  | cons first before ih =>
      obtain ⟨more, hmore⟩ := ih
      refine ⟨more, ?_⟩
      have hsplit : commaList (first :: before ++ text :: after) =
          first ++ ", " ++ commaList (before ++ text :: after) := by
        cases before <;> simp [commaList, String.intercalate_cons_cons]
      rw [hsplit, String.toList_append, hmore]
      simp

theorem ofChars_columnsBefore (columns : List (String × Column)) (rest : List Char) :
    ofChars (columns.flatMap (fun p => (p.2.text p.1).toList ++ [',', ' ']) ++ rest) =
      columnsBefore columns ++ ofChars rest := by
  induction columns with
  | nil => rfl
  | cons p columns ih =>
      have hsplit : (p :: columns).flatMap (fun p => (p.2.text p.1).toList ++ [',', ' ']) ++ rest =
          (p.2.piece p.1).text.toList ++ ',' :: ' ' ::
            (columns.flatMap (fun p => (p.2.text p.1).toList ++ [',', ' ']) ++ rest) := by
        simp [Column.piece]
      rw [hsplit, (p.2.piece p.1).reads (ends_comma _), ofChars_comma, ofChars_space, ih]
      simp [columnsBefore]

variable {table : TableDefinition} {c : Connection}

/-- A text that is not read is not planned. -/
theorem planOf_of_refuses {text : String} (hscan : (Token.scan text).map Located.token = ts)
    (h : Refuses readStatement ⟨ts, 0⟩) : ∃ e, c.planOf text [] = .error e := by
  obtain ⟨e, hrun⟩ := h ⟨Token.scan text, 0⟩ (congrArg (Front.mk · 0) hscan)
  have hrun' : readStatement.run ⟨Token.scan text, 0⟩ = .error e := hrun
  refine ⟨e, ?_⟩
  rw [Connection.planOf, Statement.ofText, hrun']
  rfl

/-- What follows the first word of a declaration decides whether it is read. -/
theorem refuses_readStatement_create (h : Refuses readDeclaration ⟨ts, n⟩) :
    Refuses readStatement ⟨.word "CREATE" :: ts, n⟩ := by
  refine takes_next?.bind_refuses ?_
  rintro _ ⟨l, rfl, hl⟩
  refine (takes_acceptWord_of_not ?_).bind_refuses ?_
  · intro t ht
    cases ht
    exact not_isWord_of_ne (by simp [keywords]) (by decide)
  rintro _ rfl
  refine (takes_acceptWord (isWord_self (by simp [keywords]))).bind_refuses ?_
  rintro _ rfl
  exact h.bind

theorem planOf_createText_of_broken_name (h : ¬ Unbroken table.name) : ∃ e, c.planOf table.createText [] = .error e := by
  have htext : table.createText.toList = "CREATE TABLE ".toList ++ ((quote table.name).toList ++
      ' ' :: '(' :: ((commaList (table.pieces.map Piece.text)).toList ++ [')'])) := by
    rw [table.createText_eq]
    simp
  obtain ⟨read, hscan⟩ := Sql.map_token_scan_broken (by decide) h htext
  have htokens : ofChars ("CREATE TABLE ".toList ++ '"' :: doubleQuotes read) =
      [.word "CREATE", .word "TABLE", .illegal] := by
    have hsplit : "CREATE TABLE ".toList ++ '"' :: doubleQuotes read =
        "CREATE".toList ++ ' ' :: ("TABLE".toList ++ ' ' :: '"' :: doubleQuotes read) := by simp
    rw [hsplit, ofChars_keyword (by decide), ofChars_keyword (by decide), Sql.ofChars_open_quote]
  rw [htokens] at hscan
  refine planOf_of_refuses hscan (refuses_readStatement_create ?_)
  refine (takes_acceptWord (isWord_self (by simp [keywords]))).bind_refuses ?_
  rintro _ rfl
  exact (refuses_name rfl).bind

/-- The columns up to the first whose name breaks off. -/
theorem exists_broken_column (h : ¬ ∀ n ∈ table.columnNames, Unbroken n) :
    ∃ before p after, table.columns = before ++ p :: after ∧ ¬ Unbroken p.1 ∧ ∀ q ∈ before, Unbroken q.1 := by
  have hfound : (table.columns.find? fun p => !decide (Unbroken p.1)).isSome = true := by
    rw [List.find?_isSome]
    push Not at h
    obtain ⟨n, hn, hbroken⟩ := h
    obtain ⟨p, hp, rfl⟩ := List.mem_map.1 hn
    exact ⟨p, hp, by simpa using hbroken⟩
  obtain ⟨p, hp⟩ := Option.isSome_iff_exists.1 hfound
  obtain ⟨hbroken, before, after, hcolumns, hbefore⟩ := List.find?_eq_some_iff_append.1 hp
  exact ⟨before, p, after, hcolumns, by simpa using hbroken, by simpa using hbefore⟩

section

variable {before after : List (String × Column)} {p : String × Column}

/-- The text of a table, up to one of its columns. -/
def textBefore (name : String) (before : List (String × Column)) : List Char :=
  ("CREATE TABLE " ++ quote name ++ " (").toList ++ before.flatMap fun q => (q.2.text q.1).toList ++ [',', ' ']

theorem toList_createText (hcolumns : table.columns = before ++ p :: after) :
    ∃ rest, table.createText.toList = textBefore table.name before ++ ((quote p.1).toList ++ ' ' :: rest) := by
  have hpieces : table.pieces.map Piece.text = before.map (fun q => q.2.text q.1) ++ p.2.text p.1 ::
      (after.map (fun q => q.2.text q.1) ++ (keyPieces table.primaryKey).map Piece.text) := by
    rw [TableDefinition.pieces, hcolumns]
    simp [Column.piece, Function.comp_def]
  obtain ⟨more, hmore⟩ := toList_commaList_append (before.map fun q => q.2.text q.1) (p.2.text p.1)
    (after.map (fun q => q.2.text q.1) ++ (keyPieces table.primaryKey).map Piece.text)
  refine ⟨(p.2.type.keyword ++ if p.2.nullable then " NULL" else " NOT NULL").toList ++ (more ++ [')']), ?_⟩
  rw [table.createText_eq, hpieces, String.toList_append, String.toList_append, hmore, List.flatMap_map, textBefore]
  simp [Column.text]

theorem not_mem_textBefore {name : String} (hname : Unbroken name) (hbefore : ∀ q ∈ before, Unbroken q.1) :
    '\x00' ∉ textBefore name before := by
  have hopen : Unbroken ("CREATE TABLE " ++ quote name ++ " (") := by
    rw [unbroken_append, unbroken_append, unbroken_quote]
    exact ⟨⟨by decide, hname⟩, by decide⟩
  rw [textBefore, List.mem_append, not_or]
  refine ⟨hopen, fun hmem => ?_⟩
  obtain ⟨q, hq, hchar⟩ := List.mem_flatMap.1 hmem
  rcases List.mem_append.1 hchar with hchar | hchar
  · exact q.2.unbroken_text (hbefore q hq) hchar
  · exact absurd hchar (by decide)

theorem ofChars_textBefore (name : String) (before : List (String × Column)) (read : List Char) :
    ofChars (textBefore name before ++ '"' :: doubleQuotes read) =
      .word "CREATE" :: .word "TABLE" :: .name name :: .sign "(" :: (columnsBefore before ++ [.illegal]) := by
  have hsplit : textBefore name before ++ '"' :: doubleQuotes read =
      "CREATE".toList ++ ' ' :: ("TABLE".toList ++ ' ' :: ((quote name).toList ++ ' ' :: '(' ::
        (before.flatMap (fun q => (q.2.text q.1).toList ++ [',', ' ']) ++ '"' :: doubleQuotes read))) := by
    simp [textBefore]
  rw [hsplit, ofChars_keyword (by decide), ofChars_keyword (by decide), ofChars_quote _ (ends_space _), ofChars_space,
    ofChars_open, ofChars_columnsBefore, Sql.ofChars_open_quote]

end

/-- A table is not planned if the name of a column breaks off. -/
theorem planOf_createText_of_broken_column (htable : Unbroken table.name) (h : ¬ ∀ n ∈ table.columnNames, Unbroken n) :
    ∃ e, c.planOf table.createText [] = .error e := by
  obtain ⟨before, p, after, hcolumns, hp, hbefore⟩ := exists_broken_column h
  obtain ⟨rest, htext⟩ := toList_createText hcolumns
  obtain ⟨read, hscan⟩ := Sql.map_token_scan_broken (not_mem_textBefore htable hbefore) hp htext
  rw [ofChars_textBefore] at hscan
  obtain ⟨_, htext, raw, offset, e, rfl⟩ := Statement.ofText_of_scan hscan
    (takes_readStatement_create (takes_readDeclaration_refused (refuses_readTableBody before)))
  rw [Connection.planOf, htext]
  show ∃ e', ((c.store.plan _) >>= _) = _
  cases hcheck : c.store.checkTableName table.name raw offset with
  | ok =>
      refine ⟨e, ?_⟩
      simp only [Store.plan, hcheck, bind, Except.bind]
  | error e' =>
      refine ⟨e', ?_⟩
      simp only [Store.plan, hcheck, bind, Except.bind]

/-! ## Indexes -/

/-- What follows the words of an index decides whether it is read. -/
theorem refuses_readDeclaration_index (unique : Bool)
    (h : Refuses (do
      let (index, _) ← name
      expectWord "ON"
      let (table, _) ← name
      expectSign "("
      let terms ← commaSeparated readIndexTerm ((← get).tokens.length)
      expectSign ")"
      return Statement.createIndex unique index table terms) ⟨ts, n⟩) :
    Refuses readDeclaration ⟨(if unique then [.word "UNIQUE"] else []) ++ .word "INDEX" :: ts, n⟩ := by
  have hnot : ∀ word, word = "TABLE" ∨ word = "TRIGGER" →
      ∀ t, ((if unique then [Token.word "UNIQUE"] else []) ++ .word "INDEX" :: ts).head? = some t →
        t.isWord word = false := by
    rintro word hword t ht
    cases unique <;> cases ht <;> rcases hword with rfl | rfl <;> exact not_isWord_of_ne (by simp [keywords]) (by decide)
  refine (takes_acceptWord_of_not (hnot _ (.inl rfl))).bind_refuses ?_
  rintro _ rfl
  refine (takes_acceptWord_of_not (hnot _ (.inr rfl))).bind_refuses ?_
  rintro _ rfl
  refine (takes_unique unique).bind_refuses ?_
  rintro _ rfl
  exact (takes_expectWord (isWord_self (by simp [keywords]))).bind_refuses fun _ _ => h

/-- An index is not planned if its name breaks off. -/
theorem planOf_createIndex_of_broken_name {index : Index} {table : String} (h : ¬ Unbroken index.name) :
    ∃ e, c.planOf (index.createText table) [] = .error e := by
  have htext : (index.createText table).toList =
      ("CREATE " ++ (if index.unique then "UNIQUE " else "") ++ "INDEX ").toList ++
        ((quote index.name).toList ++ (" ON " ++ quote table ++ " (" ++ quoteList index.columns ++ ")").toList) := by
    rw [Index.createText]
    simp
  obtain ⟨read, hscan⟩ := Sql.map_token_scan_broken (by cases index.unique <;> decide) h htext
  have htokens : ofChars (("CREATE " ++ (if index.unique then "UNIQUE " else "") ++ "INDEX ").toList ++
      '"' :: doubleQuotes read) =
        .word "CREATE" :: ((if index.unique then [.word "UNIQUE"] else []) ++ .word "INDEX" :: [.illegal]) := by
    cases index.unique with
    | true =>
        have hsplit : ("CREATE " ++ (if true then "UNIQUE " else "") ++ "INDEX ").toList ++ '"' :: doubleQuotes read =
            "CREATE".toList ++ ' ' :: ("UNIQUE".toList ++ ' ' :: ("INDEX".toList ++ ' ' :: '"' :: doubleQuotes read)) := by
          simp
        rw [hsplit, ofChars_keyword (by decide), ofChars_keyword (by decide), ofChars_keyword (by decide),
          Sql.ofChars_open_quote]
        rfl
    | false =>
        have hsplit : ("CREATE " ++ (if false then "UNIQUE " else "") ++ "INDEX ").toList ++ '"' :: doubleQuotes read =
            "CREATE".toList ++ ' ' :: ("INDEX".toList ++ ' ' :: '"' :: doubleQuotes read) := by
          simp
        rw [hsplit, ofChars_keyword (by decide), ofChars_keyword (by decide), Sql.ofChars_open_quote]
        rfl
  rw [htokens] at hscan
  refine planOf_of_refuses hscan (refuses_readStatement_create (refuses_readDeclaration_index index.unique ?_))
  exact (refuses_name rfl).bind

/-- A parenthesis that closes nothing is no expression. -/
theorem refuses_expression_close : Refuses expression ⟨.sign ")" :: ts, n⟩ := by
  refine takes_fuelFor.bind_refuses ?_
  rintro _ rfl
  refine Refuses.bind ?_
  refine takes_next?.bind_refuses ?_
  rintro _ ⟨l, rfl, hl⟩
  simp only [hl]
  exact refuses_refuse

/-- An index is not planned if it has no columns. -/
theorem planOf_createIndex_of_no_columns {index : Index} {table : String} (htable : Unbroken table)
    (hname : Unbroken index.name) (h : index.columns = []) : ∃ e, c.planOf (index.createText table) [] = .error e := by
  have hscan := Token.map_token_scan (Index.unbroken_createText htable hname (by simp [h]))
  rw [index.ofChars_createText, Index.tokens, h] at hscan
  refine planOf_of_refuses hscan (refuses_readStatement_create (refuses_readDeclaration_index index.unique ?_))
  refine takes_name.bind_refuses ?_
  rintro ⟨_, _⟩ rfl
  refine (takes_expectWord (isWord_self (by simp [keywords]))).bind_refuses fun _ _ => ?_
  refine takes_name.bind_refuses ?_
  rintro ⟨_, _⟩ rfl
  refine (takes_expectSign rfl).bind_refuses fun _ _ => ?_
  refine takes_get.bind_refuses fun r _ => Refuses.bind ?_
  cases r.tokens.length with
  | zero => exact refuses_refuse
  | succ fuel => exact refuses_expression_close.bind.bind

/-! ## Texts of declarations -/

/-- What stands behind the word of declarations is read as one of them. -/
theorem gives_readDeclaration : Gives readDeclaration fun s => ∀ change, s ≠ .change change := by
  refine .bind fun _ => .ite ?_ (.bind fun _ => .ite ?_ ?_)
  · refine .bind fun _ => .bind fun rest => ?_
    split <;> refine .bind fun _ => .pure fun _ h => ?_ <;> cases h
  -- The three kinds of event end in the same steps.
  · repeat' first | refine .ite ?_ ?_ | refine .bind fun _ => ?_
    all_goals
      refine .pure ?_
      exact fun _ h => by cases h
  · repeat refine .bind fun _ => ?_
    refine .pure ?_
    exact fun _ h => by cases h

/-- A text that starts with the word of declarations changes no rows. -/
theorem ne_change_of_create {text : String} {rest : List Char} {statement : Statement} {needed : Nat}
    (htext : text.toList = "CREATE ".toList ++ rest) (h : Statement.ofText text = .ok (statement, needed)) :
    ∀ change, statement ≠ .change change := by
  have hscan : (Token.scan text).map Located.token = .word "CREATE" :: ofChars (rest.takeWhile (· != '\x00')) := by
    have hinput : text.toList.takeWhile (· != '\x00') =
        "CREATE".toList ++ ' ' :: rest.takeWhile (· != '\x00') := by
      rw [htext]
      rfl
    rw [← ofChars_keyword (by decide), ← hinput]
    rfl
  obtain ⟨⟨_, reader⟩, hread, hdone⟩ := bind_eq_ok.1 h
  cases hdone
  have hfront : (⟨Token.scan text, 0⟩ : Reader).front =
      ⟨.word "CREATE" :: ofChars (rest.takeWhile (· != '\x00')), 0⟩ := congrArg (Front.mk · 0) hscan
  obtain ⟨_, r, ⟨l, rfl, -⟩, hr, hread⟩ := takes_next?.of_bind hfront hread
  have hselect : ∀ t, (Token.word "CREATE" :: ofChars (rest.takeWhile (· != '\x00'))).head? = some t →
      t.isWord "SELECT" = false := by
    intro t ht
    cases ht
    exact not_isWord_of_ne (by simp [keywords]) (by decide)
  obtain ⟨_, r, rfl, hr, hread⟩ := (takes_acceptWord_of_not hselect).of_bind hr hread
  obtain ⟨_, r, rfl, hr, hread⟩ := (takes_acceptWord (isWord_self (by simp [keywords]))).of_bind hr hread
  obtain ⟨s, r', hs, hread⟩ := bind_apply_eq_ok.1 hread
  obtain ⟨_, _, -, hend⟩ := bind_apply_eq_ok.1 hread
  cases hend
  exact gives_readDeclaration r _ _ hs

/-- What is planned for a text that starts with the word of declarations changes no rows. -/
theorem planOf_ne_change_of_create {text : String} {rest : List Char} {c : Connection} {parameters : List StoredValue}
    (htext : text.toList = "CREATE ".toList ++ rest) (change : PlannedChange) :
    c.planOf text parameters ≠ .ok (.change change) := by
  intro hplan
  obtain ⟨⟨statement, needed⟩, hread, hplan⟩ := bind_eq_ok.1 hplan
  obtain ⟨plan, hplanned, hplan⟩ := bind_eq_ok.1 hplan
  have hstatement := ne_change_of_create htext hread
  have hplan' : plan = .change change := by
    split at hplan
    · cases hplan
      rfl
    · cases hplan
  subst hplan'
  cases statement with
  | change change => exact hstatement change rfl
  | nothing => cases hplanned
  | createTable name raw offset body =>
      obtain ⟨_, -, hplanned⟩ := bind_eq_ok.1 hplanned
      obtain ⟨_, -, hplanned⟩ := bind_eq_ok.1 hplanned
      obtain ⟨_, -, hplanned⟩ := bind_eq_ok.1 hplanned
      cases hplanned
  | createIndex unique name table terms =>
      obtain ⟨_, -, hplanned⟩ := bind_eq_ok.1 hplanned
      cases hplanned
  | select selection =>
      obtain ⟨_, -, hplanned⟩ := bind_eq_ok.1 hplanned
      cases hplanned
  | createTrigger name raw offset event table body =>
      simp only [Store.plan] at hplanned
      split at hplanned
      · cases hplanned
      · split at hplanned <;> cases hplanned

/-! ## Declarations that are carried out -/

namespace Store

/-- Only a table with names apart, and not too many of them, is declared. -/
theorem of_declaredTable {columns : List (String × Column)} {key : List String} {name : String} {t : Table}
    (h : declaredTable name (bodyOf columns key) = .ok t) :
    Apart (columns.map Prod.fst) ∧ columns.length ≤ maxColumns := by
  have hnames : (bodyOf columns key).columns.map ColumnDeclaration.name = columns.map Prod.fst := by
    simp only [bodyOf, List.map_map]
    rfl
  have hlength : (bodyOf columns key).columns.length = columns.length := List.length_map _
  rw [declaredTable, hnames, hlength] at h
  cases hduplicate : duplicateName? ((columns.map Prod.fst).take maxColumns) with
  | some n => simp only [hduplicate] at h; cases h
  | none =>
      simp only [hduplicate] at h
      by_cases hwide : maxColumns < columns.length
      · rw [if_pos hwide] at h
        cases h
      · have hle : columns.length ≤ maxColumns := Nat.not_lt.1 hwide
        rw [List.take_of_length_le (by rwa [List.length_map]), duplicateName?_eq_none] at hduplicate
        exact ⟨hduplicate, hle⟩

theorem of_checkTableName {store : Store} {name raw : String} {offset : Nat}
    (h : store.checkTableName name raw offset = .ok ()) : Free store name := by
  unfold checkTableName at h
  split at h
  · cases h
  rename_i hreserved
  split at h
  · cases h
  rename_i htable
  split at h
  · cases h
  rename_i hindex
  exact ⟨by simpa using htable, by simpa using hindex, by simpa using hreserved⟩

/-- An index that is declared has a free name, and the named columns of its table as parts. -/
theorem of_declaredIndex {store : Store} {unique : Bool} {name called : String} {columns : List String}
    {p : Table × TableIndex} (h : store.declaredIndex unique name called (columns.map .column) = .ok p) :
    Free store name ∧
      ∃ t, store.table? called = some t ∧ p = (t, ⟨name, columns.map t.position?, unique, .created⟩) := by
  unfold declaredIndex at h
  split at h
  · cases h
  rename_i t htable
  split at h
  · cases h
  rename_i hreserved
  split at h
  · cases h
  rename_i hfresh
  split at h
  · cases h
  rename_i hindex
  split at h
  · cases h
  cases h
  refine ⟨⟨by simpa using hfresh, by simpa using hindex, by simpa using hreserved⟩, t, htable, ?_⟩
  rw [List.map_map]
  rfl

end Store

namespace Connection

variable {parameters : List StoredValue} {text : String} {result : Result} {after : Connection}

/-- A statement that runs was planned, and its plan was carried out. -/
theorem of_run (h : c.run text parameters = (.ok result, after)) :
    ∃ plan, c.planOf text parameters = .ok plan ∧ c.execute parameters.toArray plan = .ok (result, after) := by
  unfold run at h
  cases hplan : c.planOf text parameters with
  | error f => rw [hplan] at h; cases h
  | ok plan =>
      refine ⟨plan, rfl, ?_⟩
      cases hexecute : c.execute parameters.toArray plan with
      | error stop =>
          simp only [hplan, Store.interrupted, Except.mapError, bind, Except.bind, hexecute] at h
          cases h
      | ok p =>
          simp only [hplan, Store.interrupted, Except.mapError, bind, Except.bind, hexecute] at h
          cases h
          rfl

/-- A text without parameters that is planned means a statement. -/
theorem of_planOf {statement : Statement} {plan : Plan} (htext : Statement.ofText text = .ok (statement, 0))
    (h : c.planOf text [] = .ok plan) : c.store.plan statement = .ok plan := by
  rw [planOf, htext] at h
  change (c.store.plan statement >>= _) = _ at h
  cases hplan : c.store.plan statement with
  | error f => rw [hplan] at h; cases h
  | ok planned => rw [hplan] at h; cases h; rfl

end Connection

/-- A table that a connection has been able to create: what it took, and what there is afterwards. -/
theorem Connection.of_run_createTable {result : Result} {after : Connection} (hne : table.columns ≠ [])
    (hkey : table.primaryKey.Nodup) (h : c.run table.createText [] = (.ok result, after)) :
    c.readOnly = false ∧ Store.Free c.store table.name ∧ (∀ n ∈ table.name :: table.columnNames, Unbroken n) ∧
      Apart table.columnNames ∧ table.columns.length ≤ Store.maxColumns ∧
      after = { c with store := c.store.addTable (table.storedWith []) } := by
  obtain ⟨plan, hplan, hexecute⟩ := of_run h
  have hname : Unbroken table.name := by
    by_contra hbroken
    obtain ⟨e, he⟩ := planOf_createText_of_broken_name (c := c) hbroken
    rw [he] at hplan
    cases hplan
  have hcolumns : ∀ n ∈ table.columnNames, Unbroken n := by
    by_contra hbroken
    obtain ⟨e, he⟩ := planOf_createText_of_broken_column (c := c) hname hbroken
    rw [he] at hplan
    cases hplan
  have hnames : ∀ n ∈ table.name :: table.columnNames, Unbroken n := List.forall_mem_cons.2 ⟨hname, hcolumns⟩
  obtain ⟨raw, offset, htext⟩ := ofText_createTable table hne hnames
  have hmeans := of_planOf htext hplan
  rw [Store.plan] at hmeans
  cases hcheck : c.store.checkTableName table.name raw offset with
  | error f => rw [hcheck] at hmeans; cases hmeans
  | ok =>
      rw [hcheck] at hmeans
      change (Store.declaredTable table.name (bodyOf table.columns table.primaryKey) >>= _) = _ at hmeans
      cases hdeclared : Store.declaredTable table.name (bodyOf table.columns table.primaryKey) with
      | error f => rw [hdeclared] at hmeans; cases hmeans
      | ok t =>
          obtain ⟨hapart, hwidth⟩ := Store.of_declaredTable hdeclared
          have hfree := Store.of_checkTableName hcheck
          have hwrites : c.readOnly = false := by
            rw [hdeclared] at hmeans
            cases hmeans
            cases hreads : c.readOnly with
            | false => rfl
            | true => simp [execute, writing, hreads, Store.interrupted, Except.mapError, bind, Except.bind] at hexecute
          rw [run_createTable hne hnames hapart hwidth hkey hwrites hfree] at h
          cases h
          exact ⟨hwrites, hfree, hnames, hapart, hwidth, rfl⟩

/-- An index that a connection has been able to create was declared: it has columns, and its name does not break off. -/
theorem Connection.declared_of_run_createIndex {index : Index} {result : Result} {after : Connection}
    (hnames : ∀ n ∈ table.name :: table.columnNames, Unbroken n) (hindex : index ∈ table.indexes)
    (h : c.run (index.createText table.name) [] = (.ok result, after)) :
    Unbroken index.name ∧ index.columns ≠ [] ∧ ∃ p : Table × TableIndex,
      c.store.declaredIndex index.unique index.name table.name (index.columns.map .column) = .ok p ∧
        c.execute #[] (.createIndex p.1 p.2) = .ok (result, after) := by
  obtain ⟨hname, hcolumns⟩ := List.forall_mem_cons.1 hnames
  obtain ⟨plan, hplan, hexecute⟩ := of_run h
  have hindexName : Unbroken index.name := by
    by_contra hbroken
    obtain ⟨e, he⟩ := @planOf_createIndex_of_broken_name c index table.name hbroken
    rw [he] at hplan
    cases hplan
  have hne : index.columns ≠ [] := by
    intro hnone
    obtain ⟨e, he⟩ := planOf_createIndex_of_no_columns (c := c) hname hindexName hnone
    rw [he] at hplan
    cases hplan
  have hmeans := of_planOf (ofText_createIndex hne hname hindexName
    fun n hn => hcolumns n (table.indexes_known index hindex n hn)) hplan
  rw [Store.plan] at hmeans
  refine ⟨hindexName, hne, ?_⟩
  cases hdeclared : c.store.declaredIndex index.unique index.name table.name (index.columns.map .column) with
  | error f => rw [hdeclared] at hmeans; cases hmeans
  | ok p =>
      rw [hdeclared] at hmeans
      cases hmeans
      exact ⟨p, rfl, hexecute⟩

/-- An index that a connection has been able to create is in front of those that are there. -/
theorem Connection.of_run_createIndex {store : Store} {indexes : List Index} {index : Index} {result : Result}
    {after : Connection} (hnames : ∀ n ∈ table.name :: table.columnNames, Unbroken n) (hapart : Apart table.columnNames)
    (hindex : index ∈ table.indexes) (hwrites : c.readOnly = false)
    (hstore : c.store = store.addTable (table.storedWith indexes)) (htable : store.table? table.name = none)
    (h : c.run (index.createText table.name) [] = (.ok result, after)) :
    Unbroken index.name ∧ index.columns ≠ [] ∧ Store.Free c.store index.name ∧
      after = { c with store := store.addTable (table.storedWith (index :: indexes)) } := by
  have hknown := table.indexes_known index hindex
  obtain ⟨hname, hne, p, hdeclared, hexecute⟩ := declared_of_run_createIndex hnames hindex h
  obtain ⟨hfree, t, ht, rfl⟩ := Store.of_declaredIndex hdeclared
  refine ⟨hname, hne, hfree, ?_⟩
  have hfound : c.store.table? table.name = some (table.storedWith indexes) := by
    rw [hstore, Store.table?_addTable htable]
    exact if_pos (sameName_self _)
  obtain rfl : table.storedWith indexes = t := Option.some.inj (hfound.symm.trans ht)
  have hset : c.store.setTable (table.storedWith (index :: indexes)) =
      store.addTable (table.storedWith (index :: indexes)) := by
    rw [hstore]
    exact Store.setTable_addTable htable rfl
  have hwriting : c.writing = .ok () := by rw [writing, hwrites]; rfl
  rw [Store.map_position? hapart hknown] at hexecute
  simp only [execute, hwriting, Store.interrupted, Except.mapError, bind, Except.bind] at hexecute
  rw [← hset]
  cases hexecute
  rfl

end Engine

end RecordTables
