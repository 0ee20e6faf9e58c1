import RecordTables.Proofs.Engine.Expressions
import RecordTables.Proofs.Schema.Texts

/-!
# Declarations read back

The statements that create a table and its indexes are read as what the definition says: its columns with their types,
whether they refuse NULL, its key and the columns of its indexes, all in their order.
-/

namespace RecordTables

open Engine (Token Located ColumnDeclaration KeyDeclaration TableBody IndexTerm)
open Engine.Reading
open Engine.Token (ofChars)
open Sql (Unbroken)

/-- A column as its declaration says it. -/
def Column.declaration (name : String) (column : Column) : ColumnDeclaration :=
  ⟨name, column.type.keyword, !column.nullable⟩

/-- A key as the declaration of its table says it. -/
def keyDeclarations (key : List String) : List KeyDeclaration := if key.isEmpty then [] else [⟨true, key⟩]

namespace Engine

/-- What follows starts with a sign, if anything follows. -/
def StartsSign (ts : List Token) : Prop := ∀ t, ts.head? = some t → ∃ s, t = .sign s

theorem startsSign_cons {s : String} {ts : List Token} : StartsSign (.sign s :: ts) := by
  intro t ht
  cases ht
  exact ⟨s, rfl⟩

theorem StartsSign.not_isWord {ts : List Token} (h : StartsSign ts) (word : String) :
    ∀ t, ts.head? = some t → t.isWord word = false := by
  intro t ht
  obtain ⟨s, rfl⟩ := h t ht
  rfl

variable {n fuel : Nat} {ts more : List Token}

/-! ## Columns -/

theorem takes_readTypeWords {t : Token} (type : ColumnType) (ht : t = .word "NULL" ∨ t = .word "NOT") :
    Takes (readTypeWords (fuel + 2)) ⟨.word type.keyword :: t :: ts, n⟩ ⟨t :: ts, n⟩ (· = [type.keyword]) := by
  have hends : Takes (readTypeWords (fuel + 1)) ⟨t :: ts, n⟩ ⟨t :: ts, n⟩ (· = []) := by
    rw [readTypeWords]
    refine takes_next?.bind ?_
    rintro _ ⟨l, rfl, hl⟩
    have hword : ∃ w, t = .word w ∧ endsType.contains w.toUpper = true := by
      rcases ht with rfl | rfl
      · exact ⟨_, rfl, by decide +kernel⟩
      · exact ⟨_, rfl, by decide +kernel⟩
    obtain ⟨w, rfl, hw⟩ := hword
    simp only [hl, hw, if_true]
    exact Takes.pure rfl
  have hkeyword : endsType.contains type.keyword.toUpper = false := by
    cases type <;> decide +kernel
  rw [readTypeWords]
  refine takes_next?.bind ?_
  rintro _ ⟨l, rfl, hl⟩
  simp only [hl, hkeyword, Bool.false_eq_true, if_false]
  refine takes_skip.bind fun _ _ => ?_
  exact hends.bind_eq (Takes.pure rfl)

/-- A type without numbers behind it. -/
theorem takes_readTypeSize (h : ∀ t, ts.head? = some t → t.isSign "(" = false) :
    Takes readTypeSize ⟨ts, n⟩ ⟨ts, n⟩ (· = "") :=
  (takes_acceptSign_of_not h).bind_eq (Takes.pure rfl)

/-- What follows the constraints of a column ends them. -/
theorem takes_readColumnConstraints_end {column : String} {notNull : Bool} {keys : List KeyDeclaration}
    (hmore : StartsSign more) :
    Takes (readColumnConstraints column fuel notNull keys) ⟨more, n⟩ ⟨more, n⟩ (· = (notNull, keys)) := by
  cases fuel with
  | zero => exact Takes.pure rfl
  | succ fuel =>
      rw [readColumnConstraints]
      refine (takes_acceptWord_of_not (hmore.not_isWord _)).bind_eq ?_
      refine (takes_acceptWord_of_not (hmore.not_isWord _)).bind_eq ?_
      refine (takes_acceptWord_of_not (hmore.not_isWord _)).bind_eq ?_
      refine (takes_acceptWord_of_not (hmore.not_isWord _)).bind_eq ?_
      exact Takes.pure rfl

theorem takes_readColumnConstraints {name : String} (column : Column) (hmore : StartsSign more) :
    Takes (readColumnConstraints name (fuel + 1) false []) ⟨column.nullTokens ++ more, n⟩ ⟨more, n⟩
      (· = (!column.nullable, [])) := by
  rw [readColumnConstraints]
  cases hnullable : column.nullable with
  | true =>
      simp only [Column.nullTokens, hnullable, if_true, List.singleton_append]
      refine (takes_acceptWord (isWord_self (by simp [keywords]))).bind_eq ?_
      exact takes_readColumnConstraints_end hmore
  | false =>
      simp only [Column.nullTokens, hnullable, Bool.false_eq_true, if_false, List.cons_append, List.nil_append]
      refine (takes_acceptWord_of_not ?_).bind_eq ?_
      · intro t ht
        cases ht
        exact not_isWord_of_ne (by simp [keywords]) (by decide)
      refine (takes_acceptWord (isWord_self (by simp [keywords]))).bind_eq ?_
      refine (takes_expectWord (isWord_self (by simp [keywords]))).bind fun _ _ => ?_
      exact takes_readColumnConstraints_end hmore

theorem takes_readColumn {name : String} (column : Column) (hmore : StartsSign more) :
    Takes readColumn ⟨(column.piece name).tokens ++ more, n⟩ ⟨more, n⟩ (· = (column.declaration name, [])) := by
  obtain ⟨t, us, hnull, ht⟩ : ∃ t us, column.nullTokens ++ more = t :: us ∧ (t = .word "NULL" ∨ t = .word "NOT") := by
    cases hnullable : column.nullable with
    | true => exact ⟨_, more, by simp only [Column.nullTokens, hnullable, if_true, List.singleton_append], .inl rfl⟩
    | false => exact ⟨_, .word "NULL" :: more, by simp [Column.nullTokens, hnullable], .inr rfl⟩
  have hnot : ∀ t', (column.nullTokens ++ more).head? = some t' → t'.isSign "(" = false := by
    intro t' h
    rw [hnull] at h
    cases h
    rcases ht with rfl | rfl <;> rfl
  show Takes readColumn ⟨.name name :: .word column.type.keyword :: (column.nullTokens ++ more), n⟩ _ _
  refine takes_name.bind ?_
  rintro ⟨_, l⟩ rfl
  refine takes_get.bind fun r hr => ?_
  -- There are at least as many steps as the two tokens of the type and the constraint behind it.
  obtain ⟨fuel, hfuel⟩ : ∃ fuel, r.tokens.length = fuel + 2 := by
    refine ⟨r.tokens.length - 2, ?_⟩
    have hlength := Reader.length_of_front hr
    rw [hnull, List.length_cons, List.length_cons] at hlength
    omega
  have hwords : Takes (readTypeWords (fuel + 2)) ⟨.word column.type.keyword :: (column.nullTokens ++ more), n⟩
      ⟨column.nullTokens ++ more, n⟩ (· = [column.type.keyword]) := by
    rw [hnull]
    exact takes_readTypeWords column.type ht
  simp only [hfuel]
  refine hwords.bind_eq ?_
  refine (takes_readTypeSize hnot).bind_eq ?_
  refine (takes_readColumnConstraints column hmore).bind_eq ?_
  refine Takes.pure ?_
  simp [Column.declaration]

/-! ## Keys -/

theorem takes_readNames {names : List String} (hne : names ≠ []) :
    Takes readNames ⟨nameTokens names ++ more, n⟩ ⟨more, n⟩ (· = names) := by
  show Takes readNames ⟨.sign "(" :: (Token.commas (names.map fun s => [.name s]) ++ [.sign ")"] ++ more), n⟩ _ _
  rw [List.append_assoc, List.singleton_append]
  refine (takes_expectSign rfl).bind fun _ _ => ?_
  refine takes_get.bind fun r hr => ?_
  have hlength : names.length ≤ r.tokens.length := by
    have hcommas : (names.map fun s => [Token.name s]).length ≤ _ := length_le_commas (by simp)
    rw [List.length_map] at hcommas
    rw [Reader.length_of_front hr, List.length_append]
    omega
  have hclose : ∀ t, (Token.sign ")" :: more).head? = some t → t.isSign "," = false := by
    intro t ht
    cases ht
    rfl
  have hlist := takes_commaSeparated (n := n) (do return (← name).1) (fun s => [Token.name s]) (fun _ s => s) 0 hclose
    hne (fun s _ k _ rest _ => takes_name.bind fun p hp => Takes.pure hp) hlength
  rw [counted_zero, List.map_id', Nat.zero_mul] at hlist
  refine hlist.bind_eq ?_
  exact (takes_expectSign rfl).bind fun _ _ => Takes.pure rfl


theorem takes_readKeys {key : List String} (hne : key ≠ []) (hmore : ∀ t, more.head? = some t → t.isSign "," = false) :
    Takes (readKeys (fuel + 1)) ⟨(keyPiece key).tokens ++ more, n⟩ ⟨more, n⟩ (· = [⟨true, key⟩]) := by
  show Takes (readKeys (fuel + 1)) ⟨.word "PRIMARY" :: .word "KEY" :: (nameTokens key ++ more), n⟩ _ _
  rw [readKeys]
  refine (takes_acceptWord (isWord_self (by simp [keywords]))).bind_eq ?_
  refine (takes_expectWord (isWord_self (by simp [keywords]))).bind fun _ _ => ?_
  refine (takes_readNames hne).bind_eq (Takes.bind_eq (Takes.pure rfl) ?_)
  exact (takes_acceptSign_of_not hmore).bind_eq (Takes.pure rfl)

/-! ## Tables -/

/-- What is read of the columns of a table and its key. -/
def bodyOf (columns : List (String × Column)) (key : List String) : TableBody :=
  ⟨columns.map fun p => p.2.declaration p.1, keyDeclarations key⟩

theorem takes_readColumns {columns : List (String × Column)} (hne : columns ≠ []) (key : List String)
    (hmore : ∀ t, more.head? = some t → t.isSign "," = false) (hsign : StartsSign more)
    (hfuel : columns.length + 1 ≤ fuel) :
    Takes (readColumns fuel)
      ⟨Token.commas ((columns.map (fun p => p.2.piece p.1) ++ keyPieces key).map Piece.tokens) ++ more, n⟩
      ⟨more, n⟩ (· = bodyOf columns key) := by
  induction columns generalizing fuel with
  | nil => exact absurd rfl hne
  | cons p columns ih =>
      obtain ⟨name, column⟩ := p
      obtain ⟨fuel, rfl⟩ : ∃ k, fuel = k + 2 := ⟨fuel - 2, by simp at hfuel; omega⟩
      rw [readColumns]
      cases columns with
      | cons q columns =>
          have henough : (q :: columns).length + 1 ≤ fuel + 1 := by simp only [List.length_cons] at hfuel ⊢; omega
          have hrest := ih (by simp) henough
          rw [List.map_cons, List.map_cons, List.cons_append, List.cons_append, List.map_cons, List.map_cons,
            commas_cons_cons, List.append_assoc, List.cons_append]
          refine (takes_readColumn column startsSign_cons).bind_eq ?_
          refine (takes_acceptSign rfl).bind_eq ?_
          -- A further column starts with a name, so it is no key.
          obtain ⟨us, hus⟩ : ∃ us, Token.commas ((q.2.piece q.1).tokens :: List.map Piece.tokens
              (List.map (fun p => p.2.piece p.1) columns ++ keyPieces key)) ++ more = .name q.1 :: us := by
            cases List.map Piece.tokens (List.map (fun p => p.2.piece p.1) columns ++ keyPieces key) with
            | nil => exact ⟨_, by rw [commas_singleton]; rfl⟩
            | cons => exact ⟨_, by rw [commas_cons_cons]; rfl⟩
          rw [List.map_cons, List.cons_append, List.map_cons, hus] at hrest
          rw [hus]
          refine takes_next?.bind ?_
          rintro _ ⟨l, rfl, hl⟩
          simp only [hl, Token.isWord, Bool.or_self, Bool.false_eq_true, if_false]
          exact hrest.bind_eq (Takes.pure rfl)
      | nil =>
          rw [List.map_cons, List.map_nil, List.singleton_append, List.map_cons]
          cases hkey : key.isEmpty with
          | true =>
              simp only [keyPieces, hkey, if_true, List.map_nil, commas_singleton]
              refine (takes_readColumn column hsign).bind_eq ?_
              refine (takes_acceptSign_of_not hmore).bind_eq (Takes.pure ?_)
              simp [bodyOf, keyDeclarations, hkey]
          | false =>
              have hne : key ≠ [] := fun h => by simp [h] at hkey
              simp only [keyPieces, hkey, Bool.false_eq_true, if_false, List.map_cons, List.map_nil, commas_cons_cons,
                commas_singleton, List.append_assoc, List.cons_append]
              refine (takes_readColumn column startsSign_cons).bind_eq ?_
              refine (takes_acceptSign rfl).bind_eq ?_
              refine takes_next?.bind ?_
              rintro _ ⟨l, rfl, hl⟩
              have hprimary : (Token.word "PRIMARY").isWord "PRIMARY" = true := isWord_self (by simp [keywords])
              simp only [hl, hprimary, Bool.true_or, if_true]
              refine (takes_readKeys hne hmore).bind_eq (Takes.pure ?_)
              simp [bodyOf, keyDeclarations, hkey]

theorem takes_readEnd : Takes readEnd ⟨[], n⟩ ⟨[], n⟩ fun _ => True := by
  refine (takes_acceptSign_of_not (by simp)).bind_eq ?_
  exact takes_next?_end.bind_eq (Takes.pure trivial)

theorem takes_readTableBody (table : TableDefinition) (hne : table.columns ≠ []) :
    Takes readTableBody ⟨.sign "(" :: (Token.commas (table.pieces.map Piece.tokens) ++ [.sign ")"]), n⟩ ⟨[], n⟩
      (· = bodyOf table.columns table.primaryKey) := by
  refine (takes_expectSign rfl).bind fun _ _ => ?_
  refine takes_get.bind fun r hr => ?_
  have hfuel : table.columns.length + 1 ≤ r.tokens.length := by
    have hcommas : (table.pieces.map Piece.tokens).length ≤ _ := length_le_commas fun item hitem => by
      obtain ⟨p, hp, rfl⟩ := List.mem_map.1 hitem
      exact table.tokens_ne_nil p hp
    have hpieces : table.columns.length ≤ table.pieces.length := by
      rw [TableDefinition.pieces, List.length_append, List.length_map]
      omega
    rw [List.length_map] at hcommas
    rw [Reader.length_of_front hr, List.length_append, List.length_singleton]
    omega
  have hclose : ∀ t, [Token.sign ")"].head? = some t → t.isSign "," = false := by
    intro t ht
    cases ht
    rfl
  refine (takes_readColumns hne table.primaryKey hclose startsSign_cons hfuel).bind_eq ?_
  refine (takes_expectSign rfl).bind fun _ _ => ?_
  exact takes_readEnd.bind fun _ _ => Takes.pure rfl

/-- The statement that creates a table says its name and its body. -/
theorem takes_readDeclaration_table {table : String} {body : TableBody}
    (h : Takes readTableBody ⟨ts, n⟩ ⟨[], n⟩ (· = body)) :
    Takes readDeclaration ⟨.word "TABLE" :: .name table :: ts, n⟩ ⟨[], n⟩
      fun s => ∃ raw offset, s = .createTable table raw offset (.ok body) := by
  refine (takes_acceptWord (isWord_self (by simp [keywords]))).bind_eq ?_
  refine takes_name.bind ?_
  rintro ⟨_, l⟩ rfl
  refine takes_get.bind fun r hr => ?_
  obtain ⟨_, r', hrun, hr', rfl⟩ := h r hr
  have hmatch : readTableBody.run r = .ok (_, r') := hrun
  simp only [hmatch]
  refine Takes.bind (P := fun _ => True) (y := ⟨[], n⟩) ?_ fun _ _ => Takes.pure ⟨l.raw, l.offset, rfl⟩
  exact fun _ _ => ⟨(), r', rfl, hr', trivial⟩

/-! ## Indexes -/

/-- A bare name is a column of an index. -/
theorem takes_readIndexTerm {name : String} (hmore : StartsSign more) (hcloses : Closes anyLevel more) :
    Takes readIndexTerm ⟨.name name :: more, n⟩ ⟨more, n⟩ (· = .column name) := by
  refine (takes_expression_name hcloses).bind ?_
  rintro _ ⟨offset, rfl⟩
  refine (takes_acceptWord_of_not (hmore.not_isWord _)).bind_eq ?_
  refine (takes_acceptWord_of_not (hmore.not_isWord _)).bind_eq ?_
  exact Takes.pure rfl

theorem length_le_tokens {names : List String} {r : Reader}
    (hr : r.front = ⟨Token.commas (names.map fun s => [.name s]) ++ more, n⟩) : names.length ≤ r.tokens.length := by
  have hcommas : (names.map fun s => [Token.name s]).length ≤ _ := length_le_commas (by simp)
  rw [List.length_map] at hcommas
  rw [Reader.length_of_front hr, List.length_append]
  omega

theorem takes_indexTerms {names : List String} (hne : names ≠ []) (hfuel : names.length ≤ fuel) :
    Takes (commaSeparated readIndexTerm fuel)
      ⟨Token.commas (names.map fun s => [.name s]) ++ [.sign ")"], n⟩ ⟨[.sign ")"], n⟩ (· = names.map .column) := by
  have hclose : closes anyLevel (.sign ")") = true := closes_of_mem (by simp [closers])
  have hcomma : closes anyLevel (.sign ",") = true := closes_of_mem (by simp [closers])
  have hend : ∀ t, [Token.sign ")"].head? = some t → t.isSign "," = false := by
    intro t ht
    cases ht
    rfl
  have hlist := takes_commaSeparated (n := n) readIndexTerm (fun s => [Token.name s]) (fun _ s => IndexTerm.column s) 0
    hend hne (by
      rintro s _ k _ _ (⟨us, rfl⟩ | rfl)
      · exact takes_readIndexTerm startsSign_cons (closes_cons hcomma)
      · exact takes_readIndexTerm startsSign_cons (closes_cons hclose)) hfuel
  rwa [counted_zero, Nat.zero_mul] at hlist

/-- The word that makes an index unique is taken if it is there. -/
theorem takes_unique (unique : Bool) :
    Takes (acceptWord "UNIQUE") ⟨(if unique then [.word "UNIQUE"] else []) ++ .word "INDEX" :: ts, n⟩
      ⟨.word "INDEX" :: ts, n⟩ (· = unique) := by
  cases unique with
  | true => exact takes_acceptWord (isWord_self (by simp [keywords]))
  | false =>
      apply takes_acceptWord_of_not
      intro t ht
      cases ht
      exact not_isWord_of_ne (by simp [keywords]) (by decide)

/-- The statement that creates an index says its name, its table, its columns and whether it is unique. -/
theorem takes_readDeclaration_index (table : String) {index : Index} (hne : index.columns ≠ []) :
    Takes readDeclaration ⟨(index.tokens table).tail, n⟩ ⟨[], n⟩
      (· = .createIndex index.unique index.name table (index.columns.map .column)) := by
  have hhead : ∀ word, "UNIQUE" ≠ word → "INDEX" ≠ word →
      ∀ t, (index.tokens table).tail.head? = some t → t.isWord word = false := by
    intro word hunique hindex t ht
    cases hu : index.unique <;> simp only [Index.tokens, hu, if_true, Bool.false_eq_true, if_false] at ht <;> cases ht
    · exact not_isWord_of_ne (by simp [keywords]) hindex
    · exact not_isWord_of_ne (by simp [keywords]) hunique
  refine (takes_acceptWord_of_not (hhead _ (by decide) (by decide))).bind_eq ?_
  refine (takes_acceptWord_of_not (hhead _ (by decide) (by decide))).bind_eq ?_
  refine (takes_unique index.unique).bind_eq ?_
  refine (takes_expectWord (isWord_self (by simp [keywords]))).bind fun _ _ => ?_
  refine takes_name.bind ?_
  rintro ⟨_, _⟩ rfl
  refine (takes_expectWord (isWord_self (by simp [keywords]))).bind fun _ _ => ?_
  refine takes_name.bind ?_
  rintro ⟨_, _⟩ rfl
  refine (takes_expectSign rfl).bind fun _ _ => ?_
  refine takes_get.bind fun r hr => ?_
  refine (takes_indexTerms hne (length_le_tokens hr)).bind_eq ?_
  exact (takes_expectSign rfl).bind fun _ _ => Takes.pure rfl

/-! ## Statements -/

/-- A declaration that is all of a text is its statement. -/
theorem takes_readStatement_create {P : Statement → Prop} (h : Takes readDeclaration ⟨ts, n⟩ ⟨[], n⟩ P) :
    Takes readStatement ⟨.word "CREATE" :: ts, n⟩ ⟨[], n⟩ P := by
  refine takes_next?.bind ?_
  rintro _ ⟨l, rfl, hl⟩
  refine (takes_acceptWord_of_not ?_).bind_eq ?_
  · intro t ht
    cases ht
    exact not_isWord_of_ne (by simp [keywords]) (by decide)
  refine (takes_acceptWord (isWord_self (by simp [keywords]))).bind_eq ?_
  refine h.bind fun s hs => ?_
  exact takes_readEnd.bind fun _ _ => Takes.pure hs

/-- What the tokens that are scanned are read as, the text is read as. -/
theorem Statement.ofText_of_scan {P : Statement → Prop} {text : String} {needed : Nat}
    (hscan : (Token.scan text).map Located.token = ts) (h : Takes readStatement ⟨ts, 0⟩ ⟨[], needed⟩ P) :
    ∃ s, Statement.ofText text = .ok (s, needed) ∧ P s := by
  obtain ⟨s, r, hrun, hr, hs⟩ := h ⟨Token.scan text, 0⟩ (congrArg (Front.mk · 0) hscan)
  refine ⟨s, ?_, hs⟩
  have hparameters : r.parameters = needed := (Front.mk.inj hr).2
  have hrun' : readStatement.run ⟨Token.scan text, 0⟩ = .ok (s, r) := hrun
  rw [Statement.ofText, hrun', ← hparameters]
  rfl

/-- What the tokens of a text are read as, the text is read as. -/
theorem Statement.ofText_of_takes {P : Statement → Prop} {text : String} {needed : Nat}
    (hunbroken : Unbroken text) (h : Takes readStatement ⟨ofChars text.toList, 0⟩ ⟨[], needed⟩ P) :
    ∃ s, Statement.ofText text = .ok (s, needed) ∧ P s :=
  Statement.ofText_of_scan (Token.map_token_scan hunbroken) h

/-- A table is created with the columns and the key of its definition. -/
theorem ofText_createTable (table : TableDefinition) (hne : table.columns ≠ [])
    (hnames : ∀ s ∈ table.name :: table.columnNames, Unbroken s) :
    ∃ raw offset, Statement.ofText table.createText =
      .ok (.createTable table.name raw offset (.ok (bodyOf table.columns table.primaryKey)), 0) := by
  have htakes : Takes readStatement ⟨table.tokens, 0⟩ ⟨[], 0⟩ _ :=
    takes_readStatement_create (takes_readDeclaration_table (takes_readTableBody table hne))
  rw [← table.ofChars_createText] at htakes
  obtain ⟨_, htext, raw, offset, rfl⟩ := Statement.ofText_of_takes (table.unbroken_createText hnames) htakes
  exact ⟨raw, offset, htext⟩

/-- An index is created with the columns of its definition. -/
theorem ofText_createIndex {table : String} {index : Index} (hne : index.columns ≠ []) (htable : Unbroken table)
    (hname : Unbroken index.name) (hcolumns : ∀ c ∈ index.columns, Unbroken c) :
    Statement.ofText (index.createText table) =
      .ok (.createIndex index.unique index.name table (index.columns.map .column), 0) := by
  have htakes : Takes readStatement ⟨index.tokens table, 0⟩ ⟨[], 0⟩ _ :=
    takes_readStatement_create (takes_readDeclaration_index table hne)
  rw [← index.ofChars_createText] at htakes
  obtain ⟨_, htext, rfl⟩ := Statement.ofText_of_takes (Index.unbroken_createText htable hname hcolumns) htakes
  exact htext

end Engine

end RecordTables
