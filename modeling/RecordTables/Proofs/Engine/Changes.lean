import RecordTables.Proofs.Engine.Declarations
import RecordTables.Proofs.Sql.Command
import RecordTables.Proofs.Sql.Unbroken

/-!
# Changes and selections read back

The statements that insert a row, and update, delete and select rows, are read as what they were written for.  Their
parameters are numbered in the order of their values, and a condition on a key is one equality for each of its columns.
-/

namespace RecordTables.Engine

open Reading
open Engine.Token (ofChars)
open Sql (Unbroken Predicate Query)

variable {n fuel : Nat} {ts more : List Token} {table : String}

/-! ## Conditions on a key -/

/-- The tokens of a condition on a key. -/
def keyTokens : List String → List Token
  | [] => []
  | first :: rest => equalityTokens first ++ furtherTokens rest

/-- A condition on the columns of a key, whose parameters follow those so far. -/
def keyCondition (n : Nat) : List Nat → Expr
  | [] => .truth
  | first :: rest => withEqualities (equality first (n + 1)) (n + 1) rest

/-- Conditions joined from the left are written one behind the other. -/
theorem tokens_foldl_and (p : Predicate) (rest : List Predicate) :
    (rest.foldl .and p).tokens = p.tokens ++ rest.flatMap fun q => .word "AND" :: q.tokens := by
  induction rest generalizing p with
  | nil => simp
  | cons q rest ih =>
      rw [List.foldl_cons, ih, List.flatMap_cons]
      simp [Predicate.tokens, Predicate.parts, Sql.Part.token]

/-- The condition that the columns of a key have given values is read as one equality for each. -/
theorem tokens_all? {key : List (String × Value)} {p : Predicate}
    (h : Predicate.all? (key.map fun e => .eq e.1 e.2) = some p) : p.tokens = keyTokens (key.map Prod.fst) := by
  cases key with
  | nil => cases h
  | cons first rest =>
      cases h
      rw [tokens_foldl_and]
      simp only [List.flatMap_map, List.map_cons, keyTokens, furtherTokens]
      rfl

theorem columns_all? {key : List (String × Value)} {p : Predicate}
    (h : Predicate.all? (key.map fun e => .eq e.1 e.2) = some p) : p.columns = key.map Prod.fst := by
  rw [Predicate.columns_of_all? h, List.flatMap_map, List.map_eq_flatMap]
  rfl

theorem params_foldl_and (p : Predicate) (rest : List Predicate) :
    (rest.foldl .and p).params = p.params ++ rest.flatMap Predicate.params :=
  Predicate.foldl_and_append (fun _ _ => rfl) p rest

theorem params_all? {key : List (String × Value)} {p : Predicate}
    (h : Predicate.all? (key.map fun e => .eq e.1 e.2) = some p) : p.params = key.map Prod.snd := by
  cases key with
  | nil => cases h
  | cons first rest =>
      cases h
      rw [params_foldl_and, List.flatMap_map, List.map_cons, List.map_eq_flatMap]
      rfl

/-- A condition on a key is read to its end. -/
theorem takes_readFilter_key {columns : List String} {key : List (String × Nat)} (hne : key ≠ [])
    (hkey : ∀ p ∈ key, columns.findIdx? (sameName · p.1) = some p.2) (hlow : key.length < maxHeight)
    (hn : n + key.length ≤ maxParameter) :
    Takes readFilter ⟨.word "WHERE" :: keyTokens (key.map Prod.fst), n⟩ ⟨[], n + key.length⟩
      fun filter => ∃ e, filter = some e ∧ resolve columns e = .ok (keyCondition n (key.map Prod.snd)) := by
  cases key with
  | nil => exact absurd rfl hne
  | cons first rest =>
      rw [List.length_cons] at hlow hn
      refine (takes_acceptWord (isWord_self (by simp [keywords]))).bind_eq ?_
      have hcondition := takes_expression_key closes_nil hkey (by omega) hn
      rw [List.append_nil] at hcondition
      exact hcondition.bind fun e he => Takes.pure ⟨e, rfl, he⟩

/-! ## Insertions -/

theorem takes_readValues {count : Nat} (hcount : count ≠ 0) (hn : n + count ≤ maxParameter) :
    Takes readValues ⟨.sign "(" :: (Token.commas (List.replicate count [.mark none]) ++ .sign ")" :: more), n⟩
      ⟨more, n + count⟩ (· = (List.range' (n + 1) count).map .parameter) := by
  have hclose : closes anyLevel (.sign ")") = true := closes_of_mem (by simp [closers])
  have hmarks : count ≤ (Token.commas (List.replicate count [.mark none])).length := by
    have hcommas : (List.replicate count [Token.mark none]).length ≤ _ :=
      length_le_commas fun item hitem => by simp [List.eq_of_mem_replicate hitem]
    rwa [List.length_replicate] at hcommas
  refine (takes_expectSign rfl).bind fun _ _ => ?_
  refine takes_fuelFor.bind_eq ?_
  refine (takes_readExprs_marks count hcount ?_ ?_ (closes_cons hclose) hn).bind_eq ?_
  · rw [List.length_append, List.length_cons]
    omega
  · intro t ht
    cases ht
    rfl
  · exact (takes_expectSign rfl).bind fun _ _ => Takes.pure rfl

/-- An insertion of one row names its columns, and takes one parameter for each of them. -/
theorem takes_readInsertion {names : List String} (hne : names ≠ []) (hn : n + names.length ≤ maxParameter) :
    Takes readInsertion ⟨.word "INTO" :: .name table :: (nameTokens names ++ .word "VALUES" :: .sign "(" ::
      (Token.commas (List.replicate names.length [.mark none]) ++ [.sign ")"])), n⟩ ⟨[], n + names.length⟩
      (· = ⟨table, some names, [(List.range' (n + 1) names.length).map .parameter]⟩) := by
  have hlength : names.length ≠ 0 := fun h => hne (List.length_eq_zero_iff.1 h)
  refine (takes_expectWord (isWord_self (by simp [keywords]))).bind fun _ _ => ?_
  refine takes_name.bind ?_
  rintro ⟨_, _⟩ rfl
  refine Takes.bind (takes_next? (t := .sign "(")) ?_
  rintro _ ⟨l, rfl, hl⟩
  have hopen : (Token.sign "(").isSign "(" = true := rfl
  simp only [hl, hopen, if_true]
  refine (takes_readNames hne).bind_eq (Takes.bind_eq (Takes.pure rfl) ?_)
  refine (takes_expectWord (isWord_self (by simp [keywords]))).bind fun _ _ => ?_
  refine takes_get.bind fun r hr => ?_
  obtain ⟨fuel, hfuel⟩ : ∃ fuel, r.tokens.length = fuel + 1 := by
    rw [Reader.length_of_front hr, List.length_cons]
    exact ⟨_, rfl⟩
  rw [hfuel, commaSeparated]
  refine Takes.bind_eq (Takes.bind_eq (takes_readValues hlength hn) ?_) (Takes.pure rfl)
  exact (takes_acceptSign_of_not (by simp)).bind_eq (Takes.pure rfl)

/-! ## Updates and deletions -/

/-- The assignments of parameters to columns, which follow those so far. -/
def parameterAssignments (n : Nat) (names : List String) : List (String × Expr) :=
  (names.zipIdx n).map fun p => (p.1, .parameter (p.2 + 1))

/-- An update assigns the next parameters to its columns, and those behind them tell the key. -/
theorem takes_readUpdate {columns names : List String} {key : List (String × Nat)} (hne : names ≠ []) (hkeys : key ≠ [])
    (hkey : ∀ p ∈ key, columns.findIdx? (sameName · p.1) = some p.2) (hlow : key.length < maxHeight)
    (hn : n + (names.length + key.length) ≤ maxParameter) :
    Takes readUpdate ⟨.name table :: .word "SET" :: (Token.commas (names.map equalityTokens) ++
      .word "WHERE" :: keyTokens (key.map Prod.fst)), n⟩ ⟨[], n + (names.length + key.length)⟩
      fun u => ∃ e, u = ⟨table, parameterAssignments n names, some e⟩ ∧
        resolve columns e = .ok (keyCondition (n + names.length) (key.map Prod.snd)) := by
  have hwhere : closes anyLevel (.word "WHERE") = true := closes_of_mem (by simp [closers])
  have hcomma : closes anyLevel (.sign ",") = true := closes_of_mem (by simp [closers])
  refine takes_name.bind ?_
  rintro ⟨_, _⟩ rfl
  refine (takes_expectWord (isWord_self (by simp [keywords]))).bind fun _ _ => ?_
  refine takes_get.bind fun r hr => ?_
  have hfuel : names.length ≤ r.tokens.length := by
    have hcommas : (names.map equalityTokens).length ≤ _ := length_le_commas fun item hitem => by
      obtain ⟨name, _, rfl⟩ := List.mem_map.1 hitem
      exact List.cons_ne_nil _ _
    rw [List.length_map] at hcommas
    rw [Reader.length_of_front hr, List.length_append]
    omega
  have hend : ∀ t, (Token.word "WHERE" :: keyTokens (key.map Prod.fst)).head? = some t → t.isSign "," = false := by
    intro t ht
    cases ht
    rfl
  have hlist := takes_commaSeparated (n := n) (do
      let named ← name
      expectSign "="
      return (named.1, ← expression)) equalityTokens (fun k s => (s, Expr.parameter (k + 1))) 1 hend hne (by
    intro s _ k hk rest hrest
    refine takes_name.bind ?_
    rintro ⟨_, _⟩ rfl
    refine (takes_expectSign rfl).bind fun _ _ => ?_
    have hcloses : Closes anyLevel rest := by
      rcases hrest with ⟨us, rfl⟩ | rfl
      · exact closes_cons hcomma
      · exact closes_cons hwhere
    exact (takes_expression_mark hcloses (by omega)).bind_eq (Takes.pure rfl)) hfuel
  rw [counted_one, Nat.one_mul] at hlist
  refine hlist.bind_eq ?_
  have hfilter := takes_readFilter_key (n := n + names.length) hkeys hkey hlow (by omega)
  rw [Nat.add_assoc] at hfilter
  refine hfilter.bind ?_
  rintro _ ⟨e, rfl, he⟩
  exact Takes.pure ⟨e, rfl, he⟩

/-- A deletion takes the parameters that tell the key. -/
theorem takes_readDeletion {columns : List String} {key : List (String × Nat)} (hkeys : key ≠ [])
    (hkey : ∀ p ∈ key, columns.findIdx? (sameName · p.1) = some p.2) (hlow : key.length < maxHeight)
    (hn : n + key.length ≤ maxParameter) :
    Takes readDeletion ⟨.word "FROM" :: .name table :: .word "WHERE" :: keyTokens (key.map Prod.fst), n⟩
      ⟨[], n + key.length⟩
      fun d => ∃ e, d = ⟨table, some e⟩ ∧ resolve columns e = .ok (keyCondition n (key.map Prod.snd)) := by
  refine (takes_expectWord (isWord_self (by simp [keywords]))).bind fun _ _ => ?_
  refine takes_name.bind ?_
  rintro ⟨_, _⟩ rfl
  refine (takes_readFilter_key hkeys hkey hlow hn).bind ?_
  rintro _ ⟨e, rfl, he⟩
  exact Takes.pure ⟨e, rfl, he⟩

/-! ## Selections -/

/-- A selection of all columns of all rows. -/
theorem takes_readSelection_all :
    Takes readSelection ⟨[.sign "*", .word "FROM", .name table], n⟩ ⟨[], n⟩
      (· = ⟨[.all], .table table, none, [], none, none⟩) := by
  have hend : ∀ (p : Token → Bool) (t : Token), ([] : List Token).head? = some t → p t = false := by simp
  refine takes_get.bind fun r hr => ?_
  rw [Reader.length_of_front hr]
  have hall : Takes readResultColumn ⟨[.sign "*", .word "FROM", .name table], n⟩ ⟨[.word "FROM", .name table], n⟩
      (· = .all) := (takes_acceptSign rfl).bind_eq (Takes.pure rfl)
  have hsource : Takes readSource ⟨[.word "FROM", .name table], n⟩ ⟨[], n⟩ (· = .table table) := by
    refine (takes_acceptWord (isWord_self (by simp [keywords]))).bind_eq ?_
    refine takes_name.bind ?_
    rintro ⟨_, _⟩ rfl
    exact (takes_acceptSign_of_not (hend _)).bind_eq (Takes.pure rfl)
  have hcolumns : Takes (commaSeparated readResultColumn 3) ⟨[.sign "*", .word "FROM", .name table], n⟩
      ⟨[.word "FROM", .name table], n⟩ (· = [.all]) := by
    refine hall.bind_eq ((takes_acceptSign_of_not ?_).bind_eq (Takes.pure rfl))
    intro t ht
    cases ht
    rfl
  -- Behind the table nothing is left, so none of the clauses is there.
  refine hcolumns.bind_eq (hsource.bind_eq ?_)
  refine Takes.bind_eq (a := none) ((takes_acceptWord_of_not (hend _)).bind_eq (Takes.pure rfl)) ?_
  refine (takes_acceptWord_of_not (hend _)).bind_eq (Takes.bind_eq (Takes.pure rfl) ?_)
  refine (takes_acceptWord_of_not (hend _)).bind_eq (Takes.bind_eq (Takes.pure rfl) ?_)
  exact (takes_acceptWord_of_not (hend _)).bind_eq (Takes.bind_eq (Takes.pure rfl) (Takes.pure rfl))

/-! ## Statements -/

/-- A change that is all of a text is its statement. -/
theorem takes_readStatement_change {w : String} {y : Nat} {P : Change → Prop}
    (hw : w = "INSERT" ∨ w = "UPDATE" ∨ w = "DELETE") (h : Takes readChange ⟨.word w :: ts, n⟩ ⟨[], y⟩ P) :
    Takes readStatement ⟨.word w :: ts, n⟩ ⟨[], y⟩ fun s => ∃ c, s = .change c ∧ P c := by
  have hkeyword : w ∈ keywords := by
    rcases hw with rfl | rfl | rfl <;> simp [keywords]
  have hnot : ∀ word, word = "SELECT" ∨ word = "CREATE" → (Token.word w).isWord word = false := by
    intro word hword
    apply not_isWord_of_ne hkeyword
    rcases hw with rfl | rfl | rfl <;> rcases hword with rfl | rfl <;> decide
  have hchange : ((Token.word w).isWord "INSERT" || (Token.word w).isWord "UPDATE" ||
      (Token.word w).isWord "DELETE") = true := by
    simp only [isWord_keyword hkeyword]
    rcases hw with rfl | rfl | rfl <;> rfl
  refine takes_next?.bind ?_
  rintro _ ⟨l, rfl, hl⟩
  refine (takes_acceptWord_of_not ?_).bind_eq ?_
  · intro t ht
    cases ht
    exact hnot _ (.inl rfl)
  refine (takes_acceptWord_of_not ?_).bind_eq ?_
  · intro t ht
    cases ht
    exact hnot _ (.inr rfl)
  simp only [hl, hchange, if_true]
  refine h.bind fun c hc => Takes.bind_eq (Takes.pure rfl) ?_
  exact takes_readEnd.bind fun _ _ => Takes.pure ⟨c, rfl, hc⟩

/-- The statement that inserts a row is read as the insertion of its values under their names. -/
theorem ofText_insert {row : Row} (hne : row.names ≠ []) (hn : row.size ≤ maxParameter) (htable : Unbroken table)
    (hnames : ∀ c ∈ row.names, Unbroken c) :
    Statement.ofText (Sql.Statement.insert table row).text = .ok (.change (.insert ⟨table, some row.names,
      [(List.range' 1 row.size).map .parameter]⟩), row.size) := by
  have hsize : row.names.length = row.size := List.length_map _
  have htakes := @takes_readInsertion 0 table row.names hne (by omega)
  rw [Nat.zero_add, hsize] at htakes
  have hchange : Takes readChange ⟨.word "INSERT" :: .word "INTO" :: .name table :: (nameTokens row.names ++
      .word "VALUES" :: .sign "(" :: (Token.commas (List.replicate row.size [.mark none]) ++ [.sign ")"])), 0⟩
      ⟨[], row.size⟩ (· = .insert ⟨table, some row.names, [(List.range' 1 row.size).map .parameter]⟩) :=
    (takes_acceptWord (isWord_self (by simp [keywords]))).bind_eq (htakes.bind_eq (Takes.pure rfl))
  have hstatement := takes_readStatement_change (.inl rfl) hchange
  have htokens : ofChars (Sql.Statement.insert table row).text.toList = .word "INSERT" :: .word "INTO" ::
      .name table :: (nameTokens row.names ++ .word "VALUES" :: .sign "(" ::
        (Token.commas (List.replicate row.size [.mark none]) ++ [.sign ")"])) := by
    have hmarks : (row.names.map fun _ => [Token.mark none]) = List.replicate row.size [.mark none] := by
      rw [List.map_const', hsize]
    rw [Sql.Statement.ofChars_insert, ← hmarks]
    simp [Sql.Command.parts, nameTokens, Sql.Part.token, Sql.Part.map_token_commas, Function.comp_def]
  rw [← htokens] at hstatement
  obtain ⟨_, htext, _, rfl, rfl⟩ :=
    Statement.ofText_of_takes (Sql.Statement.unbroken_insert htable hnames) hstatement
  exact htext

/-- The statement that updates the row of a key is read as the assignments and the condition on the key. -/
theorem ofText_update {columns : List String} {row : Row} {key : List (String × Nat)} {filter : Predicate}
    {s : Sql.Statement} (hs : Sql.Statement.update? table row (some filter) = some s) (hkeys : key ≠ [])
    (htokens : filter.tokens = keyTokens (key.map Prod.fst))
    (hkey : ∀ p ∈ key, columns.findIdx? (sameName · p.1) = some p.2) (hlow : key.length < maxHeight)
    (hn : row.size + key.length ≤ maxParameter) (htable : Unbroken table)
    (hnames : ∀ c ∈ row.names, Unbroken c) (hfilter : ∀ c ∈ filter.columns, Unbroken c) :
    ∃ e, Statement.ofText s.text = .ok (.change (.update ⟨table, parameterAssignments 0 row.names, some e⟩),
      row.size + key.length) ∧ resolve columns e = .ok (keyCondition row.size (key.map Prod.snd)) := by
  have hsize : row.names.length = row.size := List.length_map _
  have hne : row.names ≠ [] := by
    intro hnil
    have hempty : row.isEmpty = true := by
      rw [Row.isEmpty, List.isEmpty_iff]
      exact List.map_eq_nil_iff.1 hnil
    rw [Sql.Statement.update?, if_pos hempty] at hs
    cases hs
  have htakes := @takes_readUpdate 0 table columns row.names key hne hkeys hkey hlow (by omega)
  rw [Nat.zero_add, Nat.zero_add, hsize] at htakes
  have hchange : Takes readChange ⟨.word "UPDATE" :: .name table :: .word "SET" ::
      (Token.commas (row.names.map equalityTokens) ++ .word "WHERE" :: keyTokens (key.map Prod.fst)), 0⟩
      ⟨[], row.size + key.length⟩ fun c => ∃ e, c = .update ⟨table, parameterAssignments 0 row.names, some e⟩ ∧
        resolve columns e = .ok (keyCondition row.size (key.map Prod.snd)) := by
    refine (takes_acceptWord_of_not ?_).bind_eq ((takes_acceptWord (isWord_self (by simp [keywords]))).bind_eq ?_)
    · intro t ht
      cases ht
      exact not_isWord_of_ne (by simp [keywords]) (by decide)
    refine htakes.bind ?_
    rintro _ ⟨e, rfl, he⟩
    exact Takes.pure ⟨e, rfl, he⟩
  have hstatement := takes_readStatement_change (.inr (.inl rfl)) hchange
  have hall : ofChars s.text.toList = .word "UPDATE" :: .name table :: .word "SET" ::
      (Token.commas (row.names.map equalityTokens) ++ .word "WHERE" :: keyTokens (key.map Prod.fst)) := by
    rw [Sql.Statement.ofChars_update hs, ← htokens]
    simp only [Sql.Command.parts, List.map_cons, List.map_append, Sql.Part.map_token_commas, List.map_map,
      Sql.whereParts, Sql.Part.token]
    rfl
  rw [← hall] at hstatement
  obtain ⟨_, htext, _, rfl, e, rfl, he⟩ := Statement.ofText_of_takes
    (Sql.Statement.unbroken_update hs htable hnames fun p hp => by cases hp; exact hfilter) hstatement
  exact ⟨e, htext, he⟩

/-- The statement that deletes the row of a key is read as the condition on the key. -/
theorem ofText_delete {columns : List String} {key : List (String × Nat)} {filter : Predicate} (hkeys : key ≠ [])
    (htokens : filter.tokens = keyTokens (key.map Prod.fst))
    (hkey : ∀ p ∈ key, columns.findIdx? (sameName · p.1) = some p.2) (hlow : key.length < maxHeight)
    (hn : key.length ≤ maxParameter) (htable : Unbroken table) (hfilter : ∀ c ∈ filter.columns, Unbroken c) :
    ∃ e, Statement.ofText (Sql.Statement.delete table (some filter)).text =
      .ok (.change (.delete ⟨table, some e⟩), key.length) ∧
        resolve columns e = .ok (keyCondition 0 (key.map Prod.snd)) := by
  have htakes := @takes_readDeletion 0 table columns key hkeys hkey hlow (by omega)
  rw [Nat.zero_add] at htakes
  have hchange : Takes readChange ⟨.word "DELETE" :: .word "FROM" :: .name table :: .word "WHERE" ::
      keyTokens (key.map Prod.fst), 0⟩ ⟨[], key.length⟩ fun c => ∃ e, c = .delete ⟨table, some e⟩ ∧
        resolve columns e = .ok (keyCondition 0 (key.map Prod.snd)) := by
    have hword : ∀ word, "DELETE" ≠ word → ∀ t, (Token.word "DELETE" :: .word "FROM" :: .name table ::
        .word "WHERE" :: keyTokens (key.map Prod.fst)).head? = some t → t.isWord word = false := by
      intro word hne t ht
      cases ht
      exact not_isWord_of_ne (by simp [keywords]) hne
    refine (takes_acceptWord_of_not (hword _ (by decide))).bind_eq ?_
    refine (takes_acceptWord_of_not (hword _ (by decide))).bind_eq ?_
    refine (takes_expectWord (isWord_self (by simp [keywords]))).bind fun _ _ => ?_
    refine htakes.bind ?_
    rintro _ ⟨e, rfl, he⟩
    exact Takes.pure ⟨e, rfl, he⟩
  have hstatement := takes_readStatement_change (.inr (.inr rfl)) hchange
  have hall : ofChars (Sql.Statement.delete table (some filter)).text.toList = .word "DELETE" :: .word "FROM" ::
      .name table :: .word "WHERE" :: keyTokens (key.map Prod.fst) := by
    rw [Sql.Statement.ofChars_delete, ← htokens]
    rfl
  rw [← hall] at hstatement
  obtain ⟨_, htext, _, rfl, e, rfl, he⟩ := Statement.ofText_of_takes
    (Sql.Statement.unbroken_delete htable fun p hp => by cases hp; exact hfilter) hstatement
  exact ⟨e, htext, he⟩

/-- The statement that selects all records is read as the selection of all columns of all rows. -/
theorem ofText_select_all (htable : Unbroken table) :
    Statement.ofText (Sql.Statement.select table .empty).text =
      .ok (.select ⟨[.all], .table table, none, [], none, none⟩, 0) := by
  have hstatement : Takes readStatement ⟨[.word "SELECT", .sign "*", .word "FROM", .name table], 0⟩ ⟨[], 0⟩
      (· = .select ⟨[.all], .table table, none, [], none, none⟩) := by
    refine takes_next?.bind ?_
    rintro _ ⟨l, rfl, hl⟩
    refine (takes_acceptWord (isWord_self (by simp [keywords]))).bind_eq ?_
    refine takes_readSelection_all.bind_eq (Takes.bind_eq (Takes.pure rfl) ?_)
    exact takes_readEnd.bind fun _ _ => Takes.pure rfl
  have hall : ofChars (Sql.Statement.select table .empty).text.toList =
      [.word "SELECT", .sign "*", .word "FROM", .name table] := by
    rw [Sql.Statement.ofChars_select]
    rfl
  rw [← hall] at hstatement
  obtain ⟨_, htext, rfl⟩ := Statement.ofText_of_takes (Sql.Statement.unbroken_select_all htable) hstatement
  exact htext

end RecordTables.Engine
