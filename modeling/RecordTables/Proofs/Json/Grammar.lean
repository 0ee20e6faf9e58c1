import RecordTables.Proofs.Json.RoundTrip
import RecordTables.Proofs.Json.Tokens

/-!
# The texts of documents

`DocumentText` says which texts are those of a document: the words, the numerals and strings of `Tokens`, and arrays
and objects with blanks between their parts.  A document is read from its texts with blanks around them, and from
nothing else.
-/

namespace RecordTables.Json

open RecordTables.Text (Symbol)

/-! ## The grammar -/

/-- Blanks alone. -/
def Blanks (text : List Symbol) : Prop := ∀ s ∈ text, isBlank s = true

/-- The text of a string, with its quotes. -/
inductive StringText : List Symbol → List Piece → Prop
  | intro {text : List Symbol} {pieces : List Piece} (h : PiecesText text pieces) :
      StringText (.char '"' :: (text ++ [.char '"'])) pieces

/-- A key with the colon behind it. -/
inductive KeyText : List Symbol → List Piece → Prop
  | intro {before text after : List Symbol} {key : List Piece} (hbefore : Blanks before) (h : StringText text key)
      (hafter : Blanks after) : KeyText (before ++ (text ++ (after ++ [.char ':']))) key

mutual

/-- The texts of a document, from its first symbol to its last. -/
inductive DocumentText : List Symbol → Document → Prop
  | null : DocumentText (symbols ['n', 'u', 'l', 'l']) .null
  | bool (b : Bool) : DocumentText (symbols (if b then ['t', 'r', 'u', 'e'] else ['f', 'a', 'l', 's', 'e'])) (.bool b)
  | number {cs : List Char} {n : Number} (h : NumberText cs n) : DocumentText (symbols cs) (.number n)
  | string {text : List Symbol} {pieces : List Piece} (h : StringText text pieces) :
      DocumentText text (.string pieces)
  | emptyArray {blanks : List Symbol} (hblanks : Blanks blanks) :
      DocumentText (.char '[' :: (blanks ++ [.char ']'])) (.array [])
  | array {blanks text more : List Symbol} {first : Document} {items : List Document} (hblanks : Blanks blanks)
      (hfirst : DocumentText text first) (hitems : ItemsText more items) :
      DocumentText (.char '[' :: (blanks ++ (text ++ more))) (.array (first :: items))
  | emptyObject {blanks : List Symbol} (hblanks : Blanks blanks) :
      DocumentText (.char '\x7b' :: (blanks ++ [.char '\x7d'])) (.object [])
  | object {front blanks text more : List Symbol} {key : List Piece} {value : Document}
      {entries : List (List Piece × Document)} (hkey : KeyText front key) (hblanks : Blanks blanks)
      (hvalue : DocumentText text value) (hentries : EntriesText more entries) :
      DocumentText (.char '\x7b' :: (front ++ (blanks ++ (text ++ more)))) (.object ((key, value) :: entries))

/-- The items behind the first one, and the end of the array. -/
inductive ItemsText : List Symbol → List Document → Prop
  | close {blanks : List Symbol} (hblanks : Blanks blanks) : ItemsText (blanks ++ [.char ']']) []
  | next {before after text more : List Symbol} {item : Document} {items : List Document} (hbefore : Blanks before)
      (hafter : Blanks after) (hitem : DocumentText text item) (hitems : ItemsText more items) :
      ItemsText (before ++ .char ',' :: (after ++ (text ++ more))) (item :: items)

/-- The entries behind the first one, and the end of the object. -/
inductive EntriesText : List Symbol → List (List Piece × Document) → Prop
  | close {blanks : List Symbol} (hblanks : Blanks blanks) : EntriesText (blanks ++ [.char '\x7d']) []
  | next {before front after text more : List Symbol} {key : List Piece} {value : Document}
      {entries : List (List Piece × Document)} (hbefore : Blanks before) (hkey : KeyText front key)
      (hafter : Blanks after) (hvalue : DocumentText text value) (hentries : EntriesText more entries) :
      EntriesText (before ++ .char ',' :: (front ++ (after ++ (text ++ more)))) ((key, value) :: entries)

end

/-! ## Blanks -/

theorem skipBlanks_append {blanks : List Symbol} (h : Blanks blanks) (rest : List Symbol) :
    skipBlanks (blanks ++ rest) = skipBlanks rest :=
  List.dropWhile_append_of_pos h

/-- The blanks that are skipped, in front of what is left. -/
theorem exists_blanks (input : List Symbol) : ∃ blanks, Blanks blanks ∧ input = blanks ++ skipBlanks input :=
  ⟨input.takeWhile isBlank, List.all_eq_true.1 (List.all_takeWhile ..), List.takeWhile_append_dropWhile.symm⟩

theorem blanks_iff {text : List Symbol} : Blanks text ↔ skipBlanks text = [] := by
  constructor
  · intro h
    have hskip := skipBlanks_append h []
    rwa [List.append_nil] at hskip
  · intro h
    obtain ⟨blanks, hblanks, heq⟩ := exists_blanks text
    rw [h, List.append_nil] at heq
    exact heq ▸ hblanks

theorem readDocument_blanks {blanks : List Symbol} (h : Blanks blanks) (fuel : Nat) (rest : List Symbol) :
    readDocument? fuel (blanks ++ rest) = readDocument? fuel rest := by
  cases fuel with
  | zero => rfl
  | succ fuel => rw [readDocument?, readDocument?, skipBlanks_append h]

/-! ## Keys -/

/-- A key opens with its quote. -/
theorem KeyText.opens {front : List Symbol} {key : List Piece} (h : KeyText front key) (rest : List Symbol) :
    ∃ tail, skipBlanks (front ++ rest) = .char '"' :: tail := by
  cases h with
  | intro hbefore hstring =>
      cases hstring
      rw [List.append_assoc, skipBlanks_append hbefore]
      exact ⟨_, rfl⟩

theorem readKey_of_text {front : List Symbol} {key : List Piece} (h : KeyText front key) (rest : List Symbol) :
    readKey? (front ++ rest) = some (key, rest) := by
  cases h with
  | @intro before string after _ hbefore hstring hafter =>
      cases hstring with
      | @intro text _ h =>
          have hopen : skipBlanks (before ++ (.char '"' :: (text ++ [.char '"']) ++ (after ++ [.char ':'])) ++ rest) =
              .char '"' :: (text ++ .char '"' :: (after ++ .char ':' :: rest)) := by
            rw [List.append_assoc, skipBlanks_append hbefore]
            simp only [List.cons_append, List.append_assoc, List.nil_append]
            rfl
          have hcolon : skipBlanks (after ++ .char ':' :: rest) = .char ':' :: rest := skipBlanks_append hafter _
          rw [readKey?, hopen]
          simp only [readPieces_of_text h, hcolon, Option.bind_eq_bind, Option.bind_some]

theorem keyText_of_read {input rest : List Symbol} {key : List Piece} (h : readKey? input = some (key, rest)) :
    ∃ front, input = front ++ rest ∧ KeyText front key := by
  obtain ⟨before, hbefore, hinput⟩ := exists_blanks input
  unfold readKey? at h
  split at h
  · rename_i more heq
    obtain ⟨⟨pieces, tail⟩, hpieces, hend⟩ := Option.bind_eq_some_iff.1 h
    obtain ⟨text, rfl, htext⟩ := piecesText_of_read hpieces
    obtain ⟨after, hafter, htail⟩ := exists_blanks tail
    dsimp only at hend
    split at hend
    · rename_i hcolon
      cases hend
      refine ⟨_, ?_, .intro hbefore (.intro htext) hafter⟩
      rw [hinput, heq, htail, hcolon]
      simp
    · cases hend
  · cases h

/-! ## Reading what the grammar allows -/

/-- What may follow an item or an entry. -/
def Follows (rest : List Symbol) : Prop :=
  ∀ s, rest.head? = some s → isBlank s = true ∨ s = .char ',' ∨ s = .char ']' ∨ s = .char '\x7d'

theorem Follows.endsNumeral {rest : List Symbol} (h : Follows rest) : EndsNumeral rest := by
  have hchar : ∀ c tail, rest = .char c :: tail → c ∈ [' ', '\t', '\n', '\r', ',', ']', '\x7d'] := by
    rintro c tail rfl
    rcases h _ rfl with hblank | hc | hc | hc
    · simp only [isBlank, Bool.or_eq_true, beq_iff_eq] at hblank
      rcases hblank with ((rfl | rfl) | rfl) | rfl <;> decide
    all_goals
      cases hc
      decide
  have hall : ∀ c ∈ [' ', '\t', '\n', '\r', ',', ']', '\x7d'],
      c.isDigit = false ∧ c ≠ '.' ∧ c ≠ 'e' ∧ c ≠ 'E' := by
    simp only [List.forall_mem_cons]
    exact ⟨by decide, by decide, by decide, by decide, by decide, by decide, by decide, List.forall_mem_nil _⟩
  constructor
  case digit => exact fun c tail heq => (hall c (hchar c tail heq)).1
  case point => exact fun tail heq => (hall _ (hchar _ tail heq)).2.1 rfl
  case mark =>
    intro c tail heq hmark
    obtain ⟨-, -, he, hE⟩ := hall c (hchar c tail heq)
    exact hmark.elim he hE

theorem follows_blanks {blanks : List Symbol} (h : Blanks blanks) {c : Char} (hc : c ∈ [',', ']', '\x7d'])
    (rest : List Symbol) : Follows (blanks ++ .char c :: rest) := by
  intro s hs
  cases blanks with
  | nil =>
      cases hs
      simp only [List.mem_cons, List.not_mem_nil, or_false] at hc
      rcases hc with rfl | rfl | rfl
      · exact .inr (.inl rfl)
      · exact .inr (.inr (.inl rfl))
      · exact .inr (.inr (.inr rfl))
  | cons b blanks =>
      cases hs
      exact .inl (h _ (List.mem_cons_self ..))

theorem ItemsText.follows {text : List Symbol} {items : List Document} (h : ItemsText text items)
    (rest : List Symbol) : Follows (text ++ rest) := by
  cases h with
  | close hblanks =>
      rw [List.append_assoc]
      exact follows_blanks hblanks (by decide) rest
  | next hbefore =>
      rw [List.append_assoc]
      exact follows_blanks hbefore (by decide) _

theorem EntriesText.follows {text : List Symbol} {entries : List (List Piece × Document)}
    (h : EntriesText text entries) (rest : List Symbol) : Follows (text ++ rest) := by
  cases h with
  | close hblanks =>
      rw [List.append_assoc]
      exact follows_blanks hblanks (by decide) rest
  | next hbefore =>
      rw [List.append_assoc]
      exact follows_blanks hbefore (by decide) _

/-- A numeral starts with a minus sign or with a digit. -/
theorem NumberText.front {cs : List Char} {n : Number} (h : NumberText cs n) :
    ∃ c tail, cs = c :: tail ∧ (c = '-' ∨ c.isDigit = true) := by
  cases h with
  | @intro negative whole _ _ _ _ hwhole =>
      cases negative with
      | true => exact ⟨_, _, rfl, .inl rfl⟩
      | false =>
          cases whole with
          | nil => exact absurd rfl hwhole.1
          | cons c whole => exact ⟨c, _, rfl, .inr (hwhole.2 c (List.mem_cons_self ..))⟩

/-- A document starts with a character that starts documents. -/
theorem DocumentText.front {text : List Symbol} {d : Document} (h : DocumentText text d) :
    ∃ c tail, text = .char c :: tail ∧ startsDocument c = true := by
  cases h with
  | number h =>
      obtain ⟨c, tail, rfl, hc⟩ := h.front
      exact ⟨c, symbols tail, rfl, startsDocument_of_numeral hc⟩
  | string h =>
      cases h
      exact ⟨_, _, rfl, by decide⟩
  | bool b => cases b <;> exact ⟨_, _, rfl, by decide⟩
  | _ => exact ⟨_, _, rfl, by decide⟩

/-- A number is read as the number of its text. -/
theorem readDocument_of_numberText {fuel : Nat} {cs : List Char} {n : Number} (h : NumberText cs n)
    {rest : List Symbol} (hrest : EndsNumeral rest) :
    readDocument? (fuel + 1) (symbols cs ++ rest) = some (.number n, rest) := by
  have hnumber := readNumber_of_text h hrest
  obtain ⟨c, tail, rfl, hc⟩ := h.front
  rw [symbols_cons, List.cons_append] at hnumber ⊢
  rw [readDocument_default (startsDocument_of_numeral hc) (not_mem_of_numeral hc), hnumber]
  rfl

/-- The fuel is enough for every document text of at most as many symbols. -/
def TakesDocuments (fuel : Nat) : Prop :=
  ∀ (text : List Symbol) (d : Document) (rest : List Symbol), DocumentText text d → Follows rest →
    text.length ≤ fuel → readDocument? fuel (text ++ rest) = some (d, rest)

/-- The same for the items of an array behind the first. -/
def TakesItems (fuel : Nat) : Prop :=
  ∀ (text : List Symbol) (items : List Document) (rest : List Symbol), ItemsText text items → text.length ≤ fuel →
    readItems? fuel (text ++ rest) = some (items, rest)

/-- The same for the entries of an object behind the first. -/
def TakesEntries (fuel : Nat) : Prop :=
  ∀ (text : List Symbol) (entries : List (List Piece × Document)) (rest : List Symbol), EntriesText text entries →
    text.length ≤ fuel → readEntries? fuel (text ++ rest) = some (entries, rest)

variable {fuel : Nat}

theorem takesItems_succ (hd : TakesDocuments fuel) (hi : TakesItems fuel) : TakesItems (fuel + 1) := by
  intro text items rest h hfuel
  cases h with
  | @close blanks hblanks =>
      rw [List.append_assoc, readItems?, skipBlanks_append hblanks]
      rfl
  | @next before after inner more item items hbefore hafter hitem hitems =>
      simp only [List.length_append, List.length_cons] at hfuel
      -- The comma takes one unit of fuel, so the item and the other items may take the rest.
      have hread := hd inner item (more ++ rest) hitem (hitems.follows rest) (by omega)
      have hmore := hi more items rest hitems (by omega)
      rw [List.append_assoc, readItems?, skipBlanks_append hbefore, List.cons_append, skipBlanks_sign (by decide),
        List.append_assoc, List.append_assoc]
      simp only [readDocument_blanks hafter, hread, hmore, Option.bind_eq_bind, Option.bind_some]

theorem takesEntries_succ (hd : TakesDocuments fuel) (he : TakesEntries fuel) : TakesEntries (fuel + 1) := by
  intro text entries rest h hfuel
  cases h with
  | @close blanks hblanks =>
      rw [List.append_assoc, readEntries?, skipBlanks_append hblanks]
      rfl
  | @next before front after inner more key value entries hbefore hkey hafter hvalue hentries =>
      simp only [List.length_append, List.length_cons] at hfuel
      have hread := hd inner value (more ++ rest) hvalue (hentries.follows rest) (by omega)
      have hmore := he more entries rest hentries (by omega)
      rw [List.append_assoc, readEntries?, skipBlanks_append hbefore, List.cons_append, skipBlanks_sign (by decide),
        List.append_assoc, List.append_assoc, List.append_assoc]
      simp only [readKey_of_text hkey, readDocument_blanks hafter, hread, hmore, Option.bind_eq_bind, Option.bind_some]

theorem takesDocuments_succ (hd : TakesDocuments fuel) (hi : TakesItems fuel) (he : TakesEntries fuel) :
    TakesDocuments (fuel + 1) := by
  intro text d rest h hrest hfuel
  cases h with
  | null => rfl
  | bool b => cases b <;> rfl
  | number h => exact readDocument_of_numberText h hrest.endsNumeral
  | @string _ pieces h =>
      cases h with
      | @intro inner _ h =>
          rw [readDocument?, List.cons_append, skipBlanks_of_starts (by decide), List.append_assoc]
          have hread : readPieces? (inner ++ ([.char '"'] ++ rest)) = some (pieces, rest) := readPieces_of_text h rest
          simp only [hread, Option.map_some]
  | @emptyArray blanks hblanks =>
      have hclose : skipBlanks (blanks ++ [.char ']'] ++ rest) = .char ']' :: rest := by
        rw [List.append_assoc, skipBlanks_append hblanks]
        rfl
      rw [readDocument?, List.cons_append, skipBlanks_of_starts (by decide)]
      simp only [hclose]
  | @array blanks inner more first items hblanks hfirst hitems =>
      simp only [List.length_append, List.length_cons] at hfuel
      have hread := hd inner first (more ++ rest) hfirst (hitems.follows rest) (by omega)
      have hmore := hi more items rest hitems (by omega)
      rw [← readDocument_blanks hblanks] at hread
      rw [List.cons_append, List.append_assoc, List.append_assoc]
      refine readDocument_array (fun tail => ?_) hread hmore
      -- The reader looks at the first character, to tell an item from the end of the array.
      obtain ⟨c, cs, rfl, hstart⟩ := hfirst.front
      rw [skipBlanks_append hblanks]
      exact not_bracket_of_starts hstart _ tail
  | @emptyObject blanks hblanks =>
      have hclose : skipBlanks (blanks ++ [.char '\x7d'] ++ rest) = .char '\x7d' :: rest := by
        rw [List.append_assoc, skipBlanks_append hblanks]
        rfl
      rw [readDocument?, List.cons_append, skipBlanks_of_starts (by decide)]
      simp only [hclose]
  | @object front blanks inner more key value entries hkey hblanks hvalue hentries =>
      simp only [List.length_append, List.length_cons] at hfuel
      have hread := hd inner value (more ++ rest) hvalue (hentries.follows rest) (by omega)
      have hmore := he more entries rest hentries (by omega)
      rw [← readDocument_blanks hblanks] at hread
      rw [List.cons_append, List.append_assoc, List.append_assoc, List.append_assoc]
      refine readDocument_object (fun tail => ?_) (readKey_of_text hkey _) hread hmore
      obtain ⟨tail', hopen⟩ := hkey.opens (blanks ++ (inner ++ (more ++ rest)))
      rw [hopen]
      intro heq
      cases heq

/-- Whatever the grammar allows is read, and the reading leaves off where the text ends. -/
theorem readDocument_of_text (fuel : Nat) : TakesDocuments fuel ∧ TakesItems fuel ∧ TakesEntries fuel := by
  induction fuel with
  | zero =>
      -- Each of the three has a text of one symbol at least.
      refine ⟨?_, ?_, ?_⟩
      · intro text d rest h _ hfuel
        obtain ⟨c, tail, rfl, -⟩ := h.front
        cases hfuel
      · intro text items rest h hfuel
        cases h <;> simp at hfuel
      · intro text entries rest h hfuel
        cases h <;> simp at hfuel
  | succ fuel ih =>
      obtain ⟨hd, hi, he⟩ := ih
      exact ⟨takesDocuments_succ hd hi he, takesItems_succ hd hi, takesEntries_succ hd he⟩

/-! ## The grammar of what is read -/

/-- A document that is read is read from one of its texts, with blanks in front. -/
def FindsDocuments (fuel : Nat) : Prop :=
  ∀ (input : List Symbol) (d : Document) (rest : List Symbol), readDocument? fuel input = some (d, rest) →
    ∃ blanks text, Blanks blanks ∧ DocumentText text d ∧ input = blanks ++ (text ++ rest)

def FindsItems (fuel : Nat) : Prop :=
  ∀ (input : List Symbol) (items : List Document) (rest : List Symbol), readItems? fuel input = some (items, rest) →
    ∃ text, ItemsText text items ∧ input = text ++ rest

def FindsEntries (fuel : Nat) : Prop :=
  ∀ (input : List Symbol) (entries : List (List Piece × Document)) (rest : List Symbol),
    readEntries? fuel input = some (entries, rest) → ∃ text, EntriesText text entries ∧ input = text ++ rest

theorem findsItems_succ (hd : FindsDocuments fuel) (hi : FindsItems fuel) : FindsItems (fuel + 1) := by
  intro input items rest h
  obtain ⟨before, hbefore, hinput⟩ := exists_blanks input
  rw [readItems?] at h
  split at h
  · rename_i heq
    cases h
    refine ⟨before ++ [.char ']'], .close hbefore, ?_⟩
    rw [hinput, heq]
    simp
  · rename_i more heq
    obtain ⟨⟨item, tail⟩, hitem, h⟩ := Option.bind_eq_some_iff.1 h
    obtain ⟨⟨others, tail'⟩, hothers, h⟩ := Option.bind_eq_some_iff.1 h
    cases h
    obtain ⟨after, text, hafter, htext, rfl⟩ := hd _ _ _ hitem
    obtain ⟨texts, htexts, rfl⟩ := hi _ _ _ hothers
    refine ⟨_, .next hbefore hafter htext htexts, ?_⟩
    rw [hinput, heq]
    simp
  · cases h

theorem findsEntries_succ (hd : FindsDocuments fuel) (he : FindsEntries fuel) : FindsEntries (fuel + 1) := by
  intro input entries rest h
  obtain ⟨before, hbefore, hinput⟩ := exists_blanks input
  rw [readEntries?] at h
  split at h
  · rename_i heq
    cases h
    refine ⟨before ++ [.char '\x7d'], .close hbefore, ?_⟩
    rw [hinput, heq]
    simp
  · rename_i more heq
    obtain ⟨⟨key, tail⟩, hkey, h⟩ := Option.bind_eq_some_iff.1 h
    obtain ⟨⟨value, tail'⟩, hvalue, h⟩ := Option.bind_eq_some_iff.1 h
    obtain ⟨⟨others, tail''⟩, hothers, h⟩ := Option.bind_eq_some_iff.1 h
    cases h
    obtain ⟨front, rfl, hfront⟩ := keyText_of_read hkey
    obtain ⟨after, text, hafter, htext, rfl⟩ := hd _ _ _ hvalue
    obtain ⟨texts, htexts, rfl⟩ := he _ _ _ hothers
    refine ⟨_, .next hbefore hfront hafter htext htexts, ?_⟩
    rw [hinput, heq]
    simp
  · cases h

/-- A word that is expected stands in front of the rest. -/
theorem eq_of_expect {word : List Char} {input rest : List Symbol} (h : expect? word input = some rest) :
    input = symbols word ++ rest := by
  fun_induction expect? word input with
  | case1 input => exact Option.some.inj h
  | case2 c word tail ih => rw [symbols_cons, List.cons_append, ← ih h]
  | case3 => cases h
  | case4 => cases h

theorem findsDocuments_succ (hd : FindsDocuments fuel) (hi : FindsItems fuel) (he : FindsEntries fuel) :
    FindsDocuments (fuel + 1) := by
  intro input d rest h
  obtain ⟨blanks, hblanks, hinput⟩ := exists_blanks input
  -- It is enough to find the text behind the blanks.
  suffices ∃ text, DocumentText text d ∧ skipBlanks input = text ++ rest by
    obtain ⟨text, htext, heq⟩ := this
    exact ⟨blanks, text, hblanks, htext, by rw [← heq, ← hinput]⟩
  rw [readDocument?] at h
  split at h
  · rename_i heq
    obtain ⟨tail, hword, h⟩ := Option.map_eq_some_iff.1 h
    cases h
    exact ⟨_, .null, by rw [heq, eq_of_expect hword]; rfl⟩
  · rename_i heq
    obtain ⟨tail, hword, h⟩ := Option.map_eq_some_iff.1 h
    cases h
    exact ⟨_, .bool true, by rw [heq, eq_of_expect hword]; rfl⟩
  · rename_i heq
    obtain ⟨tail, hword, h⟩ := Option.map_eq_some_iff.1 h
    cases h
    exact ⟨_, .bool false, by rw [heq, eq_of_expect hword]; rfl⟩
  · rename_i heq
    obtain ⟨⟨pieces, tail⟩, hpieces, h⟩ := Option.map_eq_some_iff.1 h
    cases h
    obtain ⟨text, rfl, htext⟩ := piecesText_of_read hpieces
    exact ⟨_, .string (.intro htext), by rw [heq]; simp⟩
  · rename_i more heq
    obtain ⟨inside, hinside, hmore⟩ := exists_blanks more
    split at h
    · rename_i hclose
      cases h
      exact ⟨_, .emptyArray hinside, by rw [heq, hmore, hclose]; simp⟩
    · obtain ⟨⟨first, tail⟩, hfirst, h⟩ := Option.bind_eq_some_iff.1 h
      obtain ⟨⟨items, tail'⟩, hitems, h⟩ := Option.bind_eq_some_iff.1 h
      cases h
      obtain ⟨before, text, hbefore, htext, rfl⟩ := hd _ _ _ hfirst
      obtain ⟨texts, htexts, rfl⟩ := hi _ _ _ hitems
      exact ⟨_, .array hbefore htext htexts, by rw [heq]; simp⟩
  · rename_i more heq
    obtain ⟨inside, hinside, hmore⟩ := exists_blanks more
    split at h
    · rename_i hclose
      cases h
      exact ⟨_, .emptyObject hinside, by rw [heq, hmore, hclose]; simp⟩
    · obtain ⟨⟨key, tail⟩, hkey, h⟩ := Option.bind_eq_some_iff.1 h
      obtain ⟨⟨value, tail'⟩, hvalue, h⟩ := Option.bind_eq_some_iff.1 h
      obtain ⟨⟨entries, tail''⟩, hentries, h⟩ := Option.bind_eq_some_iff.1 h
      cases h
      obtain ⟨front, rfl, hfront⟩ := keyText_of_read hkey
      obtain ⟨before, text, hbefore, htext, rfl⟩ := hd _ _ _ hvalue
      obtain ⟨texts, htexts, rfl⟩ := he _ _ _ hentries
      exact ⟨_, .object hfront hbefore htext htexts, by rw [heq]; simp⟩
  · obtain ⟨⟨n, tail⟩, hnumber, h⟩ := Option.map_eq_some_iff.1 h
    cases h
    obtain ⟨cs, heq, hcs⟩ := numberText_of_read hnumber
    exact ⟨_, .number hcs, heq⟩

/-- Whatever is read is a text that the grammar allows. -/
theorem text_of_readDocument (fuel : Nat) : FindsDocuments fuel ∧ FindsItems fuel ∧ FindsEntries fuel := by
  induction fuel with
  | zero =>
      refine ⟨?_, ?_, ?_⟩
      all_goals
        intro _ _ _ h
        cases h
  | succ fuel ih =>
      obtain ⟨hd, hi, he⟩ := ih
      exact ⟨findsDocuments_succ hd hi he, findsItems_succ hd hi, findsEntries_succ hd he⟩

/-- **The input of a document is one of its texts with blanks around it.** -/
theorem parse_eq_some_iff {input : List Symbol} {d : Document} :
    Document.parse? input = some d ↔
      ∃ before text after, input = before ++ (text ++ after) ∧ Blanks before ∧ Blanks after ∧ DocumentText text d := by
  constructor
  · intro h
    obtain ⟨⟨d', rest⟩, hread, h⟩ := Option.bind_eq_some_iff.1 h
    obtain ⟨_, hrest, h⟩ := Option.bind_eq_some_iff.1 h
    cases h
    obtain ⟨before, text, hbefore, htext, hinput⟩ := (text_of_readDocument _).1 _ _ _ hread
    have hafter : Blanks rest := blanks_iff.2 (List.isEmpty_iff.1 (of_guard hrest))
    exact ⟨before, text, rest, hinput, hbefore, hafter, htext⟩
  · rintro ⟨before, text, after, rfl, hbefore, hafter, htext⟩
    have hfollows : Follows after := by
      intro s hs
      exact .inl (hafter s (List.mem_of_mem_head? hs))
    have hlength : text.length ≤ (before ++ (text ++ after)).length + 1 := by
      simp only [List.length_append]
      omega
    have hread := (readDocument_of_text _).1 text d after htext hfollows hlength
    rw [← readDocument_blanks hbefore] at hread
    rw [Document.parse?, hread]
    show (guard ((skipBlanks after).isEmpty = true) : Option Unit).bind _ = _
    rw [blanks_iff.1 hafter]
    rfl

end RecordTables.Json
