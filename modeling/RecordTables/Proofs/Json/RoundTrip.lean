import RecordTables.Proofs.Json.Numerals

/-!
# Documents read back

A document whose strings are texts is written so that reading gives the document back, but for its fractions: what a
fraction reads as is only near to it.  `Document.reread` is what comes back, and it is the document itself if all of its
numbers are whole.  The reading leaves off exactly where the document ends, if what follows is nothing or what may
follow an item or an entry; an array and an object end by themselves.
-/

namespace RecordTables.Json

open RecordTables.Text (Symbol)

/-- The number that the text of a number reads as. -/
def Number.reread (n : Number) : Number := ((readNumber? (symbols n.text.toList)).map Prod.fst).getD .huge

/-- A number whose text is a numeral, so that reading leaves off behind it. -/
structure Number.Printed (n : Number) : Prop where
  front : ∃ c cs, n.text.toList = c :: cs ∧ (c = '-' ∨ c.isDigit = true)
  reads : ∀ rest, Stops rest → readNumber? (symbols n.text.toList ++ rest) = some (n.reread, rest)

mutual

/-- The document that the text of a document reads as. -/
def Document.reread : Document → Document
  | .null => .null
  | .bool b => .bool b
  | .number n => .number n.reread
  | .string pieces => .string pieces
  | .array items => .array (rereadItems items)
  | .object entries => .object (rereadEntries entries)

def rereadItems : List Document → List Document
  | [] => []
  | d :: rest => d.reread :: rereadItems rest

def rereadEntries : List (List Piece × Document) → List (List Piece × Document)
  | [] => []
  | (key, d) :: rest => (key, d.reread) :: rereadEntries rest

end

mutual

/-- The documents whose strings are texts, and whose numbers are all of one kind. -/
def Document.Spells (P : Number → Prop) : Document → Prop
  | .null => True
  | .bool _ => True
  | .number n => P n
  | .string pieces => ∃ s : String, pieces = Piece.ofString s
  | .array items => SpellsItems P items
  | .object entries => SpellsEntries P entries

def SpellsItems (P : Number → Prop) : List Document → Prop
  | [] => True
  | d :: rest => d.Spells P ∧ SpellsItems P rest

def SpellsEntries (P : Number → Prop) : List (List Piece × Document) → Prop
  | [] => True
  | (key, d) :: rest => (∃ s : String, key = Piece.ofString s) ∧ d.Spells P ∧ SpellsEntries P rest

end

section

variable {P Q : Number → Prop}

mutual

theorem Document.Spells.mono (hPQ : ∀ n, P n → Q n) : ∀ {d : Document}, d.Spells P → d.Spells Q
  | .null, _ => by rw [Document.Spells]; trivial
  | .bool _, _ => by rw [Document.Spells]; trivial
  | .number _, h => by
      rw [Document.Spells] at *
      exact hPQ _ h
  | .string _, h => by
      rw [Document.Spells] at *
      exact h
  | .array _, h => by
      rw [Document.Spells] at *
      exact spellsItems_mono hPQ h
  | .object _, h => by
      rw [Document.Spells] at *
      exact spellsEntries_mono hPQ h

theorem spellsItems_mono (hPQ : ∀ n, P n → Q n) : ∀ {items : List Document}, SpellsItems P items → SpellsItems Q items
  | [], _ => by rw [SpellsItems]; trivial
  | _ :: _, h => by
      rw [SpellsItems] at *
      exact ⟨h.1.mono hPQ, spellsItems_mono hPQ h.2⟩

theorem spellsEntries_mono (hPQ : ∀ n, P n → Q n) :
    ∀ {entries : List (List Piece × Document)}, SpellsEntries P entries → SpellsEntries Q entries
  | [], _ => by rw [SpellsEntries]; trivial
  | (_, _) :: _, h => by
      rw [SpellsEntries] at *
      exact ⟨h.1, h.2.1.mono hPQ, spellsEntries_mono hPQ h.2.2⟩

end

theorem spellsItems_of_forall {docs : List Document} (h : ∀ doc ∈ docs, doc.Spells P) : SpellsItems P docs := by
  induction docs with
  | nil => rw [SpellsItems]; trivial
  | cons doc docs ih =>
      rw [SpellsItems]
      exact ⟨h doc (List.mem_cons_self ..), ih fun d hd => h d (List.mem_cons_of_mem _ hd)⟩

end

/-- A number without a fraction. -/
def Number.IsWhole (n : Number) : Prop := ∃ (negative : Bool) (k : Nat), n = .whole negative k

/-- The documents that are written for data without floats: whole numbers, and texts as strings. -/
def Document.Written (d : Document) : Prop := d.Spells Number.IsWhole

/-- The documents whose numbers have numerals. -/
def Document.Printed (d : Document) : Prop := d.Spells Number.Printed

/-! ## Numbers -/

/-- The parts of a whole number. -/
def Parts.ofNat (n : Nat) : Parts := ⟨Nat.toDigits 10 n, none, none⟩

theorem Parts.wellFormed_ofNat (n : Nat) : (Parts.ofNat n).WellFormed where
  digits := all_isDigit_toDigits n
  nonempty := Nat.toDigits_ne_nil
  lead := length_toDigits_eq_one_or n
  fraction digits h := by cases h

theorem text_whole (negative : Bool) (n : Nat) :
    (Number.whole negative n).text.toList = (if negative then ['-'] else []) ++ (Parts.ofNat n).chars := by
  cases negative <;> simp [Number.text, Parts.ofNat, Parts.chars, Parts.fractionChars, Parts.exponentChars]

theorem readNumber_whole (negative : Bool) (n : Nat) {rest : List Symbol} (hrest : Stops rest) :
    readNumber? (symbols (Number.whole negative n).text.toList ++ rest) = some (.whole negative n, rest) := by
  rw [text_whole, Parts.readNumber_chars (Parts.wellFormed_ofNat n) negative hrest]
  simp [Parts.ofNat, numberOf]

/-- A number whose text is a numeral is printed. -/
theorem Number.printed_of_parts {n : Number} {negative : Bool} {p : Parts} (h : p.WellFormed)
    (htext : n.text.toList = (if negative then ['-'] else []) ++ p.chars) :
    n.Printed ∧ n.reread = numberOf negative p.whole p.fraction p.exponent := by
  have hread : n.reread = numberOf negative p.whole p.fraction p.exponent := by
    have h := Parts.readNumber_chars h negative stops_nil
    rw [List.append_nil] at h
    rw [Number.reread, htext, h]
    rfl
  refine ⟨⟨?_, fun rest hrest => ?_⟩, hread⟩
  · rw [htext]
    obtain ⟨c, cs, hchars, hc⟩ := Parts.chars_eq_cons h
    cases negative with
    | true => exact ⟨'-', p.chars, rfl, .inl rfl⟩
    | false => exact ⟨c, cs, hchars, .inr hc⟩
  · rw [hread, htext, Parts.readNumber_chars h negative hrest]

theorem reread_whole (negative : Bool) (n : Nat) : (Number.whole negative n).reread = .whole negative n := by
  rw [(Number.printed_of_parts (Parts.wellFormed_ofNat n) (text_whole negative n)).2]
  simp [Parts.ofNat, numberOf]

theorem printed_whole (negative : Bool) (n : Nat) : (Number.whole negative n).Printed :=
  (Number.printed_of_parts (Parts.wellFormed_ofNat n) (text_whole negative n)).1

/-- A document without fractions is printed. -/
theorem Document.Written.printed {d : Document} (h : d.Written) : d.Printed :=
  h.mono fun _ ⟨negative, k, hn⟩ => hn ▸ printed_whole negative k

mutual

/-- A document without fractions reads as itself. -/
theorem Document.Written.reread_eq : ∀ {d : Document}, d.Written → d.reread = d
  | .null, _ => rfl
  | .bool _, _ => rfl
  | .number _, h => by
      rw [Document.Written, Document.Spells] at h
      obtain ⟨negative, k, rfl⟩ := h
      rw [Document.reread, reread_whole]
  | .string _, _ => rfl
  | .array _, h => by
      rw [Document.Written, Document.Spells] at h
      rw [Document.reread, rereadItems_of_written h]
  | .object _, h => by
      rw [Document.Written, Document.Spells] at h
      rw [Document.reread, rereadEntries_of_written h]

theorem rereadItems_of_written :
    ∀ {items : List Document}, SpellsItems Number.IsWhole items → rereadItems items = items
  | [], _ => rfl
  | _ :: _, h => by
      rw [SpellsItems] at h
      rw [rereadItems, Document.Written.reread_eq h.1, rereadItems_of_written h.2]

theorem rereadEntries_of_written : ∀ {entries : List (List Piece × Document)},
    SpellsEntries Number.IsWhole entries → rereadEntries entries = entries
  | [], _ => rfl
  | (_, _) :: _, h => by
      rw [SpellsEntries] at h
      rw [rereadEntries, Document.Written.reread_eq h.2.1, rereadEntries_of_written h.2.2]

end

/-! ## Fronts -/

/-- A character that a document may start with: neither a blank nor what may follow a document. -/
def startsDocument (c : Char) : Bool := c.isDigit || c ∈ ['-', 'n', 't', 'f', '"', '[', '\x7b']

theorem startsDocument_of_numeral {c : Char} (h : c = '-' ∨ c.isDigit = true) : startsDocument c = true := by
  rcases h with rfl | h
  · decide
  · simp [startsDocument, h]

/-- Every document starts with such a character. -/
theorem Document.Printed.chars_eq {d : Document} (h : d.Printed) :
    ∃ c cs, d.chars = c :: cs ∧ startsDocument c = true := by
  cases d with
  | null => exact ⟨'n', _, rfl, by decide⟩
  | bool b => cases b <;> exact ⟨_, _, rfl, by decide⟩
  | string pieces => exact ⟨'"', _, rfl, by decide⟩
  | array items => cases items <;> exact ⟨'[', _, by rw [Document.chars], by decide⟩
  | object entries => cases entries <;> exact ⟨'\x7b', _, by rw [Document.chars], by decide⟩
  | number n =>
      rw [Document.Printed, Document.Spells] at h
      obtain ⟨c, cs, htext, hc⟩ := h.front
      exact ⟨c, cs, by rw [Document.chars, htext], startsDocument_of_numeral hc⟩

theorem skipBlanks_of_starts {c : Char} (h : startsDocument c = true) (rest : List Symbol) :
    skipBlanks (.char c :: rest) = .char c :: rest := by
  have hblank : isBlank (.char c) = false := by
    have hne : ∀ d : Char, startsDocument d = false → (c == d) = false := by
      intro d hd
      exact beq_eq_false_iff_ne.2 fun e => by rw [e, hd] at h; cases h
    simp [isBlank, hne ' ' (by decide), hne '\t' (by decide), hne '\n' (by decide), hne '\r' (by decide)]
  simp [skipBlanks, hblank]

theorem skipBlanks_sign {c : Char} (h : c ∈ [',', ':', ']', '\x7d']) (rest : List Symbol) :
    skipBlanks (.char c :: rest) = .char c :: rest := by
  simp only [List.mem_cons, List.not_mem_nil, or_false] at h
  rcases h with rfl | rfl | rfl | rfl <;> rfl

/-- A key and the colon behind it. -/
theorem readKey_append (s : String) (rest : List Symbol) :
    readKey? (symbols (stringChars (Piece.ofString s)) ++ .char ':' :: rest) =
      some (Piece.ofString s, rest) := by
  have hpieces := readPieces_ofString s.toList (.char ':' :: rest)
  have hquote : skipBlanks (symbols (stringChars (Piece.ofString s)) ++ .char ':' :: rest) =
      .char '"' :: (symbols ((Piece.ofString s).flatMap Piece.chars ++ ['"']) ++ .char ':' :: rest) := rfl
  simp only [readKey?, hquote]
  rw [Piece.ofString, hpieces]
  rfl

/-! ## Documents -/

/-- What starts neither a word nor a string, an array or an object is read as a number. -/
theorem readDocument_default {fuel : Nat} {c : Char} {rest : List Symbol} (hstart : startsDocument c = true)
    (hc : c ∉ ['n', 't', 'f', '"', '[', '\x7b']) :
    readDocument? (fuel + 1) (.char c :: rest) =
      (readNumber? (.char c :: rest)).map fun (n, tail) => (.number n, tail) := by
  simp only [List.mem_cons, List.not_mem_nil, or_false, not_or] at hc
  obtain ⟨hn, ht, hf, hquote, hbracket, hbrace⟩ := hc
  rw [readDocument?, skipBlanks_of_starts hstart]
  split
  · rename_i he
    exact absurd (Symbol.char.inj (List.cons.inj he).1) hn
  · rename_i he
    exact absurd (Symbol.char.inj (List.cons.inj he).1) ht
  · rename_i he
    exact absurd (Symbol.char.inj (List.cons.inj he).1) hf
  · rename_i he
    exact absurd (Symbol.char.inj (List.cons.inj he).1) hquote
  · rename_i he
    exact absurd (Symbol.char.inj (List.cons.inj he).1) hbracket
  · rename_i he
    exact absurd (Symbol.char.inj (List.cons.inj he).1) hbrace
  · rfl

/-- What a numeral starts with starts no other document. -/
theorem not_mem_of_numeral {c : Char} (h : c = '-' ∨ c.isDigit = true) : c ∉ ['n', 't', 'f', '"', '[', '\x7b'] := by
  rcases h with rfl | h
  · decide
  · intro hmem
    simp only [List.mem_cons, List.not_mem_nil, or_false] at hmem
    rcases hmem with rfl | rfl | rfl | rfl | rfl | rfl <;> revert h <;> decide

theorem readDocument_number {fuel : Nat} {n : Number} (h : n.Printed) {rest : List Symbol} (hrest : Stops rest) :
    readDocument? (fuel + 1) (symbols n.text.toList ++ rest) = some (.number n.reread, rest) := by
  have hnumber := h.reads rest hrest
  obtain ⟨c, cs, htext, hc⟩ := h.front
  rw [htext, symbols_cons, List.cons_append] at hnumber ⊢
  rw [readDocument_default (startsDocument_of_numeral hc) (not_mem_of_numeral hc), hnumber]
  rfl

theorem readDocument_string {fuel : Nat} (s : String) (rest : List Symbol) :
    readDocument? (fuel + 1) (symbols (Document.string (Piece.ofString s)).chars ++ rest) =
      some (.string (Piece.ofString s), rest) := by
  have hpieces := readPieces_ofString s.toList rest
  have hchars : symbols (Document.string (Piece.ofString s)).chars ++ rest =
      .char '"' :: (symbols ((Piece.ofString s).flatMap Piece.chars ++ ['"']) ++ rest) := rfl
  rw [hchars, readDocument?, skipBlanks_of_starts (by decide)]
  simp only [Piece.ofString] at hpieces ⊢
  rw [hpieces]
  rfl

/-- Where a document starts, no array ends. -/
theorem not_bracket_of_starts {c : Char} (h : startsDocument c = true) (rest more : List Symbol) :
    skipBlanks (.char c :: rest) ≠ .char ']' :: more := by
  rw [skipBlanks_of_starts h]
  intro heq
  cases heq
  revert h
  decide

/-- An array is entered at its first item, unless it ends at once. -/
theorem readDocument_array {fuel : Nat} {first : Document} {items : List Document} {rest tail tail' : List Symbol}
    (hopen : ∀ more, skipBlanks rest ≠ .char ']' :: more) (hfirst : readDocument? fuel rest = some (first, tail))
    (hitems : readItems? fuel tail = some (items, tail')) :
    readDocument? (fuel + 1) (.char '[' :: rest) = some (.array (first :: items), tail') := by
  rw [readDocument?, skipBlanks_of_starts (by decide)]
  simp [hfirst, hitems]

/-- An object is entered at its first key, unless it ends at once. -/
theorem readDocument_object {fuel : Nat} {key : List Piece} {value : Document}
    {entries : List (List Piece × Document)} {rest tail tail' tail'' : List Symbol}
    (hopen : ∀ more, skipBlanks rest ≠ .char '\x7d' :: more) (hkey : readKey? rest = some (key, tail))
    (hvalue : readDocument? fuel tail = some (value, tail'))
    (hentries : readEntries? fuel tail' = some (entries, tail'')) :
    readDocument? (fuel + 1) (.char '\x7b' :: rest) = some (.object ((key, value) :: entries), tail'') := by
  rw [readDocument?, skipBlanks_of_starts (by decide)]
  simp [hkey, hvalue, hentries]

/-! ## Reading with enough fuel -/

/-- The fuel is enough for every document of at most as many characters: reading leaves off where it ends. -/
def ReadsDocuments (fuel : Nat) : Prop :=
  ∀ (d : Document) (rest : List Symbol), d.Printed → Stops rest → d.chars.length ≤ fuel →
    readDocument? fuel (symbols d.chars ++ rest) = some (d.reread, rest)

/-- The same for the items of an array behind the first. -/
def ReadsItems (fuel : Nat) : Prop :=
  ∀ (items : List Document) (rest : List Symbol), SpellsItems Number.Printed items → (itemsChars items).length ≤ fuel →
    readItems? fuel (symbols (itemsChars items) ++ rest) = some (rereadItems items, rest)

/-- The same for the entries of an object behind the first. -/
def ReadsEntries (fuel : Nat) : Prop :=
  ∀ (entries : List (List Piece × Document)) (rest : List Symbol), SpellsEntries Number.Printed entries →
    (entriesChars entries).length ≤ fuel →
    readEntries? fuel (symbols (entriesChars entries) ++ rest) = some (rereadEntries entries, rest)

theorem stops_itemsChars (items : List Document) (rest : List Symbol) :
    Stops (symbols (itemsChars items) ++ rest) := by
  intro s hs
  cases items <;> simp_all [itemsChars]

theorem stops_entriesChars (entries : List (List Piece × Document)) (rest : List Symbol) :
    Stops (symbols (entriesChars entries) ++ rest) := by
  intro s hs
  cases entries <;> simp_all [entriesChars]

variable {fuel : Nat}

theorem readsItems_succ (hd : ReadsDocuments fuel) (hi : ReadsItems fuel) : ReadsItems (fuel + 1) := by
  intro items rest hitems hfuel
  cases items with
  | nil => rfl
  | cons item items =>
      rw [SpellsItems] at hitems
      rw [itemsChars, List.length_cons, List.length_append] at hfuel
      -- The comma takes one unit of fuel, so the item and the other items may take the rest.
      have hitem := hd item (symbols (itemsChars items) ++ rest) hitems.1 (stops_itemsChars _ _) (by omega)
      have hmore := hi items rest hitems.2 (by omega)
      rw [itemsChars, symbols_cons, symbols_append, List.cons_append, List.append_assoc, readItems?,
        skipBlanks_sign (by decide)]
      simp [hitem, hmore, rereadItems]

theorem readsEntries_succ (hd : ReadsDocuments fuel) (he : ReadsEntries fuel) : ReadsEntries (fuel + 1) := by
  intro entries rest hentries hfuel
  cases entries with
  | nil => rfl
  | cons entry entries =>
      obtain ⟨key, value⟩ := entry
      rw [SpellsEntries] at hentries
      obtain ⟨⟨k, rfl⟩, hvalue, hentries⟩ := hentries
      rw [entriesChars, List.length_cons, List.length_append, List.length_cons, List.length_append] at hfuel
      have hread := hd value (symbols (entriesChars entries) ++ rest) hvalue (stops_entriesChars _ _) (by omega)
      have hmore := he entries rest hentries (by omega)
      have hkey := readKey_append k (symbols value.chars ++ (symbols (entriesChars entries) ++ rest))
      rw [entriesChars, symbols_cons, symbols_append, symbols_cons, symbols_append, List.cons_append,
        List.append_assoc, List.cons_append, List.append_assoc, readEntries?, skipBlanks_sign (by decide)]
      simp [hkey, hread, hmore, rereadEntries]

theorem readsDocuments_succ (hd : ReadsDocuments fuel) (hi : ReadsItems fuel) (he : ReadsEntries fuel) :
    ReadsDocuments (fuel + 1) := by
  intro d rest hprinted hrest hfuel
  cases d with
  | null => rfl
  | bool b => cases b <;> rfl
  | number n =>
      rw [Document.Printed, Document.Spells] at hprinted
      exact readDocument_number hprinted hrest
  | string pieces =>
      rw [Document.Printed, Document.Spells] at hprinted
      obtain ⟨s, rfl⟩ := hprinted
      exact readDocument_string s rest
  | array items =>
      cases items with
      | nil => rfl
      | cons first items =>
          rw [Document.Printed, Document.Spells, SpellsItems] at hprinted
          rw [Document.chars, List.length_cons, List.length_append] at hfuel
          have hfirst := hd first (symbols (itemsChars items) ++ rest) hprinted.1 (stops_itemsChars _ _) (by omega)
          have hitems := hi items rest hprinted.2 (by omega)
          -- The reader looks at the first character, to tell an item from the end of the array.
          obtain ⟨c, cs, hchars, hstart⟩ := Document.Printed.chars_eq hprinted.1
          rw [Document.chars, symbols_cons, symbols_append, List.cons_append, List.append_assoc]
          rw [hchars, symbols_cons, List.cons_append] at hfirst ⊢
          exact readDocument_array (not_bracket_of_starts hstart _) hfirst hitems
  | object entries =>
      cases entries with
      | nil => rfl
      | cons entry entries =>
          obtain ⟨key, value⟩ := entry
          rw [Document.Printed, Document.Spells, SpellsEntries] at hprinted
          obtain ⟨⟨k, rfl⟩, hvalue, hentries⟩ := hprinted
          rw [Document.chars, List.length_cons, List.length_append, List.length_cons, List.length_append] at hfuel
          have hread := hd value (symbols (entriesChars entries) ++ rest) hvalue (stops_entriesChars _ _) (by omega)
          have hmore := he entries rest hentries (by omega)
          have hkey := readKey_append k (symbols value.chars ++ (symbols (entriesChars entries) ++ rest))
          rw [Document.chars, symbols_cons, symbols_append, symbols_cons, symbols_append, List.cons_append,
            List.append_assoc, List.cons_append, List.append_assoc]
          exact readDocument_object (fun _ heq => by cases heq) hkey hread hmore

/-- Reading leaves off where the document ends.  The fuel bounds the characters of the document alone. -/
theorem readDocument_append (fuel : Nat) : ReadsDocuments fuel ∧ ReadsItems fuel ∧ ReadsEntries fuel := by
  induction fuel with
  | zero =>
      -- Every one of the three is written with a character at least.
      refine ⟨?_, ?_, ?_⟩
      · intro d rest hd _ hfuel
        obtain ⟨c, cs, hchars, _⟩ := hd.chars_eq
        simp [hchars] at hfuel
      · intro items rest _ hfuel
        cases items <;> simp [itemsChars] at hfuel
      · intro entries rest _ hfuel
        cases entries <;> simp [entriesChars] at hfuel
  | succ fuel ih =>
      obtain ⟨hd, hi, he⟩ := ih
      exact ⟨readsDocuments_succ hd hi he, readsItems_succ hd hi, readsEntries_succ hd he⟩

/-- The text of a printed document reads as what its numerals are read as. -/
theorem parse_text_reread {d : Document} (h : d.Printed) :
    Document.parse? (Symbol.ofString d.text) = some d.reread := by
  have hsymbols : Symbol.ofString d.text = symbols d.chars ++ [] := by
    simp [Symbol.ofString, Document.text, symbols]
  have hlength : d.chars.length ≤ (symbols d.chars ++ []).length + 1 := by
    simp [symbols]
  have hread := (readDocument_append _).1 d [] h stops_nil hlength
  rw [hsymbols, Document.parse?, hread]
  rfl

/-- The text of a document without fractions reads as the document. -/
theorem parse_text {d : Document} (h : d.Written) : Document.parse? (Symbol.ofString d.text) = some d := by
  rw [parse_text_reread h.printed, h.reread_eq]

end RecordTables.Json
