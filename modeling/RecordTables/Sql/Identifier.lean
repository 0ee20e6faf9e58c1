/-!
# Quoted names

A name in a statement stands between double quotes, with each quote inside written twice, so any text is a name.
`unquote_doubleQuotes` says that the reading of names, which ends at a lone quote, gives the name back.
-/

namespace RecordTables.Sql

/-- Each double quote written twice. -/
def doubleQuotes : List Char → List Char
  | [] => []
  | c :: rest => if c = '"' then '"' :: '"' :: doubleQuotes rest else c :: doubleQuotes rest

/-- A name between double quotes. -/
def quote (name : String) : String := "\"" ++ String.ofList (doubleQuotes name.toList) ++ "\""

/-- Texts with a comma and a blank between them. -/
def commaList (parts : List String) : String := String.intercalate ", " parts

/-- Names between double quotes, separated by commas. -/
def quoteList (names : List String) : String := commaList (names.map quote)

/-- As many parameter marks, separated by commas. -/
def marks (count : Nat) : String := commaList (List.replicate count "?")

/-- Reads up to the quote that closes a quoted text: `delimiter` twice stands for itself, once it ends the text.
Gives the text and what follows; `none` if nothing closes it. -/
def unquote (delimiter : Char) : List Char → Option (List Char × List Char)
  | [] => none
  | [c] => if c = delimiter then some ([], []) else none
  | c :: d :: rest =>
      if c = delimiter then
        if d = delimiter then (unquote delimiter rest).map fun (name, tail) => (delimiter :: name, tail)
        else some ([], d :: rest)
      else (unquote delimiter (d :: rest)).map fun (name, tail) => (c :: name, tail)

/-- Reading behind the opening quote gives back the name and what follows, if no further quote follows. -/
theorem unquote_doubleQuotes (name : List Char) (rest : List Char) (h : rest.head? ≠ some '"') :
    unquote '"' (doubleQuotes name ++ '"' :: rest) = some (name, rest) := by
  induction name with
  | nil =>
      cases rest with
      | nil => rfl
      | cons c tail =>
          have hc : c ≠ '"' := fun e => h (by simp [e])
          simp [doubleQuotes, unquote, hc]
  | cons c name ih =>
      by_cases hc : c = '"'
      · simp [doubleQuotes, hc, unquote, ih]
      · cases hs : doubleQuotes name ++ '"' :: rest with
        | nil => simp at hs
        | cons d tail =>
            rw [hs] at ih
            simp [doubleQuotes, hc, hs, unquote, ih]

end RecordTables.Sql
