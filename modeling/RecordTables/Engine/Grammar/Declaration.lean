import RecordTables.Engine.Grammar.Expression

/-!
# Reading declarations

The parentheses of a table declaration hold columns with their types and constraints, and then keys over several
columns.  The terms of an index are columns or expressions.
-/

namespace RecordTables.Engine

open Reading

/-- The words that end the type of a column. -/
def endsType : List String :=
  ["NULL", "NOT", "UNIQUE", "PRIMARY", "CHECK", "DEFAULT", "COLLATE", "REFERENCES", "CONSTRAINT", "GENERATED"]

/-- Reads the words of a type. -/
def readTypeWords : Nat → Reading (List String)
  | 0 => return []
  | fuel + 1 => do
      match ← next? with
      | some t =>
          match t.token with
          | .word w => if endsType.contains w.toUpper then return [] else skip; return w :: (← readTypeWords fuel)
          | .name w => skip; return w :: (← readTypeWords fuel)
          | .text w => skip; return w :: (← readTypeWords fuel)
          | _ => return []
      | none => return []

/-- Reads the numbers behind a type, with the parentheses around them. -/
def readTypeSize : Reading String := do
  if ← acceptSign "(" then
    let number : Reading String := do
      match ← next? with
      | some t =>
          match t.token with
          | .integer _ => skip; return t.raw
          | _ => refuse
      | none => refuse
    let first ← number
    let second ← do
      if ← acceptSign "," then pure ("," ++ (← number)) else pure ""
    expectSign ")"
    return "(" ++ first ++ second ++ ")"
  else return ""

/-- Reads the constraints of a column: whether it refuses NULL, and the keys that it makes up alone. -/
def readColumnConstraints (column : String) : Nat → Bool → List KeyDeclaration →
    Reading (Bool × List KeyDeclaration)
  | 0, notNull, keys => return (notNull, keys)
  | fuel + 1, notNull, keys => do
      if ← acceptWord "NULL" then readColumnConstraints column fuel notNull keys
      else if ← acceptWord "NOT" then
        expectWord "NULL"
        readColumnConstraints column fuel true keys
      else if ← acceptWord "UNIQUE" then
        readColumnConstraints column fuel notNull (keys ++ [⟨false, [column]⟩])
      else if ← acceptWord "PRIMARY" then
        expectWord "KEY"
        readColumnConstraints column fuel notNull (keys ++ [⟨true, [column]⟩])
      else return (notNull, keys)

/-- Reads a column with its type and its constraints. -/
def readColumn : Reading (ColumnDeclaration × List KeyDeclaration) := do
  let (column, _) ← name
  let fuel := (← get).tokens.length
  let words ← readTypeWords fuel
  let size ← if words.isEmpty then pure "" else readTypeSize
  let (notNull, keys) ← readColumnConstraints column fuel false []
  return (⟨column, String.intercalate " " words ++ size, notNull⟩, keys)

/-- Reads names between parentheses. -/
def readNames : Reading (List String) := do
  expectSign "("
  let fuel := (← get).tokens.length
  let names ← commaSeparated (do return (← name).1) fuel
  expectSign ")"
  return names

/-- Reads the keys behind the columns of a table. -/
def readKeys : Nat → Reading (List KeyDeclaration)
  | 0 => refuse
  | fuel + 1 => do
      let key : KeyDeclaration ← do
        if ← acceptWord "PRIMARY" then
          expectWord "KEY"
          pure ⟨true, ← readNames⟩
        else
          expectWord "UNIQUE"
          pure ⟨false, ← readNames⟩
      if ← acceptSign "," then return key :: (← readKeys fuel) else return [key]

/-- Reads columns with commas between them, and the keys behind them. -/
def readColumns : Nat → Reading TableBody
  | 0 => refuse
  | fuel + 1 => do
      let (column, own) ← readColumn
      if ← acceptSign "," then
        let more : TableBody ← do
          match ← next? with
          | some t =>
              if t.token.isWord "PRIMARY" || t.token.isWord "UNIQUE" then pure ⟨[], ← readKeys fuel⟩
              else readColumns fuel
          | none => refuse
        return ⟨column :: more.columns, own ++ more.keys⟩
      else return ⟨[column], own⟩

/-- Takes the end of a statement. -/
def readEnd : Reading Unit := do
  let _ ← acceptSign ";"
  match ← next? with
  | none => return ()
  | some _ => refuse

/-- Reads the parentheses of a table declaration, to the end of the statement. -/
def readTableBody : Reading TableBody := do
  expectSign "("
  let body ← readColumns ((← get).tokens.length)
  expectSign ")"
  readEnd
  return body

/-- Reads a term of an index.  A bare name is a column; all else is an expression. -/
def readIndexTerm : Reading IndexTerm := do
  let e ← expression
  if ← acceptWord "DESC" then pure () else let _ ← acceptWord "ASC"
  match e with
  | .name text _ _ => return .column text
  | _ => return .expression

end RecordTables.Engine
