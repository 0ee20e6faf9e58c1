import RecordTables.Engine.Grammar.Declaration

/-!
# Reading statements

`Statement.ofText` reads a statement that is all of a text, and counts the parameters that it needs.
-/

namespace RecordTables.Engine

open Reading

/-! ## Changes -/

/-- Reads a row of values. -/
def readValues : Reading (List Expr) := do
  expectSign "("
  let values ← readExprs (← fuelFor)
  expectSign ")"
  return values

/-- Reads a condition, if there is one. -/
def readFilter : Reading (Option Expr) := do
  if ← acceptWord "WHERE" then return some (← expression) else return none

/-- Reads an insertion behind its first word. -/
def readInsertion : Reading Insertion := do
  expectWord "INTO"
  let (table, _) ← name
  let columns ← match ← next? with
    | some t => if t.token.isSign "(" then pure (some (← readNames)) else pure none
    | none => refuse
  expectWord "VALUES"
  let rows ← commaSeparated readValues ((← get).tokens.length)
  return ⟨table, columns, rows⟩

/-- Reads an update behind its first word. -/
def readUpdate : Reading Update := do
  let (table, _) ← name
  expectWord "SET"
  let assignment : Reading (String × Expr) := do
    let (column, _) ← name
    expectSign "="
    return (column, ← expression)
  let assignments ← commaSeparated assignment ((← get).tokens.length)
  return ⟨table, assignments, ← readFilter⟩

/-- Reads a deletion behind its first word. -/
def readDeletion : Reading Deletion := do
  expectWord "FROM"
  let (table, _) ← name
  return ⟨table, ← readFilter⟩

/-- Reads a statement that changes rows. -/
def readChange : Reading Change := do
  if ← acceptWord "INSERT" then return .insert (← readInsertion)
  else if ← acceptWord "UPDATE" then return .update (← readUpdate)
  else
    expectWord "DELETE"
    return .delete (← readDeletion)

/-- Reads the changes of a trigger to its last word. -/
def readTriggerBody : Nat → Reading (List Change)
  | 0 => refuse
  | fuel + 1 => do
      let change ← readChange
      expectSign ";"
      if ← acceptWord "END" then return [change] else return change :: (← readTriggerBody fuel)

/-! ## Selections -/

/-- Reads a column of a result.  Without a name of its own it is called as it is spelled, or like the column that
it is. -/
def readResultColumn : Reading ResultColumn := do
  if ← acceptSign "*" then return .all
  else
    let before := (← get).tokens
    let e ← expression
    let rest := (← get).tokens
    let spelling := spelled (before.take (before.length - rest.length))
    if ← acceptWord "AS" then return .value e (← name).1
    else
      match (← next?).bind fun t => nameOf? t.token with
      | some text => skip; return .value e text
      | none =>
          match e with
          | .name text _ _ => return .value e text
          | _ => return .value e spelling

/-- Reads where rows come from. -/
def readSource : Reading Source := do
  if ← acceptWord "FROM" then
    let (table, _) ← name
    if ← acceptSign "(" then
      let argument ← expression
      expectSign ")"
      return .catalog table argument
    else return .table table
  else return .none

/-- Reads a term of an ordering. -/
def readOrderKey : Reading OrderKey := do
  let key ← expression
  if ← acceptWord "DESC" then return ⟨key, true⟩
  else
    let _ ← acceptWord "ASC"
    return ⟨key, false⟩

/-- Reads a selection behind its first word. -/
def readSelection : Reading Selection := do
  let fuel := (← get).tokens.length
  let columns ← commaSeparated readResultColumn fuel
  let source ← readSource
  let filter ← readFilter
  let order ← do
    if ← acceptWord "ORDER" then
      expectWord "BY"
      commaSeparated readOrderKey fuel
    else pure []
  let limit ← do if ← acceptWord "LIMIT" then pure (some (← expression)) else pure none
  let offset ← do if ← acceptWord "OFFSET" then pure (some (← expression)) else pure none
  return ⟨columns, source, filter, order, limit, offset⟩

/-! ## Statements -/

/-- Reads a declaration behind its first word. -/
def readDeclaration : Reading Statement := do
  if ← acceptWord "TABLE" then
    let (table, located) ← name
    let rest ← get
    match (readTableBody.run rest) with
    | .ok (body, r) => set r; return .createTable table located.raw located.offset (.ok body)
    | .error e =>
        set { rest with tokens := [] }
        return .createTable table located.raw located.offset (.error e)
  else if ← acceptWord "TRIGGER" then
    let (trigger, located) ← name
    expectWord "AFTER"
    let event ← do
      if ← acceptWord "INSERT" then pure Event.insert
      else if ← acceptWord "DELETE" then pure Event.delete
      else
        expectWord "UPDATE"
        pure Event.update
    expectWord "ON"
    let (table, _) ← name
    expectWord "BEGIN"
    let body ← readTriggerBody ((← get).tokens.length)
    return .createTrigger trigger located.raw located.offset event table body
  else
    let unique ← acceptWord "UNIQUE"
    expectWord "INDEX"
    let (index, _) ← name
    expectWord "ON"
    let (table, _) ← name
    expectSign "("
    let terms ← commaSeparated readIndexTerm ((← get).tokens.length)
    expectSign ")"
    return .createIndex unique index table terms

/-- Reads a statement, all of it. -/
def readStatement : Reading Statement := do
  match ← next? with
  | none => return .nothing
  | some t =>
      let statement ← do
        if ← acceptWord "SELECT" then pure (.select (← readSelection))
        else if ← acceptWord "CREATE" then readDeclaration
        else if t.token.isWord "INSERT" || t.token.isWord "UPDATE" || t.token.isWord "DELETE" then
          pure (.change (← readChange))
        else refuse
      readEnd
      return statement

/-- The statement of a text, and the number of parameters that it needs. -/
def Statement.ofText (text : String) : Except Failure (Statement × Nat) := do
  let (statement, reader) ← readStatement.run ⟨Token.scan text, 0⟩
  return (statement, reader.parameters)

end RecordTables.Engine
