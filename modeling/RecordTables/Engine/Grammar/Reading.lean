import RecordTables.Engine.Statement
import RecordTables.Engine.Token

/-!
# Steps of reading

A statement is read token by token.  A step takes tokens from the front or fails at the first one that does not
fit; parameter marks are numbered as they are met.
-/

namespace RecordTables.Engine

/-- The tokens still to be read, and the largest number of a parameter so far. -/
structure Reader where
  tokens : List Located
  parameters : Nat

/-- A step of reading. -/
abbrev Reading := StateT Reader (Except Failure)

namespace Reading

/-- The next token, still unread. -/
def next? : Reading (Option Located) := return (← get).tokens.head?

/-- Leaves the next token behind. -/
def skip : Reading Unit := modify fun r => { r with tokens := r.tokens.tail }

/-- The failure at the next token. -/
def refuse {α : Type} : Reading α := do
  match ← next? with
  | none => throw .incompleteInput
  | some t =>
      match t.token with
      | .illegal => throw (.unrecognizedToken t.raw t.offset)
      | _ => throw (.unexpectedToken t.raw t.offset)

/-- Takes the next token if it is a given word. -/
def acceptWord (word : String) : Reading Bool := do
  match ← next? with
  | some t => if t.token.isWord word then skip; return true else return false
  | none => return false

/-- Takes the next token if it is a given sign. -/
def acceptSign (sign : String) : Reading Bool := do
  match ← next? with
  | some t => if t.token.isSign sign then skip; return true else return false
  | none => return false

def expectWord (word : String) : Reading Unit := do
  if ← acceptWord word then return () else refuse

def expectSign (sign : String) : Reading Unit := do
  if ← acceptSign sign then return () else refuse

/-- Takes given words one after the other. -/
def expectWords : List String → Reading Unit
  | [] => return ()
  | word :: rest => do
      expectWord word
      expectWords rest

/-- The words that are no names unless they are quoted. -/
def reserved : List String :=
  ["ALTER", "AND", "AS", "BETWEEN", "CASE", "CHECK", "COLLATE", "COMMIT", "CONSTRAINT", "CREATE", "DEFAULT",
    "DELETE", "DISTINCT", "DROP", "ELSE", "EXISTS", "FOREIGN", "FROM", "GROUP", "HAVING", "IN", "INDEX", "INSERT",
    "INTO", "IS", "ISNULL", "JOIN", "LIMIT", "NOT", "NOTNULL", "NULL", "ON", "OR", "ORDER", "PRIMARY",
    "REFERENCES", "SELECT", "SET", "TABLE", "THEN", "TO", "TRANSACTION", "UNION", "UNIQUE", "UPDATE", "USING",
    "VALUES", "WHEN", "WHERE"]

/-- The name that a token spells. -/
def nameOf? : Token → Option String
  | .name text => some text
  | .text text => some text
  | .word text => if reserved.contains text.toUpper then none else some text
  | _ => none

/-- Takes a name. -/
def name : Reading (String × Located) := do
  match ← next? with
  | some t =>
      match nameOf? t.token with
      | some text => skip; return (text, t)
      | none => refuse
  | none => refuse

/-- One item and then more of them, each behind a comma. -/
def commaSeparated {α : Type} (item : Reading α) : Nat → Reading (List α)
  | 0 => refuse
  | fuel + 1 => do
      let first ← item
      if ← acceptSign "," then return first :: (← commaSeparated item fuel) else return [first]

/-- The greatest number of a parameter. -/
def maxParameter : Nat := 32766

/-- Takes a parameter mark; one without a number takes the number behind the largest so far. -/
def parameter (number : Option Nat) (offset : Nat) : Reading Expr := do
  let k ← match number with
    | some k => if k = 0 ∨ maxParameter < k then throw (.variableNumber offset) else pure k
    | none =>
        let k := (← get).parameters + 1
        if maxParameter < k then throw (.tooManyVariables offset) else pure k
  modify fun r => { r with parameters := max r.parameters k }
  return .parameter k

/-- The greatest count of levels of an expression. -/
def maxHeight : Nat := 1000

/-- Refuses an expression of too many levels. -/
def limited (e : Expr) : Reading Expr := if maxHeight < e.height then throw .tooDeep else return e

end Reading

end RecordTables.Engine
