import RecordTables.Engine.Affinity
import RecordTables.Engine.Grammar.Reading

/-!
# Reading expressions

`OR` binds loosest, then `AND`, then `NOT`, then equality with `IS`, `IN` and `LIKE`, then the order relations, then
sums; operators of one level group to the left.
-/

namespace RecordTables.Engine

open Reading

/-- The level at which no operator is left out. -/
def anyLevel : Nat := 1

/-- The level of the operand of a negation. -/
def notLevel : Nat := 3

/-- What an operator makes of two operands, and its level. -/
def binaryOf? (t : Token) : Option (Nat × (Expr → Expr → Expr)) :=
  if t.isWord "OR" then some (1, .or)
  else if t.isWord "AND" then some (2, .both)
  else if t.isSign "=" || t.isSign "==" then some (4, .compare .equal)
  else if t.isSign "<>" || t.isSign "!=" then some (4, .compare .notEqual)
  else if t.isWord "LIKE" then some (4, .like)
  else if t.isSign "<" then some (5, .compare .less)
  else if t.isSign "<=" then some (5, .compare .lessEqual)
  else if t.isSign ">" then some (5, .compare .greater)
  else if t.isSign ">=" then some (5, .compare .greaterEqual)
  else if t.isSign "+" then some (6, .add)
  else none

/-- The level of the tests that stand behind their operand. -/
def testLevel : Nat := 4

/-- The value of an integer numeral; one beyond eight bytes is a real number. -/
def integerLiteral (n : Nat) : StoredValue := signedInteger false (Nat.toDigits 10 n)

mutual

/-- Reads an expression whose outermost operators have at least a given level. -/
def readExpr : Nat → Nat → Reading Expr
  | 0, _ => refuse
  | fuel + 1, level => do
      let left ← readOperand fuel
      readOperators fuel level left

/-- Reads an operand with the signs in front of it. -/
def readOperand : Nat → Reading Expr
  | 0 => refuse
  | fuel + 1 => do
      match ← next? with
      | none => refuse
      | some t =>
          match t.token with
          | .integer n => skip; return .literal (integerLiteral n)
          | .decimal n => skip; return .literal (.real (n.toReal false))
          | .text s => skip; return .literal (.text s.toUTF8)
          | .mark number => skip; parameter number t.offset
          | .name s => skip; return .name s true t.offset
          | .sign "(" => do
              skip
              let e ← readExpr fuel anyLevel
              expectSign ")"
              return e
          | .word w =>
              if t.token.isWord "NOT" then do
                skip
                limited (.not (← readExpr fuel notLevel))
              else if t.token.isWord "NULL" then do
                skip
                return .literal .null
              else if t.token.isWord "CAST" then do
                skip
                expectSign "("
                let e ← readExpr fuel anyLevel
                expectWords ["AS", "TEXT"]
                expectSign ")"
                limited (.asText e)
              else if reserved.contains w.toUpper then refuse
              else do
                skip
                if ← acceptSign "(" then readCall fuel w t.offset
                else if ← acceptSign "." then do
                  let (column, located) ← name
                  if t.token.isWord "NEW" then return .changed true column located.offset
                  else if t.token.isWord "OLD" then return .changed false column located.offset
                  else throw (.noSuchColumn (w ++ "." ++ column) (some t.offset))
                else return .name w false t.offset
          | _ => refuse

/-- Reads the arguments of a call and the parenthesis behind them. -/
def readCall : Nat → String → Nat → Reading Expr
  | 0, _, _ => refuse
  | fuel + 1, function, offset => do
      if ← acceptSign "*" then
        expectSign ")"
        if function.toUpper == "COUNT" then return .countAll
        else throw (.noSuchFunction function offset)
      else if ← acceptSign ")" then return .call function [] offset
      else
        let arguments ← readExprs fuel
        expectSign ")"
        limited (.call function arguments offset)

/-- Reads expressions with commas between them. -/
def readExprs : Nat → Reading (List Expr)
  | 0 => refuse
  | fuel + 1 => do
      let first ← readExpr fuel anyLevel
      if ← acceptSign "," then return first :: (← readExprs fuel) else return [first]

/-- Reads the operators behind an operand, from the left. -/
def readOperators : Nat → Nat → Expr → Reading Expr
  | 0, _, _ => refuse
  | fuel + 1, level, left => do
      match ← next? with
      | none => return left
      | some t =>
          match binaryOf? t.token with
          | some (own, build) =>
              if level ≤ own then do
                skip
                let right ← readExpr fuel (own + 1)
                readOperators fuel level (← limited (build left right))
              else return left
          | none =>
              if testLevel < level then return left
              else if ← acceptWord "IS" then do
                let negated ← acceptWord "NOT"
                expectWord "NULL"
                let test := Expr.isNull left
                readOperators fuel level (← limited (if negated then .not test else test))
              else if ← acceptWord "ISNULL" then readOperators fuel level (← limited (.isNull left))
              else if ← acceptWord "NOTNULL" then
                readOperators fuel level (← limited (.not (.isNull left)))
              else if ← acceptWord "IN" then do
                readOperators fuel level (← readMembership fuel false left)
              else if t.token.isWord "NOT" then do
                skip
                if ← acceptWord "IN" then
                  readOperators fuel level (← readMembership fuel true left)
                else if ← acceptWord "LIKE" then
                  let pattern ← readExpr fuel (testLevel + 1)
                  readOperators fuel level (← limited (.not (.like left pattern)))
                else
                  expectWord "NULL"
                  readOperators fuel level (← limited (.not (.isNull left)))
              else return left

/-- Reads the list that a membership test, or its negation, looks into.  Nothing is a member of an empty list. -/
def readMembership : Nat → Bool → Expr → Reading Expr
  | 0, _, _ => refuse
  | fuel + 1, negated, left => do
      expectSign "("
      if ← acceptSign ")" then return if negated then .truth else .falsehood
      else
        let values ← readExprs fuel
        expectSign ")"
        let test := Expr.isIn left values
        limited (if negated then .not test else test)

end

/-- Fuel for any expression in the tokens still to be read: each level of nesting takes a few steps per token. -/
def fuelFor : Reading Nat := return 8 * (← get).tokens.length + 8

/-- Reads an expression. -/
def expression : Reading Expr := do readExpr (← fuelFor) anyLevel

end RecordTables.Engine
