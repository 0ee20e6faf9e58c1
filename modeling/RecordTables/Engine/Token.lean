import RecordTables.Sql.Identifier
import RecordTables.Number.Text

/-!
# Tokens of statements

A statement is read as words, quoted names, quoted texts, numerals, parameter marks and signs.  A token keeps its
spelling and its place, since both occur in messages.
-/

namespace RecordTables.Engine

/-- A token, its spelling and place apart. -/
inductive Token where
  | word (text : String)
  /-- A name between double quotes. -/
  | name (text : String)
  /-- A text between single quotes. -/
  | text (text : String)
  /-- A numeral without fraction and exponent. -/
  | integer (n : Nat)
  | decimal (numeral : Numeral)
  /-- A parameter mark, with the number behind it if there is one. -/
  | mark (number : Option Nat)
  | sign (text : String)
  | illegal

/-- A token with its spelling and the offset of its first byte. -/
structure Located where
  token : Token
  raw : String
  offset : Nat

namespace Token

/-- The blanks that may stand between tokens. -/
def isBlank (c : Char) : Bool := c == ' ' || c == '\t' || c == '\n' || c == '\r' || c == '\x0c'

def startsWord (c : Char) : Bool := c.isAlpha || c == '_' || 0x80 ≤ c.toNat

def continuesWord (c : Char) : Bool := startsWord c || c.isDigit || c == '$'

/-- The signs of two characters. -/
def longSigns : List String := ["<=", ">=", "<>", "!=", "==", "||"]

/-- The signs of one character. -/
def shortSigns : List String := ["(", ")", ",", ";", ".", "=", "<", ">", "+", "-", "*", "/", "%"]

/-- A sign in front of the input. -/
def sign? (input : List Char) : Option (Token × Nat) :=
  let long := String.ofList (input.take 2)
  let short := String.ofList (input.take 1)
  if longSigns.contains long then some (.sign long, 2)
  else if shortSigns.contains short then some (.sign short, 1)
  else none

/-- A numeral in front of the input, and its length. -/
def numeral (input : List Char) : Token × Nat :=
  let whole := input.takeWhile Char.isDigit
  let rest := input.drop whole.length
  let (fraction, pointLength) := match rest with
    | '.' :: more => (more.takeWhile Char.isDigit, (more.takeWhile Char.isDigit).length + 1)
    | _ => ([], 0)
  let rest := rest.drop pointLength
  let (exponent, exponentLength) := match rest with
    | c :: more =>
        let (negative, body) := splitSign more
        let digits := body.takeWhile Char.isDigit
        if (c == 'e' || c == 'E') && !digits.isEmpty then
          let n : Int := digitsValue 0 digits
          (if negative then -n else n, 1 + (more.length - body.length) + digits.length)
        else (0, 0)
    | [] => (0, 0)
  if pointLength = 0 ∧ exponentLength = 0 then (.integer (digitsValue 0 whole), whole.length)
  else (.decimal ⟨whole, fraction, exponent⟩, whole.length + pointLength + exponentLength)

/-- The token in front of an input that starts with no blank, and its length.  A text that nothing closes is
illegal as a whole. -/
def front (input : List Char) : Token × Nat :=
  match input with
  | [] => (.illegal, 0)
  | c :: rest =>
      if c == '"' then
        match Sql.unquote '"' rest with
        | some (inner, tail) => (.name (String.ofList inner), input.length - tail.length)
        | none => (.illegal, input.length)
      else if c == '\'' then
        match Sql.unquote '\'' rest with
        | some (inner, tail) => (.text (String.ofList inner), input.length - tail.length)
        | none => (.illegal, input.length)
      else if c == '?' then
        let digits := rest.takeWhile Char.isDigit
        (.mark (if digits.isEmpty then none else some (digitsValue 0 digits)), 1 + digits.length)
      else if startsWord c then
        let word := input.takeWhile continuesWord
        (.word (String.ofList word), word.length)
      else if c.isDigit || (c == '.' && (rest.head?.map Char.isDigit).getD false) then numeral input
      else
        match sign? input with
        | some found => found
        | none => (.illegal, 1)

/-- The tokens of an input from an offset on.  Each takes at least one character. -/
def scanFrom : Nat → Nat → List Char → List Located
  | 0, _, _ => []
  | fuel + 1, offset, input =>
      match input with
      | [] => []
      | c :: rest =>
          if isBlank c then scanFrom fuel (offset + c.utf8Size) rest
          else
            let (token, length) := front input
            let taken := input.take (max length 1)
            let raw := String.ofList taken
            ⟨token, raw, offset⟩ :: scanFrom fuel (offset + raw.utf8ByteSize) (input.drop taken.length)

/-- The tokens of a statement, which ends at the first NUL. -/
def scan (statement : String) : List Located :=
  let input := statement.toList.takeWhile (· != '\x00')
  scanFrom input.length 0 input

/-- Whether the token is a given word; letters match in both cases. -/
def isWord (t : Token) (word : String) : Bool :=
  match t with
  | .word spelling => spelling.toUpper == word
  | _ => false

/-- Whether the token is a given sign. -/
def isSign (t : Token) (sign : String) : Bool :=
  match t with
  | .sign spelling => spelling == sign
  | _ => false

end Token

/-- A span of tokens as the statement spells it; a gap of any kind counts as blanks. -/
def spelled : List Located → String
  | [] => ""
  | [only] => only.raw
  | first :: second :: rest =>
      let gap := second.offset - (first.offset + first.raw.utf8ByteSize)
      first.raw ++ String.ofList (List.replicate gap ' ') ++ spelled (second :: rest)

end RecordTables.Engine
