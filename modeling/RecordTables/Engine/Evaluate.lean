import RecordTables.Engine.Affinity
import RecordTables.Engine.Pattern
import RecordTables.Engine.Statement

/-!
# Evaluation

Values are ordered NULL, numbers, texts, blobs.  Conditions have three truth values, of which NULL is the third.
-/

namespace RecordTables.Engine

/-! ## Order -/

/-- The order of bytes, one by one. -/
def orderBytes : List UInt8 → List UInt8 → Ordering
  | [], [] => .eq
  | [], _ :: _ => .lt
  | _ :: _, [] => .gt
  | a :: as, b :: bs =>
      match compare a b with
      | .eq => orderBytes as bs
      | o => o

/-- The order of numbers, of which none is absent. -/
def orderNumbers (x y : BinaryValue) : Ordering := (x.order? y).getD .eq

/-- The order of stored values. -/
def orderValues : StoredValue → StoredValue → Ordering
  | .null, .null => .eq
  | .null, _ => .lt
  | _, .null => .gt
  | .int m, .int n => compare m n
  | .int m, .real y => orderNumbers (.ofInt m.toInt) y.value
  | .real x, .int n => orderNumbers x.value (.ofInt n.toInt)
  | .real x, .real y => orderNumbers x.value y.value
  | .int _, _ => .lt
  | .real _, _ => .lt
  | _, .int _ => .gt
  | _, .real _ => .gt
  | .text a, .text b => orderBytes a.toList b.toList
  | .text _, .blob _ => .lt
  | .blob _, .text _ => .gt
  | .blob a, .blob b => orderBytes a.toList b.toList

/-! ## Truth -/

/-- The value of a truth value. -/
def ofTruth : Option Bool → StoredValue
  | none => .null
  | some b => .int (if b then 1 else 0)

/-- Whether a value counts as true; NULL is neither. -/
def truth : StoredValue → Option Bool
  | .null => none
  | .int n => some (n != 0)
  | .real x => some (!x.same (.ofInt 0))
  | .text bytes => some (orderValues (leadingNumber bytes) (.int 0) != .eq)
  | .blob bytes => some (orderValues (leadingNumber bytes) (.int 0) != .eq)

/-- Conjunction: false wins over unknown. -/
def truthAnd : Option Bool → Option Bool → Option Bool
  | some false, _ => some false
  | _, some false => some false
  | some true, some true => some true
  | _, _ => none

/-- Disjunction: true wins over unknown. -/
def truthOr : Option Bool → Option Bool → Option Bool
  | some true, _ => some true
  | _, some true => some true
  | some false, some false => some false
  | _, _ => none

/-- Negation: unknown stays unknown. -/
def truthNot : Option Bool → Option Bool := Option.map not

/-! ## Comparison -/

/-- The affinity that both operands of a comparison are brought to, from the affinities that they have. -/
def commonAffinity : Option Affinity → Option Affinity → Affinity
  | some a, some b => if isNumeric a || isNumeric b then .numeric else .blob
  | some a, none => a
  | none, some b => b
  | none, none => .blob
where
  isNumeric : Affinity → Bool
    | .numeric | .integer | .real => true
    | _ => false

def isText : StoredValue → Bool
  | .text _ => true
  | _ => false

/-- The operands of a comparison, brought to an affinity.  Only a text among them makes a difference. -/
def bring (affinity : Affinity) (v w : StoredValue) : StoredValue × StoredValue :=
  match affinity with
  | .blob => (v, w)
  | .text => if isText v || isText w then (textFromNumber v, textFromNumber w) else (v, w)
  | _ => (numberFromText v, numberFromText w)

def Relation.holds : Relation → Ordering → Bool
  | .equal, o => o == .eq
  | .notEqual, o => o != .eq
  | .less, o => o == .lt
  | .lessEqual, o => o != .gt
  | .greater, o => o == .gt
  | .greaterEqual, o => o != .lt

/-- The comparison of two values; NULL on one side leaves it unknown. -/
def compareValues (relation : Relation) (affinity : Affinity) (v w : StoredValue) : Option Bool :=
  if v = .null ∨ w = .null then none
  else
    let (v, w) := bring affinity v w
    some (relation.holds (orderValues v w))

/-- Membership in a list.  A list without a match that holds NULL leaves it unknown. -/
def memberOf (v : StoredValue) (values : List (StoredValue × Affinity)) : Option Bool :=
  if values.isEmpty then some false
  else
    let tests := values.map fun (w, affinity) => compareValues .equal affinity v w
    if tests.contains (some true) then some true
    else if tests.contains none then none
    else some false

/-! ## Patterns -/

/-- The bytes of a value as text. -/
def textBytes (v : StoredValue) : ByteArray :=
  match textFromNumber v with
  | .text bytes => bytes
  | .blob bytes => bytes
  | _ => .empty

/-- The greatest count of bytes of a pattern. -/
def maxPatternBytes : Nat := 50000

/-- The match of a value with a pattern. -/
def likeValues (v pattern : StoredValue) : Except Failure (Option Bool) :=
  let bytes := textBytes pattern
  if maxPatternBytes < bytes.size then .error .patternTooComplex
  else if v = .null ∨ pattern = .null then .ok none
  else .ok (some (matchesPattern (codesOf bytes) (codesOf (textBytes v))))

/-! ## Expressions -/

/-- The sum of two finite signed multiples of powers of two. -/
def addFinite (a : Bool) (m : Nat) (e : Int) (b : Bool) (n : Nat) (k : Int) : Double :=
  let least := min e k
  let left : Int := m * 2 ^ (e - least).toNat
  let right : Int := n * 2 ^ (k - least).toNat
  let sum := (if a then -left else left) + (if b then -right else right)
  if sum = 0 then .ofValue (.finite (a && b) 0 least)
  else .ofValue (.finite (sum < 0) sum.natAbs least)

/-- The sum of two numbers; there is none of opposite infinities. -/
def addReals (x y : Double) : StoredValue :=
  match x.value, y.value with
  | .finite a m e, .finite b n k => .real (addFinite a m e b n k)
  | .infinite a, .infinite b => if a = b then .real x else .null
  | .infinite _, .finite .. => .real x
  | .finite .., .infinite _ => .real y
  | _, _ => .null

/-- A value as a number. -/
def toNumber : StoredValue → StoredValue
  | .text bytes => leadingNumber bytes
  | .blob bytes => leadingNumber bytes
  | v => v

/-- The sum of two values.  Integers stay integers as long as eight bytes hold them. -/
def addValues (v w : StoredValue) : StoredValue :=
  match toNumber v, toNumber w with
  | .int m, .int n =>
      match signedInteger? (m.toInt + n.toInt) with
      | some sum => .int sum
      | none => addReals (.ofInt m.toInt) (.ofInt n.toInt)
  | .int m, .real y => addReals (.ofInt m.toInt) y
  | .real x, .int n => addReals x (.ofInt n.toInt)
  | .real x, .real y => addReals x y
  | _, _ => .null

/-- A value as text; the bytes of a blob are taken as they are. -/
def castText (v : StoredValue) : StoredValue :=
  match textFromNumber v with
  | .blob bytes => .text bytes
  | v => v

/-- What an expression is evaluated with. -/
structure Scope where
  parameters : Array StoredValue
  row : List StoredValue
  affinities : List Affinity
  /-- The number of rows that a count is about. -/
  count : Nat

/-- The affinity of an expression; only columns and texts made of values have one. -/
def affinityOf (scope : Scope) : Expr → Option Affinity
  | .column i => scope.affinities[i]?
  | .asText _ => some .text
  | _ => none

mutual

/-- The value of an expression. -/
def evaluate (scope : Scope) : Expr → Except Failure StoredValue
  | .literal v => .ok v
  | .name s _ _ => .ok (.text s.toUTF8)
  | .changed _ _ _ => .ok .null
  | .column i => .ok (scope.row[i]?.getD .null)
  | .parameter k => .ok (scope.parameters[k - 1]?.getD .null)
  | .countAll => .ok (.int (Int64.ofNat scope.count))
  | .call _ _ _ => .ok .null
  | .asText e => return castText (← evaluate scope e)
  | .add l r => return addValues (← evaluate scope l) (← evaluate scope r)
  | .compare relation l r =>
      return ofTruth (compareValues relation (commonAffinity (affinityOf scope l) (affinityOf scope r))
        (← evaluate scope l) (← evaluate scope r))
  | .like e p => return ofTruth (← likeValues (← evaluate scope e) (← evaluate scope p))
  | .isNull e => return ofTruth (some ((← evaluate scope e) == .null))
  | .isIn e values =>
      return ofTruth (memberOf (← evaluate scope e) (← evaluateList scope (affinityOf scope e) values))
  | .not e => return ofTruth (truthNot (truth (← evaluate scope e)))
  | .and l r => return ofTruth (truthAnd (truth (← evaluate scope l)) (truth (← evaluate scope r)))
  | .or l r => return ofTruth (truthOr (truth (← evaluate scope l)) (truth (← evaluate scope r)))

/-- The values of expressions, each with the affinity that a comparison with it brings about. -/
def evaluateList (scope : Scope) (affinity : Option Affinity) :
    List Expr → Except Failure (List (StoredValue × Affinity))
  | [] => .ok []
  | e :: rest =>
      return (← evaluate scope e, commonAffinity affinity none) :: (← evaluateList scope affinity rest)

end

/-- Whether an expression is true; unknown is not enough.  What comes too late to matter is not evaluated. -/
def isTrue (scope : Scope) : Expr → Except Failure Bool
  | .and l r => do if ← isTrue scope l then isTrue scope r else return false
  | .or l r => do if ← isTrue scope l then return true else isTrue scope r
  | e => return truth (← evaluate scope e) == some true

/-- Whether a condition holds, if there is one. -/
def holds (scope : Scope) : Option Expr → Except Failure Bool
  | none => .ok true
  | some e => isTrue scope e

end RecordTables.Engine
