import RecordTables.Record.TypeName
import RecordTables.Record.Datum

/-!
# Shapes

A shape describes a type: what kind of value it asks for when it is read, and of which parts it is made.  Shapes
are plain data, so the columns of a type, the reading of a stored value and the reading of a document are
functions on one and the same description.
-/

namespace RecordTables

/-- When a field is written. -/
inductive Writing where
  | always
  | never
  | unlessAbsent
  deriving DecidableEq, Repr, Inhabited

/-- A field of a record, its shape apart. -/
structure Field where
  name : String
  /-- Further names under which the field is read. -/
  aliases : List String := []
  writing : Writing := .always
  /-- The value of a field that is not read at all. -/
  constant : Option Datum := none
  /-- The value where a document does not have the field. -/
  default : Option Datum := none
  deriving Inhabited

/-- The names under which a field is read, in ascending order; none if it is not read. -/
def Field.names (f : Field) : List String :=
  if f.constant.isSome then [] else (f.name :: f.aliases).mergeSort fun a b => decide (a ≤ b)

/-- The scalars that a type without tags may choose from. -/
inductive Scalar where
  | int64
  | double
  | text
  deriving DecidableEq, Repr

mutual

/-- The description of a type. -/
inductive Shape where
  | bool
  | int (type : IntType)
  | single
  | double
  | char
  | text
  | bytes (name : TypeName)
  | unit (name : TypeName)
  | option (content : Shape)
  /-- Another place for the same value. -/
  | box (content : Shape)
  /-- A type that reads and presents itself exactly as its content. -/
  | transparent (name : TypeName) (content : Shape)
  | newtype (name : TypeName) (content : Shape)
  | list (item : Shape)
  | array (item : Shape) (length : Nat)
  | tuple (items : List Shape)
  | tupleStruct (name : TypeName) (items : List Shape)
  | map (key value : Shape)
  /-- Named fields; a strict record refuses fields that it does not know. -/
  | record (name : TypeName) (strict : Bool) (fields : List (Field × Shape))
  /-- The innermost record around this shape. -/
  | enclosing (name : TypeName)
  /-- One of several variants, told by its name. -/
  | choice (name : TypeName) (variants : List (String × Payload))
  /-- One of several variants, as a record of a tag and a content. -/
  | adjacent (name : TypeName) (tag content : String) (variants : List (String × Payload))
  /-- One of several variants, told by a tag among its fields. -/
  | tagged (name : TypeName) (tag : String) (variants : List (String × Payload))
  /-- The first of several scalars that takes the value. -/
  | untagged (name : TypeName) (alternatives : List Scalar)
  /-- Any document. -/
  | anything (name : TypeName)
  /-- Values of the content that a check lets pass; the check gives the reason of a refusal. -/
  | checked (name : TypeName) (content : Shape) (refusal : Datum → Option String)
  /-- Values of the content, some of which refuse to present themselves. -/
  | guarded (name : TypeName) (content : Shape) (refusal : Datum → Option String)
  /-- Reads anything, and presents itself as a unit. -/
  | ignored (name : TypeName)
  /-- A text that is read as the name of something. -/
  | label (name : TypeName)
  /-- A list of pairs that presents itself as a map; its keys are doubled, and have no text. -/
  | pairs (name : TypeName) (key value : Shape)
  /-- Named fields that present themselves as a map, and so make no record. -/
  | flattened (name : TypeName) (fields : List (Field × Shape))

/-- What a variant carries. -/
inductive Payload where
  | unit
  | newtype (content : Shape)
  | tuple (items : List Shape)
  | fields (fields : List (Field × Shape))

end

instance : Inhabited Shape := ⟨.bool⟩

/-- What a variant carries, in words. -/
def Payload.form : Payload → String
  | .unit => "unit variant"
  | .newtype _ => "newtype variant"
  | .tuple _ => "tuple variant"
  | .fields _ => "struct variant"

namespace Shape

mutual

/-- The name of the described type. -/
def typeName : Shape → TypeName
  | .bool => .simple "bool"
  | .int type => .simple type.name
  | .single => .simple "f32"
  | .double => .simple "f64"
  | .char => .simple "char"
  | .text => .simple "alloc::string::String"
  | .bytes name => name
  | .unit name => name
  | .option content => .option content.typeName
  | .box content => .box content.typeName
  | .transparent name _ => name
  | .newtype name _ => name
  | .list item => .list item.typeName
  | .array item length => .array item.typeName length
  | .tuple items => .tuple (typeNames items)
  | .tupleStruct name _ => name
  | .map key value => .map key.typeName value.typeName
  | .record name _ _ => name
  | .enclosing name => name
  | .choice name _ => name
  | .adjacent name _ _ _ => name
  | .tagged name _ _ => name
  | .untagged name _ => name
  | .anything name => name
  | .checked name _ _ => name
  | .guarded name _ _ => name
  | .ignored name => name
  | .label name => name
  | .pairs name _ _ => name
  | .flattened name _ => name

def typeNames : List Shape → List TypeName
  | [] => []
  | s :: rest => s.typeName :: typeNames rest

end

/-- The key of the described type, and whether the type is optional. -/
def key (s : Shape) : String × Bool := placeholderKey s.typeName.text

end Shape

/-- A wrapped value as it presents itself, given a check that may refuse to. -/
def Datum.presented (refusal : Datum → Option String) (d : Datum) : Datum :=
  match refusal d with
  | some why => .refused why
  | none => .newtype d

/-- The fields that a record presents. -/
def presentedFields : List (Field × Datum) → List (String × Datum)
  | [] => []
  | (f, d) :: rest =>
      match f.writing, d with
      | .never, _ => presentedFields rest
      | .unlessAbsent, .absent => presentedFields rest
      | _, d => (f.name, d) :: presentedFields rest

end RecordTables
