/-!
# Names of types

The full name of a type is its path with the names of its arguments.  `TypeName.text` writes it, and
`placeholderKey` strips the options around a written name.
-/

namespace RecordTables

/-- The name of a type. -/
inductive TypeName where
  | named (path : String) (arguments : List TypeName)
  | tuple (items : List TypeName)
  | array (item : TypeName) (length : Nat)
  deriving Inhabited, Repr

namespace TypeName

/-- A type without arguments. -/
def simple (path : String) : TypeName := .named path []

/-- The path of the type of values that may be missing. -/
def optionPath : String := "core::option::Option"

def option (name : TypeName) : TypeName := .named optionPath [name]

def list (name : TypeName) : TypeName := .named "alloc::vec::Vec" [name]

def box (name : TypeName) : TypeName := .named "alloc::boxed::Box" [name]

def map (key value : TypeName) : TypeName := .named "alloc::collections::btree::map::BTreeMap" [key, value]

mutual

/-- The full name. -/
def text : TypeName → String
  | .named path [] => path
  | .named path (first :: rest) => path ++ "<" ++ first.text ++ textRest rest ++ ">"
  | .tuple [] => "()"
  | .tuple [only] => "(" ++ only.text ++ ",)"
  | .tuple (first :: rest) => "(" ++ first.text ++ textRest rest ++ ")"
  | .array item length => "[" ++ item.text ++ "; " ++ toString length ++ "]"

/-- The names behind the first one of a list. -/
def textRest : List TypeName → String
  | [] => ""
  | name :: rest => ", " ++ name.text ++ textRest rest

end

/-- The last part of a path. -/
def lastSegment (path : List Char) : List Char → List Char
  | ':' :: ':' :: rest => lastSegment rest rest
  | _ :: rest => lastSegment path rest
  | [] => path

/-- The name without path and arguments. -/
def short (name : TypeName) : String :=
  let head := name.text.toList.takeWhile (· != '<')
  String.ofList (lastSegment head head)

end TypeName

/-! ## Keys -/

/-- The text between a prefix and a last character, if both are there. -/
def between? (start : List Char) (last : Char) (text : List Char) : Option (List Char) :=
  if start.isPrefixOf text then
    let rest := text.drop start.length
    if rest.getLast? = some last then some rest.dropLast else none
  else none

/-- Strips one option after the other; the flag says whether there was one. -/
def stripOptions : Nat → List Char → List Char × Bool
  | 0, name => (name, false)
  | fuel + 1, name =>
      match between? (TypeName.optionPath.toList ++ ['<']) '>' name with
      | some inner => ((stripOptions fuel inner).1, true)
      | none => (name, false)

/-- The key under which a sample of a type is kept, and whether the type is optional.  Every option takes
characters of the name, so its length bounds their number. -/
def placeholderKey (name : String) : String × Bool :=
  let (key, optional) := stripOptions name.length name.toList
  (String.ofList key, optional)

end RecordTables
