import RecordTables.Record.Encode
import RecordTables.Record.Shape

/-!
# Samples of types

The columns of a type are found by making up a value of it.  Where that fails, a sample stands in, kept in its
stored form under the full name of its type.  A sample is never replaced.
-/

namespace RecordTables

/-- A value in stored form, and the storage class of its column. -/
structure Sample where
  type : ColumnType
  value : Value
  deriving DecidableEq, Inhabited

/-- The samples by type name. -/
structure Registry where
  samples : List (String × Sample)
  deriving Inhabited

namespace Registry

def empty : Registry := ⟨[]⟩

def lookup (registry : Registry) (key : String) : Option Sample := registry.samples.lookup key

def isRegistered (registry : Registry) (type : TypeName) : Bool := (registry.lookup type.text).isSome

/-- The stored form of a sample of a type; NULL would tell nothing about the type. -/
def sampleOf (key : String) (d : Datum) : Outcome Sample := do
  let value ← d.encodeField
  match value.columnType? with
  | some type => .ok ⟨type, value⟩
  | none => .error (.notRepresentable (.emptySample key))

/-- Keeps a sample of a type; false if there is one already. -/
def register (registry : Registry) (type : TypeName) (d : Datum) : Outcome (Bool × Registry) :=
  let key := type.text
  if (registry.lookup key).isSome then .ok (false, registry)
  else do
    let sample ← sampleOf key d
    .ok (true, ⟨(key, sample) :: registry.samples⟩)

end Registry

end RecordTables
