import RecordTables.Gallery.Records
import RecordTables.Proofs.Record.Plain
import RecordTables.Proofs.Record.Rows
import RecordTables.Proofs.Schema.Columns

/-!
# Records of one field

What a record of one field does is what its field does: the definition has its column, the row its value.
-/

namespace RecordTables.RecordType

open Shape

variable {registry : Registry} {home : String} {s : Shape}

/-- The column of the field, if there is one to be found. -/
def oneColumn (registry : Registry) (home : String) (s : Shape) : Outcome (Datum × Column) :=
  settleShape registry (Gallery.one home s).shape s (probe registry (Gallery.one home s).shape s)

theorem probeRecord_one : probeRecord registry (Gallery.one home s).shape =
    (return (.record [("v", (← oneColumn registry home s).1)], [("v", (← oneColumn registry home s).2)])) := by
  have hnames : Field.names { name := "v" } = ["v"] := Field.names_of_unaliased rfl rfl
  show probeRecord registry (.record _ _ [({ name := "v" }, s)]) = _
  unfold oneColumn
  rw [probeRecord, probeFields, probeFields]
  simp only [hnames]
  change (settleShape registry (Gallery.one home s).shape s (probe registry (Gallery.one home s).shape s) >>= _) >>= _ = _
  cases settleShape registry (Gallery.one home s).shape s (probe registry (Gallery.one home s).shape s) <;> rfl

/-- The table of a record of one field. -/
def oneTable (home : String) (s : Shape) (column : Column) : TableDefinition where
  name := (Gallery.one home s).table
  columns := [("v", column)]
  primaryKey := []
  indexes := []
  columns_ascending := List.pairwise_singleton _ _
  indexes_ascending := ascending_noIndexes
  key_known := fun _ h => by cases h
  indexes_known := fun _ h => by cases h

theorem make_one (column : Column) :
    TableDefinition.make (Gallery.one home s).table [("v", column)] [] [] = .ok (oneTable home s column) :=
  @TableDefinition.make_of_sorted (oneTable home s column) [("v", column)] [] rfl List.mergeSort_nil

/-- The definition of the record is that of its one column. -/
theorem definition_one_eq : (Gallery.one home s).definition registry =
    (return oneTable home s (← oneColumn registry home s).2) := by
  unfold RecordType.definition
  rw [probeRecord_one]
  cases oneColumn registry home s with
  | error e => rfl
  | ok found => exact make_one found.2

/-! ## Rows -/

/-- The value of the field stands in the row as it is stored. -/
theorem encode_one {d : Datum} {row : Row} (hrow : (Gallery.one home s).encode registry (.record [("v", d)]) = .ok row) :
    ∃ v, d.encodeField = .ok v ∧ row.get? "v" = some v := by
  obtain ⟨table, _, hencode⟩ := Outcome.bind_eq_ok.1 hrow
  exact Datum.get?_encodeFields_of_mem hencode (by simp) (List.mem_singleton_self _)

theorem decode_one {row : Row} {v : Value} (hcell : row.get? "v" = some v) :
    (Gallery.one home s).decode row =
      (return .record [("v", ← decodeField (Gallery.one home s).shape ⟨"v", v⟩ s)]) := by
  show (decodeFields (Gallery.one home s).shape row [({ name := "v" }, s)] >>= _) = _
  rw [decodeFields_cons rfl (Field.names_of_unaliased rfl rfl), cellOf_of_get? hcell]
  show ((decodeField _ ⟨"v", v⟩ s >>= _) >>= _) = _
  cases decodeField (Gallery.one home s).shape ⟨"v", v⟩ s <;> rfl

end RecordTables.RecordType
