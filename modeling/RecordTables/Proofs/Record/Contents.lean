import RecordTables.Proofs.Record.Cells

/-!
# Faults of content

A value that is read out of a cell fails for what the cell holds: the storage class, the range of a number, the
document in a text or the check of a type.  No other error comes of it; that a column is absent or a sample missing
is found by those who look for columns and samples.
-/

namespace RecordTables

/-- Whether an error finds fault with the content of a cell. -/
def Error.ofContent : Error → Bool
  | .notRepresentable _ => true
  | .json => true
  | .serialization _ => true
  | _ => false

namespace Outcome

variable {α β : Type} {x : Outcome α} {f : α → Outcome β}

/-- A computation that fails for the content of a cell, if it fails. -/
def OnContent (x : Outcome α) : Prop := ∀ e, x = .error e → e.ofContent = true

theorem onContent_ok (a : α) : OnContent (.ok a) := by
  intro e h
  cases h

theorem onContent_error {e : Error} (he : e.ofContent = true) : OnContent (.error e : Outcome α) := by
  intro e' h
  cases h
  exact he

theorem onContent_notRepresentable (why : Unrepresentable) :
    OnContent (.error (.notRepresentable why) : Outcome α) :=
  onContent_error rfl

theorem onContent_serialization (why : Mismatch) : OnContent (.error (.serialization why) : Outcome α) :=
  onContent_error rfl

theorem onContent_json : OnContent (.error .json : Outcome α) :=
  onContent_error rfl

theorem OnContent.bind (hx : x.OnContent) (hf : ∀ a, (f a).OnContent) : (x >>= f).OnContent := by
  intro e h
  rcases bind_eq_error.1 h with h | ⟨a, -, h⟩
  · exact hx e h
  · exact hf a e h

theorem OnContent.map {g : α → β} (hx : x.OnContent) : (x >>= fun a => .ok (g a)).OnContent :=
  hx.bind fun a => onContent_ok (g a)

end Outcome

open Outcome

namespace Cell

variable (cell : Cell)

theorem onContent_unexpected {α : Type} (expected : String) : (cell.unexpected expected : Outcome α).OnContent :=
  onContent_serialization _

theorem onContent_outOfRange {α : Type} (shown target : String) :
    (cell.outOfRange shown target : Outcome α).OnContent :=
  onContent_notRepresentable _

theorem onContent_integer : cell.integer.OnContent := by
  unfold integer
  split
  · exact onContent_ok _
  · split
    · split
      · exact onContent_ok _
      · exact cell.onContent_outOfRange _ _
    · exact cell.onContent_unexpected _
  · split
    · exact onContent_ok _
    · exact cell.onContent_unexpected _
  · exact cell.onContent_unexpected _

theorem onContent_integerOf (t : IntType) : (cell.integerOf t).OnContent := by
  refine cell.onContent_integer.bind fun n => ?_
  split
  · exact onContent_ok _
  · exact cell.onContent_outOfRange _ _

theorem onContent_real : cell.real.OnContent := by
  unfold real
  split
  · exact onContent_ok _
  · exact onContent_ok _
  · split
    · exact onContent_ok _
    · exact cell.onContent_unexpected _
  · exact cell.onContent_unexpected _

theorem onContent_text : cell.text.OnContent := by
  unfold text
  split
  · exact onContent_ok _
  · exact onContent_ok _
  · exact onContent_ok _
  · split
    · exact onContent_ok _
    · exact cell.onContent_unexpected _
  · exact cell.onContent_unexpected _

theorem onContent_char : cell.char.OnContent := by
  refine cell.onContent_text.bind fun s => ?_
  split
  · exact onContent_ok _
  · exact cell.onContent_unexpected _

theorem onContent_bytes : cell.bytes.OnContent := by
  unfold bytes
  split
  · exact onContent_ok _
  · exact onContent_ok _
  · exact cell.onContent_unexpected _

theorem onContent_document (around s : Shape) : (cell.document around s).OnContent := by
  unfold document
  split
  all_goals
    refine OnContent.bind ?_ fun symbols => ?_
    rotate_left
    · dsimp only
      split
      · exact onContent_ok _
      · exact onContent_json
  · exact onContent_ok _
  · exact onContent_ok _
  · exact cell.onContent_unexpected _

end Cell

theorem Datum.onContent_pass (refusal : Datum → Option String) (d : Datum) : (d.pass refusal).OnContent := by
  unfold pass
  split
  · exact onContent_serialization _
  · exact onContent_ok _

namespace Shape

/-- A field finds fault with the content of its cell alone, whatever its type is. -/
theorem onContent_decodeField (around : Shape) (cell : Cell) : ∀ s : Shape, (decodeField around cell s).OnContent
  | .bool => cell.onContent_integer.map
  | .int type => by
      rw [decodeField]
      split
      · exact (cell.onContent_integerOf type).map
      · exact onContent_serialization _
  | .single => cell.onContent_real.map
  | .double => cell.onContent_real.map
  | .char => cell.onContent_char.map
  | .text => cell.onContent_text.map
  | .label _ => cell.onContent_text.map
  | .bytes _ => cell.onContent_bytes.map
  | .option content => by
      rw [decodeField_option]
      split
      · exact onContent_ok _
      · exact (onContent_decodeField around cell content).map
  | .box content => onContent_decodeField around cell content
  | .transparent _ content => onContent_decodeField around cell content
  | .newtype _ content => (onContent_decodeField around cell content).map
  | .checked _ content refusal => (onContent_decodeField around cell content).bind (Datum.onContent_pass refusal)
  | .guarded _ content _ => (onContent_decodeField around cell content).map
  | .choice name variants => by
      rw [decodeField]
      split
      · split
        · rename_i payload _
          cases payload with
          | unit => exact onContent_ok _
          | newtype | tuple | fields => exact onContent_serialization _
        · exact cell.onContent_document _ _
      · exact cell.onContent_document _ _
  | .tagged _ _ _ => onContent_serialization _
  | .untagged _ alternatives => by
      rw [decodeField]
      split
      · exact onContent_ok _
      · exact onContent_serialization _
  | .anything _ => by
      rw [decodeField]
      split
      · exact onContent_ok _
      · exact onContent_serialization _
  | .ignored _ => onContent_ok _
  | .unit _ | .list _ | .array _ _ | .tuple _ | .tupleStruct _ _ | .map _ _ | .record _ _ _ | .enclosing _
  | .adjacent _ _ _ _ | .pairs _ _ _ | .flattened _ _ => cell.onContent_document around _

/-- So does the content of an adjacently tagged variant. -/
theorem onContent_decodeContent (around : Shape) (cell : Cell) (name : TypeName) (variant : String)
    (payload : Payload) : (decodeContent around cell name variant payload).OnContent := by
  cases payload with
  | unit =>
      rw [decodeContent]
      split
      · exact onContent_ok _
      · exact onContent_serialization _
  | newtype | tuple | fields => exact (onContent_decodeField around cell _).map

end Shape

end RecordTables
