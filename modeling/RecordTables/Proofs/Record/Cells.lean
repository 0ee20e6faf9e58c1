import RecordTables.Record.Decode
import RecordTables.Record.Encode

/-!
# Cells by kind of shape

What a field asks of its cell, for each kind of shape, and what the value of a field looks like.
-/

namespace RecordTables

/-- A computation succeeds if its first step and all that follows do. -/
theorem Outcome.bind_eq_ok {α β : Type} {x : Outcome α} {f : α → Outcome β} {b : β} :
    x >>= f = .ok b ↔ ∃ a, x = .ok a ∧ f a = .ok b := by
  cases x with
  | error e =>
      constructor
      · intro h
        cases h
      · rintro ⟨a, ha, _⟩
        cases ha
  | ok a =>
      constructor
      · intro h
        exact ⟨a, rfl, h⟩
      · rintro ⟨_, ⟨⟩, h⟩
        exact h

/-- A computation fails with its first step, or with what follows. -/
theorem Outcome.bind_eq_error {α β : Type} {x : Outcome α} {f : α → Outcome β} {e : Error} :
    x >>= f = .error e ↔ x = .error e ∨ ∃ a, x = .ok a ∧ f a = .error e := by
  cases x with
  | error e' =>
      constructor
      · intro h
        cases h
        exact .inl rfl
      · rintro (h | ⟨a, ha, -⟩)
        · cases h
          rfl
        · cases ha
  | ok a =>
      constructor
      · exact fun h => .inr ⟨a, rfl, h⟩
      · rintro (h | ⟨a', ha, h⟩)
        · cases h
        · cases ha
          exact h

/-- What is made of a value fails only if there is no value. -/
theorem Outcome.map_eq_error {α β : Type} {x : Outcome α} {f : α → β} {e : Error} :
    (do return f (← x)) = (.error e : Outcome β) ↔ x = .error e := by
  rw [bind_eq_error]
  constructor
  · rintro (h | ⟨a, -, h⟩)
    · exact h
    · cases h
  · exact .inl

namespace Shape

variable {around : Shape} (cell : Cell)

theorem decodeField_bool : decodeField around cell .bool = (return .bool ((← cell.integer) != 0)) := rfl

theorem decodeField_int {type : IntType} (h : type.storable = true) :
    decodeField around cell (.int type) = (return .int type (← cell.integerOf type)) :=
  if_pos h

theorem decodeField_single : decodeField around cell .single = (return .single (← cell.real).narrow) := rfl

theorem decodeField_double : decodeField around cell .double = (return .double (← cell.real)) := rfl

theorem decodeField_char : decodeField around cell .char = (return .char (← cell.char)) := rfl

theorem decodeField_text : decodeField around cell .text = (return .text (← cell.text)) := rfl

theorem decodeField_bytes {name : TypeName} :
    decodeField around cell (.bytes name) = (return .bytes (← cell.bytes)) := rfl

theorem decodeField_option {content : Shape} :
    decodeField around cell (.option content) =
      if cell.value.isNull then .ok .absent else (return .present (← decodeField around cell content)) := rfl

theorem decodeField_box {content : Shape} :
    decodeField around cell (.box content) = decodeField around cell content := rfl

theorem decodeField_transparent {name : TypeName} {content : Shape} :
    decodeField around cell (.transparent name content) = decodeField around cell content := rfl

theorem decodeField_newtype {name : TypeName} {content : Shape} :
    decodeField around cell (.newtype name content) = (return .newtype (← decodeField around cell content)) := rfl

theorem decodeField_checked {name : TypeName} {content : Shape} {refusal : Datum → Option String} :
    decodeField around cell (.checked name content refusal) =
      (do (← decodeField around cell content).pass refusal) := rfl

theorem decodeField_guarded {name : TypeName} {content : Shape} {refusal : Datum → Option String} :
    decodeField around cell (.guarded name content refusal) =
      (return (← decodeField around cell content).presented refusal) := rfl

/-- A variant is told by its bare name, if the text is one. -/
theorem decodeField_choice {name : TypeName} {variants : List (String × Payload)} {column text : String} :
    decodeField around ⟨column, .text text⟩ (.choice name variants) =
      match variants.lookup text with
      | some payload => decodeBareVariant text payload
      | none => Cell.document ⟨column, .text text⟩ around (.choice name variants) := rfl

/-- Whether the field reads the document that its column holds. -/
def readsDocument : Shape → Bool
  | .unit _ => true
  | .list _ => true
  | .array _ _ => true
  | .tuple _ => true
  | .tupleStruct _ _ => true
  | .map _ _ => true
  | .record _ _ _ => true
  | .enclosing _ => true
  | .adjacent _ _ _ _ => true
  | _ => false

theorem decodeField_document {s : Shape} (h : s.readsDocument = true) :
    decodeField around cell s = cell.document around s := by
  cases s with
  | unit | list | array | tuple | tupleStruct | map | record | enclosing | adjacent => rfl
  | _ => cases h

end Shape

namespace Datum

/-- A check lets a value pass as it is. -/
theorem pass_eq_ok {refusal : Datum → Option String} {d e : Datum} :
    d.pass refusal = .ok e ↔ refusal d = none ∧ d = e := by
  unfold pass
  cases refusal d with
  | some why =>
      constructor
      · intro h
        cases h
      · rintro ⟨h, _⟩
        cases h
  | none =>
      constructor
      · intro h
        cases h
        exact ⟨rfl, rfl⟩
      · rintro ⟨_, rfl⟩
        rfl

/-- What is read through a check is what would be read without it, if the check lets it pass. -/
theorem bind_pass_eq_ok {x : Outcome Datum} {refusal : Datum → Option String} {d : Datum} :
    (x >>= fun e => e.pass refusal) = .ok d ↔ x = .ok d ∧ refusal d = none := by
  rw [Outcome.bind_eq_ok]
  constructor
  · rintro ⟨e, he, hpass⟩
    obtain ⟨hnone, rfl⟩ := pass_eq_ok.1 hpass
    exact ⟨he, hnone⟩
  · rintro ⟨hd, hnone⟩
    exact ⟨d, hd, pass_eq_ok.2 ⟨hnone, rfl⟩⟩

theorem pass_eq_error {refusal : Datum → Option String} {d : Datum} {e : Error} :
    d.pass refusal = .error e ↔ ∃ why, refusal d = some why ∧ e = .serialization (.refused why) := by
  unfold pass
  cases refusal d with
  | some why =>
      constructor
      · intro h
        cases h
        exact ⟨why, rfl, rfl⟩
      · rintro ⟨_, ⟨⟩, rfl⟩
        rfl
  | none =>
      constructor
      · intro h
        cases h
      · rintro ⟨_, h, _⟩
        cases h

/-- An integer has a value if it is one of eight bytes, and then it is the integer. -/
theorem encodeField_int {type : IntType} {n : Int} {v : Value} (h : encodeField (.int type n) = .ok v) :
    type.storable = true ∧ ∃ m : Int64, v = .int m ∧ m.toInt = n := by
  rw [encodeField] at h
  split at h
  · rename_i hstorable
    refine ⟨hstorable, ?_⟩
    unfold Value.ofInt? signedInteger? at h
    by_cases hrange : -signedBound ≤ n ∧ n < signedBound
    · rw [if_pos hrange] at h
      cases h
      refine ⟨Int64.ofInt n, rfl, ?_⟩
      unfold signedBound at hrange
      exact Int64.toInt_ofInt_of_le (by omega) (by omega)
    · rw [if_neg hrange] at h
      cases h
  · cases h

/-- Whatever is no scalar is stored as the text of its document. -/
theorem documentText_ok {d : Datum} {v : Value} (h : d.documentText = .ok v) :
    ∃ doc, d.document? = some doc ∧ v = .text doc.text := by
  unfold documentText at h
  split at h
  · rename_i doc hdoc
    cases h
    exact ⟨doc, hdoc, rfl⟩
  · cases h

/-- Whether a datum is stored as the text of its document. -/
def isCompound : Datum → Bool
  | .unit => true
  | .list _ => true
  | .map _ => true
  | .record _ => true
  | .variant _ _ => true
  | _ => false

theorem encodeField_compound {d : Datum} (h : d.isCompound = true) : d.encodeField = d.documentText := by
  cases d with
  | unit | list | map | record | variant => rfl
  | _ => cases h

end Datum

end RecordTables
