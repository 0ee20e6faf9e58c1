import RecordTables.Record.Read

/-!
# The reader of documents, kind by kind

What `readLevels` does for each kind of type, as one equation each, so that no other proof has to unfold the reader.
A scalar and a wrapper enter no level; a compound enters one, and its parts are read with one level less.
-/

namespace RecordTables.Shape

open RecordTables.Json (Document Piece)

section

variable {levels : Nat} {around content item key value : Shape} {name : TypeName} {doc : Document}
  {shapes : List Shape} {fields : List (Field × Shape)} {variants : List (String × Payload)}
  {items : List Document} {entries : List (List Piece × Document)} {pieces : List Piece}

/-! ## Scalars -/

theorem readLevels_bool (b : Bool) : readLevels levels around .bool (.bool b) = some (.bool b) := by
  cases levels <;> rfl

theorem readLevels_int (type : IntType) (n : Json.Number) :
    readLevels levels around (.int type) (.number n) = (type.read? n).map (.int type) := by
  cases levels <;> rfl

theorem readLevels_char :
    readLevels levels around .char (.string pieces) =
      (Piece.chars? pieces).bind fun cs => (onlyChar? cs).map .char := by
  cases levels <;> rfl

theorem readLevels_text :
    readLevels levels around .text (.string pieces) = (Piece.text? pieces).map .text := by
  cases levels <;> rfl

theorem readLevels_single (n : Json.Number) :
    readLevels levels around .single (.number n) = n.single?.map .single := by
  cases levels <;> rfl

theorem readLevels_double (n : Json.Number) :
    readLevels levels around .double (.number n) = n.double?.map .double := by
  cases levels <;> rfl

theorem readLevels_label :
    readLevels levels around (.label name) (.string pieces) = (Piece.text? pieces).map .text := by
  cases levels <;> rfl

theorem readLevels_ignored :
    readLevels levels around (.ignored name) doc = if doc.skippable then some .unit else none := by
  cases levels <;> rfl

theorem readLevels_untagged {alternatives : List Scalar} :
    readLevels levels around (.untagged name alternatives) doc = readUntagged? alternatives doc := by
  cases levels <;> cases doc <;> rfl

theorem readLevels_unit : readLevels levels around (.unit name) .null = some .unit := by
  cases levels <;> rfl

theorem readLevels_bytes :
    readLevels (levels + 1) around (.bytes name) (.array items) =
      (byteItems? items).map fun bs => .bytes ⟨bs.toArray⟩ := rfl

/-! ## Wrappers -/

theorem readLevels_null : readLevels levels around (.option content) .null = some .absent := by
  cases levels <;> rfl

theorem readLevels_option (hdoc : doc ≠ .null) :
    readLevels levels around (.option content) doc = (readLevels levels around content doc).map .present := by
  cases doc with
  | null => exact absurd rfl hdoc
  | _ => cases levels <;> rfl

theorem readLevels_box :
    readLevels levels around (.box content) doc = readLevels levels around content doc := by
  cases levels <;> rfl

theorem readLevels_transparent :
    readLevels levels around (.transparent name content) doc = readLevels levels around content doc := by
  cases levels <;> rfl

theorem readLevels_newtype :
    readLevels levels around (.newtype name content) doc =
      (readLevels levels around content doc).map .newtype := by
  cases levels <;> rfl

theorem readLevels_checked {refusal : Datum → Option String} :
    readLevels levels around (.checked name content refusal) doc =
      (readLevels levels around content doc).bind fun d => if (refusal d).isSome then none else some d := by
  cases levels <;> rfl

theorem readLevels_guarded {refusal : Datum → Option String} :
    readLevels levels around (.guarded name content refusal) doc =
      (readLevels levels around content doc).map (Datum.presented refusal) := by
  cases levels <;> rfl

/-! ## Documents of the most general type -/

theorem readLevels_anyNull : readLevels levels around (.anything name) .null = some .unit := by
  cases levels <;> rfl

theorem readLevels_anyBool (b : Bool) : readLevels levels around (.anything name) (.bool b) = some (.bool b) := by
  cases levels <;> rfl

theorem readLevels_anyNumber (n : Json.Number) :
    readLevels levels around (.anything name) (.number n) = generalNumber? n := by
  cases levels <;> rfl

theorem readLevels_anyString :
    readLevels levels around (.anything name) (.string pieces) = (Piece.text? pieces).map .text := by
  cases levels <;> rfl

theorem readLevels_anyArray :
    readLevels (levels + 1) around (.anything name) (.array items) =
      (items.mapM (readLevels levels around (.anything name))).map .list := rfl

theorem readLevels_anyObject :
    readLevels (levels + 1) around (.anything name) (.object entries) =
      readEntries? (fun k => (Piece.text? k).map .text) (readLevels levels around (.anything name)) entries := rfl

/-! ## Compounds -/

theorem readLevels_list :
    readLevels (levels + 1) around (.list item) (.array items) =
      (items.mapM (readLevels levels around item)).map .list := rfl

theorem readLevels_array {length : Nat} :
    readLevels (levels + 1) around (.array item length) (.array items) =
      if items.length = length then (items.mapM (readLevels levels around item)).map .list else none := rfl

theorem readLevels_tuple :
    readLevels (levels + 1) around (.tuple shapes) (.array items) =
      if items.length = shapes.length then
        ((shapes.zip items).mapM fun (s, d) => readLevels levels around s d).map .list
      else none := rfl

theorem readLevels_tupleStruct :
    readLevels (levels + 1) around (.tupleStruct name shapes) (.array items) =
      if items.length = shapes.length then
        ((shapes.zip items).mapM fun (s, d) => readLevels levels around s d).map .list
      else none := rfl

theorem readLevels_map :
    readLevels (levels + 1) around (.map key value) (.object entries) =
      readEntries? (fun k => readKey? k key) (readLevels levels around value) entries := rfl

theorem readLevels_record {strict : Bool} :
    readLevels (levels + 1) around (.record name strict fields) doc =
      readRecord? (readLevels levels (.record name strict fields)) strict fields doc := rfl

/-- A recursive type is read as the record around it. -/
theorem readLevels_enclosing {strict : Bool} {other : TypeName} :
    readLevels levels (.record name strict fields) (.enclosing other) doc =
      readLevels levels (.record name strict fields) (.record name strict fields) doc := by
  cases levels <;> rfl

theorem readLevels_bareVariant :
    readLevels levels around (.choice name variants) (.string pieces) = readBareVariant? variants pieces := by
  cases levels <;> rfl

theorem readLevels_choice :
    readLevels (levels + 1) around (.choice name variants) (.object entries) =
      readChoice? (readLevels levels around) name variants (.object entries) := rfl

theorem readLevels_flattened :
    readLevels (levels + 1) around (.flattened name fields) (.object entries) =
      (objectFields (readLevels levels around)
        (fun d => (readLevels levels around (.anything name) d).isSome) fields entries).map
        fun values => .map (values.map fun p => (.text p.1, p.2)) := rfl

theorem readLevels_tagged {tag : String} :
    readLevels (levels + 1) around (.tagged name tag variants) doc =
      readTagged? (readLevels levels around) name tag variants doc := rfl

theorem readLevels_adjacent {tag content : String} :
    readLevels (levels + 1) around (.adjacent name tag content variants) doc =
      readAdjacent? (readLevels levels around) name tag content variants doc := rfl

end

end RecordTables.Shape
