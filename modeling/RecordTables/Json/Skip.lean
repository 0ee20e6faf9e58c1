import RecordTables.Json.Document

/-!
# Skipped documents

What a type does not know is skipped.  Skipping asks less than reading: numbers may be of any size and strings may
hold halves of pairs or stray bytes, and the nesting is not counted; only bare control characters are refused.
-/

namespace RecordTables.Json

mutual

/-- Whether a document may be skipped. -/
def Document.skippable : Document → Bool
  | .string pieces => Piece.skippable pieces
  | .array items => skippableItems items
  | .object entries => skippableEntries entries
  | _ => true

def skippableItems : List Document → Bool
  | [] => true
  | d :: rest => d.skippable && skippableItems rest

def skippableEntries : List (List Piece × Document) → Bool
  | [] => true
  | (key, d) :: rest => Piece.skippable key && d.skippable && skippableEntries rest

end

end RecordTables.Json
