/-!
# Ascending lists

Lists in strictly ascending order of a text key serve as finite maps and sets.  The order of texts is that of
their code points, which is also the order of their UTF-8 bytes.
-/

namespace RecordTables

variable {α : Type}

/-- Inserts by key; an element with the same key is replaced. -/
def insertBy (key : α → String) (x : α) : List α → List α
  | [] => [x]
  | y :: rest =>
      if key x < key y then x :: y :: rest
      else if key x = key y then x :: rest
      else y :: insertBy key x rest

/-- The elements in ascending order of their keys, of each key the last. -/
def ascendingBy (key : α → String) (xs : List α) : List α := xs.foldl (fun acc x => insertBy key x acc) []

/-- The distinct texts of a list in ascending order. -/
def ascending (names : List String) : List String := ascendingBy id names

theorem mem_insertBy_imp {key : α → String} {x y : α} {xs : List α} (h : y ∈ insertBy key x xs) :
    y = x ∨ y ∈ xs := by
  induction xs with
  | nil => simpa [insertBy] using h
  | cons z rest ih =>
      unfold insertBy at h
      split at h
      · simpa using h
      · split at h
        · rcases List.mem_cons.1 h with h | h
          · exact .inl h
          · exact .inr (List.mem_cons_of_mem _ h)
        · rcases List.mem_cons.1 h with h | h
          · exact .inr (h ▸ List.mem_cons_self)
          · exact (ih h).imp id (List.mem_cons_of_mem _)

theorem lt_of_not_lt_of_ne {a b : String} (h : ¬ a < b) (hne : a ≠ b) : b < a := by
  apply Decidable.byContradiction
  intro hba
  exact hne (String.le_antisymm (String.not_lt.1 hba) (String.not_lt.1 h))

theorem pairwise_insertBy {key : α → String} (x : α) {xs : List α}
    (h : xs.Pairwise fun a b => key a < key b) :
    (insertBy key x xs).Pairwise fun a b => key a < key b := by
  induction xs with
  | nil => simp [insertBy]
  | cons y rest ih =>
      obtain ⟨hy, hrest⟩ := List.pairwise_cons.1 h
      unfold insertBy
      split
      · rename_i hlt
        refine List.pairwise_cons.2 ⟨fun z hz => ?_, h⟩
        rcases List.mem_cons.1 hz with rfl | hz
        · exact hlt
        · exact String.lt_trans hlt (hy z hz)
      · split
        · rename_i heq
          exact List.pairwise_cons.2 ⟨fun z hz => heq ▸ hy z hz, hrest⟩
        · rename_i hnlt hne
          refine List.pairwise_cons.2 ⟨fun z hz => ?_, ih hrest⟩
          rcases mem_insertBy_imp hz with rfl | hz
          · exact lt_of_not_lt_of_ne hnlt hne
          · exact hy z hz

theorem pairwise_ascendingBy (key : α → String) (xs : List α) :
    (ascendingBy key xs).Pairwise fun a b => key a < key b := by
  suffices ∀ acc : List α, acc.Pairwise (fun a b => key a < key b) →
      (xs.foldl (fun acc x => insertBy key x acc) acc).Pairwise fun a b => key a < key b from
    this [] List.Pairwise.nil
  induction xs with
  | nil => exact fun _ h => h
  | cons x rest ih => exact fun acc h => ih _ (pairwise_insertBy x h)

end RecordTables
