import Mathlib.Data.List.Induction
import RecordTables.Proofs.Record.Rows
import RecordTables.Proofs.Schema.Parts
import RecordTables.Row

/-!
# Rows are ordered dictionaries

Whatever is set in a row and removed from it, a name has the value that was set last, unless it was removed since, and
the names stand in the order in which they were first set since they were last removed.  So a row is known by its
history alone, and its parts put together again are the row.
-/

namespace RecordTables

/-! ## First occurrences -/

theorem eraseDups_snoc (names : List String) (n : String) :
    (names ++ [n]).eraseDups = if n ∈ names then names.eraseDups else names.eraseDups ++ [n] := by
  have hsingle : [n].eraseDups = [n] := List.eraseDups_cons
  rw [List.eraseDups_append]
  by_cases h : n ∈ names
  · rw [if_pos h]
    simp [List.removeAll, h]
  · rw [if_neg h]
    simp [List.removeAll, h, hsingle]

theorem eraseDups_filter (keep : String → Bool) (names : List String) :
    (names.filter keep).eraseDups = names.eraseDups.filter keep := by
  induction names using List.reverseRecOn with
  | nil => rfl
  | append_singleton names n ih =>
      by_cases hkeep : keep n = true
      · rw [List.filter_append, List.filter_cons_of_pos hkeep, List.filter_nil, eraseDups_snoc, eraseDups_snoc, ih]
        by_cases hmem : n ∈ names
        · rw [if_pos hmem, if_pos (List.mem_filter.2 ⟨hmem, hkeep⟩)]
        · rw [if_neg hmem, if_neg fun h => hmem (List.mem_of_mem_filter h), List.filter_append,
            List.filter_cons_of_pos hkeep, List.filter_nil]
      · rw [List.filter_append, List.filter_cons_of_neg hkeep, List.filter_nil, List.append_nil, ih, eraseDups_snoc]
        split
        · rfl
        · rw [List.filter_append, List.filter_cons_of_neg hkeep, List.filter_nil, List.append_nil]

namespace Row

/-! ## Histories -/

/-- A change of a row: the value that is set under a name, or none where the name is removed. -/
abbrev Change := String × Option Value

/-- What the last change under a name left there. -/
def lastValue (history : List Change) (name : String) : Option Value := (history.reverse.lookup name).join

/-- The names of the sets that no removal of the name follows, in order. -/
def lasting : List Change → List String
  | [] => []
  | (_, none) :: later => lasting later
  | (n, some _) :: later => if (n, none) ∈ later then lasting later else n :: lasting later

theorem lastValue_snoc (history : List Change) (c : Change) (name : String) :
    lastValue (history ++ [c]) name = if name = c.1 then c.2 else lastValue history name := by
  rw [lastValue, List.reverse_append, List.reverse_singleton, List.singleton_append, lookup_cons_eq]
  split <;> rfl

theorem lasting_snoc_set (history : List Change) (n : String) (value : Value) :
    lasting (history ++ [(n, some value)]) = lasting history ++ [n] := by
  induction history with
  | nil => rfl
  | cons c later ih =>
      obtain ⟨m, _ | w⟩ := c
      · exact ih
      · have hremoved : (m, none) ∈ later ++ [(n, some value)] ↔ (m, none) ∈ later := by simp
        simp only [List.cons_append, lasting, hremoved, ih]
        split <;> rfl

theorem lasting_snoc_removed (history : List Change) (n : String) :
    lasting (history ++ [(n, none)]) = (lasting history).filter (· != n) := by
  induction history with
  | nil => rfl
  | cons c later ih =>
      obtain ⟨m, _ | w⟩ := c
      · exact ih
      · have hremoved : (m, none) ∈ later ++ [(n, none)] ↔ (m, none) ∈ later ∨ m = n := by simp
        simp only [List.cons_append, lasting, hremoved, ih]
        by_cases hmem : (m, none) ∈ later
        · rw [if_pos (.inl hmem), if_pos hmem]
        · rw [if_neg hmem]
          by_cases hname : m = n
          · rw [if_pos (.inr hname), List.filter_cons_of_neg (by simpa using hname)]
          · rw [if_neg (not_or.2 ⟨hmem, hname⟩), List.filter_cons_of_pos (by simpa using hname)]

/-! ## Removals -/

variable {row : Row} {name : String} {value : Value}

/-- A row is no more than its entries. -/
theorem eq_of_entries {row row' : Row} (h : row.entries = row'.entries) : row = row' := by
  cases row
  cases row'
  cases h
  rfl

theorem names_erase : (row.erase name).names = row.names.filter (· != name) := by
  rw [names, names, erase, List.filter_map]
  rfl

theorem get?_erase_self : (row.erase name).get? name = none := by
  rw [get?_eq_none, names_erase]
  simp

theorem get?_erase_of_ne {name other : String} (h : other ≠ name) : (row.erase name).get? other = row.get? other := by
  unfold get? erase
  dsimp only
  induction row.entries with
  | nil => rfl
  | cons e rest ih =>
      obtain ⟨n, v⟩ := e
      by_cases hn : n = name
      · subst hn
        rw [List.filter_cons_of_neg (by simp), ih, lookup_cons_of_ne h]
      · rw [List.filter_cons_of_pos (by simpa using hn), List.lookup_cons, List.lookup_cons, ih]

theorem erase_of_get?_eq_none (h : row.get? name = none) : row.erase name = row := by
  rw [get?_eq_none] at h
  apply eq_of_entries
  refine List.filter_eq_self.2 fun e he => ?_
  rw [bne_iff_ne]
  rintro rfl
  exact h (List.mem_map_of_mem he)

/-- The one entry under a name is taken out of its place. -/
theorem exists_split_of_get? (h : row.get? name = some value) :
    ∃ before after, row.entries = before ++ (name, value) :: after ∧ (row.erase name).entries = before ++ after := by
  obtain ⟨before, after, hsplit, -⟩ := List.lookup_eq_some_iff.1 h
  refine ⟨before, after, hsplit, ?_⟩
  have hdistinct := row.distinct
  rw [hsplit, List.map_append, List.map_cons, List.nodup_middle, List.nodup_cons, ← List.map_append] at hdistinct
  have hothers : ∀ e ∈ before ++ after, (e.1 != name) = true := by
    intro e he
    rw [bne_iff_ne]
    intro hname
    exact hdistinct.1 (List.mem_map.2 ⟨e, he, hname⟩)
  show row.entries.filter _ = _
  rw [hsplit, List.filter_append, List.filter_cons_of_neg (by simp), ← List.filter_append,
    List.filter_eq_self.2 hothers]

/-! ## Collecting -/

theorem setEntry_of_not_mem {entries : List (String × Value)} (h : name ∉ entries.map Prod.fst) :
    setEntry name value entries = entries ++ [(name, value)] := by
  induction entries with
  | nil => rfl
  | cons e rest ih =>
      rw [List.map_cons, List.mem_cons, not_or] at h
      rw [setEntry, if_neg (Ne.symm h.1), ih h.2]
      rfl

/-- Entries under new and distinct names are appended. -/
theorem entries_extend {row : Row} {entries : List (String × Value)} (hdistinct : (entries.map Prod.fst).Nodup)
    (hnew : ∀ e ∈ entries, e.1 ∉ row.names) : (row.extend entries).entries = row.entries ++ entries := by
  induction entries generalizing row with
  | nil => exact (List.append_nil _).symm
  | cons e rest ih =>
      obtain ⟨n, v⟩ := e
      rw [List.map_cons, List.nodup_cons] at hdistinct
      rw [List.forall_mem_cons] at hnew
      have hset : (row.set n v).entries = row.entries ++ [(n, v)] := setEntry_of_not_mem hnew.1
      have hrest : ∀ e ∈ rest, e.1 ∉ (row.set n v).names := by
        intro e he
        rw [names_set, if_neg hnew.1, List.mem_append, List.mem_singleton, not_or]
        exact ⟨hnew.2 e he, fun hname => hdistinct.1 (List.mem_map.2 ⟨e, he, hname⟩)⟩
      show ((row.set n v).extend rest).entries = _
      rw [ih hdistinct.2 hrest, hset, List.append_assoc]
      rfl

/-- The entries of a row make the row again. -/
theorem ofList_entries (row : Row) : ofList row.entries = row := by
  apply eq_of_entries
  rw [ofList, entries_extend row.distinct fun _ _ => List.not_mem_nil]
  rfl

theorem extend_append (row : Row) (entries further : List (String × Value)) :
    row.extend (entries ++ further) = (row.extend entries).extend further := List.foldl_append

theorem zip_names_values (row : Row) : row.names.zip row.values = row.entries := by
  rw [names, values, List.zip_map', List.map_id'']
  intro e
  rfl

theorem map_get?_names (row : Row) : row.names.map row.get? = row.values.map some := by
  rw [names, values, List.map_map, List.map_map]
  exact List.map_congr_left fun e he => lookup_of_mem row.distinct he

/-! ## Steps -/

def change (row : Row) (c : Change) : Row :=
  match c.2 with
  | some value => row.set c.1 value
  | none => (row.remove c.1).2

/-- The row after changes, the first of which finds it empty. -/
def replay (history : List Change) : Row := history.foldl change empty

theorem replay_snoc (history : List Change) (c : Change) : replay (history ++ [c]) = (replay history).change c := by
  rw [replay, List.foldl_append]
  rfl

theorem get?_change (row : Row) (c : Change) (name : String) :
    (row.change c).get? name = if name = c.1 then c.2 else row.get? name := by
  obtain ⟨n, _ | value⟩ := c
  · show (row.erase n).get? name = _
    split
    · rename_i h
      rw [h, get?_erase_self]
    · rename_i h
      exact get?_erase_of_ne h
  · exact get?_set row n name value

/-- A name has the value that the last change under it left there. -/
theorem get?_replay (history : List Change) (name : String) : (replay history).get? name = lastValue history name := by
  induction history using List.reverseRecOn with
  | nil => rfl
  | append_singleton history c ih => rw [replay_snoc, get?_change, lastValue_snoc, ih]

/-- The names are those that last, each where it was set first. -/
theorem names_replay (history : List Change) : (replay history).names = (lasting history).eraseDups := by
  induction history using List.reverseRecOn with
  | nil => rfl
  | append_singleton history c ih =>
      obtain ⟨n, _ | value⟩ := c
      · rw [replay_snoc, lasting_snoc_removed, eraseDups_filter, ← ih]
        exact names_erase
      · rw [replay_snoc, lasting_snoc_set, eraseDups_snoc, ← ih]
        have hmem : n ∈ lasting history ↔ n ∈ (replay history).names := by rw [ih, List.mem_eraseDups]
        rw [if_congr hmem rfl rfl]
        exact names_set ..

/-- What is done to a row. -/
inductive RowStep where
  | set (name : String) (value : Value)
  | remove (name : String)
  /-- The entries are collected into a row anew, with further ones behind them. -/
  | collect (further : List (String × Value))

/-- What a step changes.  Collecting sets the further entries; those that are there already stay as they are. -/
def RowStep.changes : RowStep → List Change
  | .set name value => [(name, some value)]
  | .remove name => [(name, none)]
  | .collect further => further.map fun e => (e.1, some e.2)

def apply (row : Row) : RowStep → Row
  | .set name value => row.set name value
  | .remove name => (row.remove name).2
  | .collect further => ofList (row.entries ++ further)

/-- The row after steps, one after the other. -/
def perform (row : Row) (steps : List RowStep) : Row := steps.foldl apply row

/-- What a row was collected from and what was done to it since. -/
def history (entries : List (String × Value)) (steps : List RowStep) : List Change :=
  (RowStep.collect entries).changes ++ steps.flatMap RowStep.changes

theorem foldl_change_collect (row : Row) (further : List (String × Value)) :
    (RowStep.collect further).changes.foldl change row = row.extend further := by
  rw [RowStep.changes, List.foldl_map]
  rfl

/-- A step changes a row as its changes do one by one. -/
theorem apply_eq_foldl (row : Row) (step : RowStep) : row.apply step = step.changes.foldl change row := by
  cases step with
  | set name value => rfl
  | remove name => rfl
  | collect further =>
      rw [foldl_change_collect]
      show ofList (row.entries ++ further) = _
      rw [ofList, extend_append, ← ofList, ofList_entries]

theorem perform_eq_foldl (row : Row) (steps : List RowStep) :
    row.perform steps = (steps.flatMap RowStep.changes).foldl change row := by
  induction steps generalizing row with
  | nil => rfl
  | cons step rest ih =>
      rw [List.flatMap_cons, List.foldl_append, ← apply_eq_foldl, ← ih]
      rfl

theorem perform_eq_replay (entries : List (String × Value)) (steps : List RowStep) :
    (ofList entries).perform steps = replay (history entries steps) := by
  rw [perform_eq_foldl, replay, history, List.foldl_append, foldl_change_collect]
  rfl

/-- A row that is the ordered dictionary of a history. -/
structure Dictionary (history : List Change) (row : Row) : Prop where
  distinct : row.names.Nodup
  /-- A name has the value that was set last, if it was not removed since. -/
  value : ∀ name, row.get? name = lastValue history name
  /-- The names that are there stand in the order in which they were first set since they were last removed. -/
  names : row.names = (lasting history).eraseDups
  /-- A removal gives the value that was there and leaves the other entries in their places. -/
  removed : ∀ name value, lastValue history name = some value → ∃ before after,
    row.entries = before ++ (name, value) :: after ∧ (row.remove name).1 = some value ∧
      (row.remove name).2.entries = before ++ after
  notRemoved : ∀ name, lastValue history name = none → row.remove name = (none, row)
  size : row.size = (lasting history).eraseDups.length
  isEmpty : row.isEmpty = true ↔ ∀ name, lastValue history name = none
  /-- The parts of a row are its names and, at the same places, their values. -/
  parts : row.entries.unzip = (row.names, row.values) ∧ row.values.map some = row.names.map (lastValue history)
  collected : ofList (row.names.zip row.values) = row

/-- Whatever a row is collected from and whatever is done to it then, it is the ordered dictionary of all that. -/
theorem dictionary_perform (entries : List (String × Value)) (steps : List RowStep) :
    Dictionary (history entries steps) ((ofList entries).perform steps) := by
  rw [perform_eq_replay]
  generalize history entries steps = history
  have hvalue := get?_replay history
  refine
    { distinct := (replay history).distinct
      value := hvalue
      names := names_replay history
      removed := fun name value h => ?_
      notRemoved := fun name h => ?_
      size := ?_
      isEmpty := ?_
      parts := ⟨List.unzip_eq_map, ?_⟩
      collected := ?_ }
  · rw [← hvalue] at h
    obtain ⟨before, after, hsplit, herase⟩ := exists_split_of_get? h
    exact ⟨before, after, hsplit, h, herase⟩
  · rw [← hvalue] at h
    exact Prod.ext h (erase_of_get?_eq_none h)
  · rw [← names_replay, size, names, List.length_map]
  · simp only [← hvalue, get?_eq_none, ← List.eq_nil_iff_forall_not_mem, names, List.map_eq_nil_iff, isEmpty,
      List.isEmpty_iff]
  · rw [← map_get?_names]
    exact List.map_congr_left fun name _ => hvalue name
  · rw [zip_names_values, ofList_entries]

/-- A name that is set again stays in its place; one that was removed comes last. -/
example : ((ofList [("a", .int 1), ("b", .int 2), ("a", .int 3)]).perform [.remove "a", .set "a" .null]).entries =
    [("b", .int 2), ("a", .null)] := by
  decide

end Row

end RecordTables
