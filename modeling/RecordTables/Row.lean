import RecordTables.Error

/-!
# Rows

A row is an ordered dictionary: column names are distinct, and an entry keeps the place of its first `set` until
it is removed.  The distinctness is a field of the type, so that every lookup is well defined.
-/

namespace RecordTables

/-- The columns of one row, in order. -/
structure Row where
  entries : List (String × Value)
  distinct : (entries.map Prod.fst).Nodup := by simp

namespace Row

def empty : Row := { entries := [] }

instance : Inhabited Row := ⟨empty⟩

def names (row : Row) : List String := row.entries.map Prod.fst

def values (row : Row) : List Value := row.entries.map Prod.snd

def size (row : Row) : Nat := row.entries.length

def isEmpty (row : Row) : Bool := row.entries.isEmpty

/-- The value under a name. -/
def get? (row : Row) (name : String) : Option Value := row.entries.lookup name

/-- Replaces the value under a name in place, or appends a new entry. -/
def setEntry (name : String) (value : Value) : List (String × Value) → List (String × Value)
  | [] => [(name, value)]
  | (n, v) :: rest => if n = name then (name, value) :: rest else (n, v) :: setEntry name value rest

theorem map_fst_setEntry (name : String) (value : Value) (entries : List (String × Value)) :
    (setEntry name value entries).map Prod.fst =
      if name ∈ entries.map Prod.fst then entries.map Prod.fst else entries.map Prod.fst ++ [name] := by
  induction entries with
  | nil => simp [setEntry]
  | cons e rest ih =>
      obtain ⟨n, v⟩ := e
      by_cases h : n = name
      · simp [setEntry, h]
      · have h' : ¬ name = n := fun e => h e.symm
        by_cases hm : name ∈ rest.map Prod.fst
        · rw [if_pos hm] at ih
          rw [if_pos (by simp [hm])]
          simp only [setEntry, if_neg h, List.map_cons, ih]
        · rw [if_neg hm] at ih
          rw [if_neg (by simp only [List.map_cons, List.mem_cons]; exact fun e => e.elim h' hm)]
          simp only [setEntry, if_neg h, List.map_cons, ih, List.cons_append]

theorem nodup_setEntry (name : String) (value : Value) {entries : List (String × Value)}
    (h : (entries.map Prod.fst).Nodup) : ((setEntry name value entries).map Prod.fst).Nodup := by
  rw [map_fst_setEntry]
  split
  · exact h
  · rename_i hm
    exact List.nodup_append.2 ⟨h, by simp, fun a ha b hb => by
      simp only [List.mem_singleton] at hb
      exact fun e => hm (hb ▸ e ▸ ha)⟩

theorem lookup_cons_of_ne {n other : String} (h : other ≠ n) (v : Value) (rest : List (String × Value)) :
    ((n, v) :: rest).lookup other = rest.lookup other := by
  simp [List.lookup_cons, beq_eq_false_iff_ne.2 h]

theorem lookup_setEntry (name other : String) (value : Value) (entries : List (String × Value)) :
    (setEntry name value entries).lookup other =
      if other = name then some value else entries.lookup other := by
  induction entries with
  | nil =>
      by_cases h : other = name
      · simp [setEntry, h]
      · simp [setEntry, lookup_cons_of_ne h, h]
  | cons e rest ih =>
      obtain ⟨n, v⟩ := e
      by_cases hn : n = name
      · subst hn
        by_cases h : other = n
        · simp [setEntry, h]
        · simp [setEntry, lookup_cons_of_ne h, h]
      · by_cases h : other = n
        · subst h
          simp [setEntry, hn]
        · simp only [setEntry, if_neg hn, lookup_cons_of_ne h, ih]

/-- Sets the value under a name; a name that is there keeps its place. -/
def set (row : Row) (name : String) (value : Value) : Row :=
  ⟨setEntry name value row.entries, nodup_setEntry name value row.distinct⟩

theorem get?_set (row : Row) (name other : String) (value : Value) :
    (row.set name value).get? other = if other = name then some value else row.get? other :=
  lookup_setEntry name other value row.entries

theorem names_set (row : Row) (name : String) (value : Value) :
    (row.set name value).names = if name ∈ row.names then row.names else row.names ++ [name] :=
  map_fst_setEntry name value row.entries

/-- The row without the entry under a name. -/
def erase (row : Row) (name : String) : Row :=
  ⟨row.entries.filter (·.1 != name),
    List.Nodup.sublist ((List.filter_sublist).map Prod.fst) row.distinct⟩

/-- The value under a name, and the row without it. -/
def remove (row : Row) (name : String) : Option Value × Row := (row.get? name, row.erase name)

/-- Sets entries one after the other. -/
def extend (row : Row) (entries : List (String × Value)) : Row :=
  entries.foldl (fun r (name, value) => r.set name value) row

/-- Collects a row from entries. -/
def ofList (entries : List (String × Value)) : Row := empty.extend entries

/-- Equality of entries in order, in which real numbers compare as numbers. -/
def same (a b : Row) : Bool :=
  a.size == b.size &&
    (a.entries.zip b.entries).all fun (x, y) => x.1 == y.1 && x.2.same y.2

end Row

end RecordTables
