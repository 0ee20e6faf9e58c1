import RecordTables.Gallery.Records
import RecordTables.Proofs.Record.Choices
import RecordTables.Proofs.Record.Contents
import RecordTables.Proofs.Record.Rows

/-!
# The columns that a row is read by

Reading a row asks for the columns that the type declares, one after the other, and for nothing else.  So two rows
that agree on these columns are read alike, and a row that is not read has a first column that is absent or holds
something that its field does not take; the error is the one of this column.  What remains is the check of a type
that looks at the whole record, which comes last.
-/

namespace RecordTables

/-! ## One column -/

section Columns

variable {α : Type} {row other : Row} {column : String} {read : Cell → Outcome α} {a : α} {e : Error}

/-- A row has a column whose value is read. -/
def Holds (row : Row) (column : String) (read : Cell → Outcome α) (a : α) : Prop :=
  ∃ v, row.get? column = some v ∧ read ⟨column, v⟩ = .ok a

/-- What is wrong with a column: it is absent, or its value is not read. -/
inductive Fault (row : Row) (column : String) (read : Cell → Outcome α) : Error → Prop
  | absent (h : row.get? column = none) : Fault row column read (.columnNotFound column)
  | unread {v : Value} {e : Error} (h : row.get? column = some v) (hread : read ⟨column, v⟩ = .error e) :
      Fault row column read e

theorem Fault.absent_iff (h : Fault row column read e) (hread : ∀ cell, (read cell).OnContent) (name : String) :
    e = .columnNotFound name ↔ row.get? column = none ∧ column = name := by
  cases h with
  | absent hnone =>
      rw [Error.columnNotFound.injEq]
      exact ⟨fun heq => ⟨hnone, heq⟩, And.right⟩
  | unread hsome herror =>
      constructor
      · intro heq
        have hcontent := hread _ e herror
        rw [heq] at hcontent
        cases hcontent
      · rintro ⟨hnone, -⟩
        rw [hnone] at hsome
        cases hsome

namespace Shape

/-- Asking for the cell of a column. -/
theorem cellOf_congr (h : row.get? column = other.get? column) : cellOf row column = cellOf other column := by
  unfold cellOf
  rw [h]

theorem cellOf_bind_ok : cellOf row column >>= read = .ok a ↔ Holds row column read a := by
  unfold cellOf Holds
  cases row.get? column with
  | none =>
      constructor
      · intro h
        cases h
      · rintro ⟨v, hv, -⟩
        cases hv
  | some v =>
      constructor
      · exact fun h => ⟨v, rfl, h⟩
      · rintro ⟨_, ⟨⟩, h⟩
        exact h

theorem cellOf_bind_error : cellOf row column >>= read = .error e ↔ Fault row column read e := by
  unfold cellOf
  cases hcell : row.get? column with
  | none =>
      constructor
      · intro h
        cases h
        exact .absent hcell
      · intro h
        cases h with
        | absent => rfl
        | unread hsome =>
            rw [hcell] at hsome
            cases hsome
  | some v =>
      constructor
      · exact fun h => .unread hcell h
      · intro h
        cases h with
        | absent hnone =>
            rw [hcell] at hnone
            cases hnone
        | unread hsome hread =>
            rw [hcell] at hsome
            cases hsome
            exact hread

end Shape

end Columns

namespace Shape

variable {row other : Row} {column : String} {e : Error}

/-! ## What the row is asked for -/

/-- The names of the columns that rows of a type are read by, in the order of declaration. -/
def declaredColumns (s : Shape) : List String :=
  match s.rowShape with
  | .record _ _ fields => fields.flatMap fun p => p.1.names
  | .adjacent _ tag content _ => [tag, content]
  | _ => []

/-- The reason for which a type refuses a whole record; what is inside looks at it first. -/
def rowRefusal : Shape → Datum → Option String
  | .box s, d => s.rowRefusal d
  | .transparent _ s, d => s.rowRefusal d
  | .checked _ s refusal, d => (s.rowRefusal d).or (refusal d)
  | _, _ => none

/-- Two checks one after the other are one check. -/
theorem pass_bind_pass (first second : Datum → Option String) (d : Datum) :
    (d.pass first >>= Datum.pass second) = d.pass fun d => (first d).or (second d) := by
  unfold Datum.pass
  dsimp only
  cases first d with
  | none => rfl
  | some why => rfl

/-- Rows are read by the shape of rows, and the checks come last. -/
theorem decodeRow_eq_pass (row : Row) (s : Shape) :
    decodeRow row s = decodeRow row s.rowShape >>= Datum.pass s.rowRefusal := by
  induction s using rowShape.induct with
  | case1 s ih => exact ih
  | case2 name s ih => exact ih
  | case3 name s refusal ih =>
      show (decodeRow row s >>= Datum.pass refusal) = _
      rw [ih, bind_assoc]
      exact congrArg (decodeRow row s.rowShape >>= ·) (funext (pass_bind_pass s.rowRefusal refusal))
  | case4 s hbox htransparent hchecked =>
      have hnone : s.rowRefusal = fun _ => none := by
        funext d
        rw [rowRefusal]
        · exact hbox
        · exact htransparent
        · exact hchecked
      have hpass : Datum.pass s.rowRefusal = Except.ok := by
        rw [hnone]
        rfl
      rw [rowShape_eq_self hbox htransparent hchecked, hpass]
      exact (bind_pure _).symm

/-- A field asks for the columns of its names alone. -/
theorem decodeFields_congr {around : Shape} {fields : List (Field × Shape)}
    (h : ∀ p ∈ fields, ∀ name ∈ p.1.names, row.get? name = other.get? name) :
    decodeFields around row fields = decodeFields around other fields := by
  induction fields with
  | nil => rfl
  | cons p rest ih =>
      obtain ⟨f, s⟩ := p
      have hfirst : ∀ name ∈ f.names, cellOf row name = cellOf other name := fun name hname =>
        cellOf_congr (h (f, s) (List.mem_cons_self ..) name hname)
      rw [decodeFields, decodeFields, ih fun p hp => h p (List.mem_cons_of_mem _ hp)]
      cases hconstant : f.constant with
      | some d => rfl
      | none =>
          cases hnames : f.names with
          | nil => rfl
          | cons name more =>
              rw [hnames] at hfirst
              cases more with
              | nil =>
                  simp only
                  rw [hfirst name (List.mem_cons_self ..)]
              | cons second more =>
                  simp only
                  rw [hfirst name (List.mem_cons_self ..)]

/-- Two rows that agree on the declared columns are read alike. -/
theorem decodeRow_congr (s : Shape) (h : ∀ name ∈ s.declaredColumns, row.get? name = other.get? name) :
    decodeRow row s = decodeRow other s := by
  induction s using rowShape.induct with
  | case1 s ih => exact ih h
  | case2 name s ih => exact ih h
  | case3 name s refusal ih => exact congrArg (· >>= Datum.pass refusal) (ih h)
  | case4 s hbox htransparent hchecked =>
      unfold declaredColumns at h
      rw [rowShape_eq_self hbox htransparent hchecked] at h
      cases s with
      | record name strict fields =>
          have hfields : decodeFields (.record name strict fields) row fields =
              decodeFields (.record name strict fields) other fields :=
            decodeFields_congr fun p hp name hname => h name (List.mem_flatMap.2 ⟨p, hp, hname⟩)
          rw [decodeRow, decodeRow, hfields]
      | adjacent name tag content variants =>
          have htag : cellOf row tag = cellOf other tag := cellOf_congr (h tag (List.mem_cons_self ..))
          have hcontent : cellOf row content = cellOf other content := cellOf_congr (h content (by simp))
          rw [decodeRow, decodeRow, decodeAdjacent, decodeAdjacent, htag, hcontent]
      | box s => exact (hbox s rfl).elim
      | transparent name s => exact (htransparent name s rfl).elim
      | checked name s refusal => exact (hchecked name s refusal rfl).elim
      | _ => rfl

/-! ## What goes wrong first -/

/-- Whether the columns of rows are read by name: each field that is read goes by the one name, as do the tag and
the content of a variant. -/
def ReadByName (s : Shape) : Prop :=
  match s.rowShape with
  | .record _ _ fields => ∀ p ∈ fields, p.1.constant = none → p.1.names = [p.1.name]
  | .adjacent _ _ _ _ => True
  | _ => False

/-- What a field of the record `around` needs of a row: if it is read, a column that holds a value of it. -/
def Supplied (around : Shape) (row : Row) (p : Field × Shape) : Prop :=
  p.1.constant = none → ∃ d, Holds row p.1.name (decodeField around · p.2) d

/-- A field of the record `around` that is read, and not supplied. -/
def Unsupplied (around : Shape) (row : Row) (e : Error) (p : Field × Shape) : Prop :=
  p.1.constant = none ∧ Fault row p.1.name (decodeField around · p.2) e

/-- The first declared column of a row that is absent or holds something that its field does not take, and what is
wrong with it.  What the content of a variant has to be is told by the tag. -/
inductive FirstFault (row : Row) : Shape → String → Error → Prop
  | field {name : TypeName} {strict : Bool} {before after : List (Field × Shape)} {p : Field × Shape} {e : Error}
      (hbefore : ∀ q ∈ before, Supplied (.record name strict (before ++ p :: after)) row q)
      (hfault : Unsupplied (.record name strict (before ++ p :: after)) row e p) :
      FirstFault row (.record name strict (before ++ p :: after)) p.1.name e
  | tag {name : TypeName} {tag content : String} {variants : List (String × Payload)} {e : Error}
      (hfault : Fault row tag
        (decodeField (.adjacent name tag content variants) · (.choice name (bareVariants variants))) e) :
      FirstFault row (.adjacent name tag content variants) tag e
  | content {name : TypeName} {tag content : String} {variants : List (String × Payload)} {variant : String}
      {payload : Payload} {e : Error}
      (htag : Holds row tag
        (decodeField (.adjacent name tag content variants) · (.choice name (bareVariants variants)))
        (.unitVariant variant))
      (hvariant : variants.lookup variant = some payload)
      (hfault : Fault row content
        (decodeContent (.adjacent name tag content variants) · name variant payload) e) :
      FirstFault row (.adjacent name tag content variants) content e

/-- The first of some items, behind items that are in order, is the head or the first of the tail. -/
theorem exists_first_cons {α : Type} {P Q : α → Prop} {x : α} {rest : List α} :
    (∃ before y after, x :: rest = before ++ y :: after ∧ (∀ z ∈ before, P z) ∧ Q y) ↔
      Q x ∨ P x ∧ ∃ before y after, rest = before ++ y :: after ∧ (∀ z ∈ before, P z) ∧ Q y := by
  constructor
  · rintro ⟨before, y, after, heq, hbefore, hy⟩
    cases before with
    | nil =>
        rw [List.nil_append, List.cons.injEq] at heq
        exact .inl (heq.1 ▸ hy)
    | cons z before =>
        rw [List.cons_append, List.cons.injEq] at heq
        obtain ⟨rfl, heq⟩ := heq
        exact .inr ⟨hbefore x (List.mem_cons_self ..), before, y, after, heq,
          fun z hz => hbefore z (List.mem_cons_of_mem _ hz), hy⟩
  · rintro (hx | ⟨hx, before, y, after, rfl, hbefore, hy⟩)
    · exact ⟨[], x, rest, rfl, by simp, hx⟩
    · exact ⟨x :: before, y, after, rfl, List.forall_mem_cons.2 ⟨hx, hbefore⟩, hy⟩

/-- Reading fields fails with the first field that is not supplied. -/
theorem decodeFields_error {around : Shape} {fields : List (Field × Shape)}
    (hnames : ∀ p ∈ fields, p.1.constant = none → p.1.names = [p.1.name]) :
    decodeFields around row fields = .error e ↔
      ∃ before p after, fields = before ++ p :: after ∧ (∀ q ∈ before, Supplied around row q) ∧
        Unsupplied around row e p := by
  induction fields with
  | nil =>
      constructor
      · intro h
        cases h
      · rintro ⟨before, p, after, h, -⟩
        cases before <;> cases h
  | cons p rest ih =>
      obtain ⟨f, s⟩ := p
      rw [exists_first_cons, ← ih fun p hp => hnames p (List.mem_cons_of_mem _ hp)]
      cases hconstant : f.constant with
      -- A field that is not read is supplied by every row.
      | some d =>
          rw [decodeFields_constant hconstant, Outcome.map_eq_error]
          constructor
          · intro h
            refine .inr ⟨fun hnone => ?_, h⟩
            rw [hconstant] at hnone
            cases hnone
          · rintro (⟨hnone, -⟩ | ⟨-, h⟩)
            · rw [hconstant] at hnone
              cases hnone
            · exact h
      | none =>
          have hread : decodeFields around row ((f, s) :: rest) =
              (cellOf row f.name >>= (decodeField around · s)) >>= fun value =>
                (do return (f, value) :: (← decodeFields around row rest)) := by
            rw [decodeFields_cons hconstant (hnames (f, s) (List.mem_cons_self ..) hconstant), bind_assoc]
          rw [hread, Outcome.bind_eq_error, cellOf_bind_error]
          constructor
          · rintro (h | ⟨d, hd, h⟩)
            · exact .inl ⟨hconstant, h⟩
            · exact .inr ⟨fun _ => ⟨d, cellOf_bind_ok.1 hd⟩, Outcome.map_eq_error.1 h⟩
          · rintro (⟨-, h⟩ | ⟨hsupplied, h⟩)
            · exact .inl h
            · obtain ⟨d, hd⟩ := hsupplied hconstant
              exact .inr ⟨d, cellOf_bind_ok.2 hd, Outcome.map_eq_error.2 h⟩

/-- A variant fails with its tag or, if that tells a variant, with its content. -/
theorem decodeAdjacent_error {name : TypeName} {tag content : String} {variants : List (String × Payload)} :
    decodeAdjacent row name tag content variants = .error e ↔
      ∃ column, FirstFault row (.adjacent name tag content variants) column e := by
  unfold decodeAdjacent
  rw [← bind_assoc, Outcome.bind_eq_error, cellOf_bind_error]
  constructor
  · rintro (h | ⟨told, htold, h⟩)
    · exact ⟨tag, .tag h⟩
    · have htag := cellOf_bind_ok.1 htold
      obtain ⟨v, -, hread⟩ := htag
      obtain ⟨variant, payload, rfl, hvariant⟩ := unitVariant_of_decodeField hread
      simp only [hvariant] at h
      rw [← bind_assoc] at h
      exact ⟨content, .content (cellOf_bind_ok.1 htold) hvariant (cellOf_bind_error.1 (Outcome.map_eq_error.1 h))⟩
  · rintro ⟨column, h⟩
    cases h with
    | tag h => exact .inl h
    | content htag hvariant h =>
        refine .inr ⟨_, cellOf_bind_ok.2 htag, ?_⟩
        simp only [hvariant]
        rw [← bind_assoc]
        exact Outcome.map_eq_error.2 (cellOf_bind_error.2 h)

/-- Reading a row fails at the first declared column that is at fault. -/
theorem decodeRow_rowShape_error {s : Shape} (hnames : s.ReadByName) :
    decodeRow row s.rowShape = .error e ↔ ∃ column, FirstFault row s.rowShape column e := by
  unfold ReadByName at hnames
  generalize s.rowShape = rows at hnames
  cases rows with
  | record name strict fields =>
      rw [decodeRow, Outcome.map_eq_error, decodeFields_error hnames]
      constructor
      · rintro ⟨before, p, after, rfl, hbefore, hfault⟩
        exact ⟨p.1.name, .field hbefore hfault⟩
      · rintro ⟨column, h⟩
        cases h with
        | field hbefore hfault => exact ⟨_, _, _, rfl, hbefore, hfault⟩
  | adjacent name tag content variants => exact decodeAdjacent_error
  | _ => exact hnames.elim

/-- The fault of a column is its absence, or one of its content. -/
theorem FirstFault.absent_iff {s : Shape} (h : FirstFault row s column e) (name : String) :
    e = .columnNotFound name ↔ row.get? column = none ∧ column = name := by
  cases h with
  | field _ hfault => exact hfault.2.absent_iff (fun cell => onContent_decodeField _ cell _) name
  | tag hfault => exact hfault.absent_iff (fun cell => onContent_decodeField _ cell _) name
  | content _ _ hfault => exact hfault.absent_iff (fun cell => onContent_decodeContent _ cell _ _ _) name

/-- Whether rows are read into a type at all: only records and variants with tag and content have columns. -/
def readsRows (s : Shape) : Bool :=
  match s.rowShape with
  | .record _ _ _ => true
  | .adjacent _ _ _ _ => true
  | _ => false

theorem decodeRow_of_readsRows {s : Shape} (h : s.readsRows = false) :
    decodeRow row s = .error (.notRepresentable .rowWithoutFields) := by
  have hshape : decodeRow row s.rowShape = .error (.notRepresentable .rowWithoutFields) := by
    induction s using rowShape.induct with
    | case1 s ih => exact ih h
    | case2 name s ih => exact ih h
    | case3 name s refusal ih => exact ih h
    | case4 s hbox htransparent hchecked =>
        unfold readsRows at h
        rw [rowShape_eq_self hbox htransparent hchecked] at h ⊢
        cases s with
        | record name strict fields => cases h
        | adjacent name tag content variants => cases h
        | box s => exact (hbox s rfl).elim
        | transparent name s => exact (htransparent name s rfl).elim
        | checked name s refusal => exact (hchecked name s refusal rfl).elim
        | _ => rfl
  rw [decodeRow_eq_pass, hshape]
  rfl

/-- What reading by the declared columns comes to, for a type that reads them by name. -/
structure ReadsInOrder (s : Shape) : Prop where
  /-- A row is refused if a column is at fault or if all are read and the type refuses the record. -/
  fails_iff : ∀ row, (∃ e, decodeRow row s = .error e) ↔
    (∃ column e, FirstFault row s.rowShape column e) ∨
      ∃ d why, decodeRow row s.rowShape = .ok d ∧ s.rowRefusal d = some why
  /-- The error is that of the first column at fault. -/
  first : ∀ row column e, FirstFault row s.rowShape column e → decodeRow row s = .error e
  /-- It is the refusal of the type only if no column is at fault. -/
  refused : ∀ row d why, decodeRow row s.rowShape = .ok d → s.rowRefusal d = some why →
    decodeRow row s = .error (.serialization (.refused why))
  /-- A column is not found exactly if it is the first at fault for being absent. -/
  missing : ∀ row name, decodeRow row s = .error (.columnNotFound name) ↔
    ∃ e, FirstFault row s.rowShape name e ∧ row.get? name = none

theorem readsInOrder_of_readByName {s : Shape} (hnames : s.ReadByName) : s.ReadsInOrder := by
  have herror : ∀ row e, decodeRow row s = .error e ↔ (∃ column, FirstFault row s.rowShape column e) ∨
      ∃ d why, decodeRow row s.rowShape = .ok d ∧ s.rowRefusal d = some why ∧ e = .serialization (.refused why) := by
    intro row e
    rw [decodeRow_eq_pass, Outcome.bind_eq_error, decodeRow_rowShape_error hnames]
    refine or_congr_right (exists_congr fun d => ?_)
    rw [exists_and_left, Datum.pass_eq_error]
  constructor
  case fails_iff =>
    intro row
    constructor
    · rintro ⟨e, he⟩
      rcases (herror row e).1 he with ⟨column, h⟩ | ⟨d, why, hd, hwhy, -⟩
      · exact .inl ⟨column, e, h⟩
      · exact .inr ⟨d, why, hd, hwhy⟩
    · rintro (⟨column, e, h⟩ | ⟨d, why, hd, hwhy⟩)
      · exact ⟨e, (herror row e).2 (.inl ⟨column, h⟩)⟩
      · exact ⟨_, (herror row _).2 (.inr ⟨d, why, hd, hwhy, rfl⟩)⟩
  case first =>
    intro row column e h
    exact (herror row e).2 (.inl ⟨column, h⟩)
  case refused =>
    intro row d why hd hwhy
    exact (herror row _).2 (.inr ⟨d, why, hd, hwhy, rfl⟩)
  case missing =>
    intro row name
    rw [herror]
    constructor
    · rintro (⟨column, h⟩ | ⟨d, why, -, -, he⟩)
      · obtain ⟨hnone, rfl⟩ := (h.absent_iff name).1 rfl
        exact ⟨_, h, hnone⟩
      · cases he
    · rintro ⟨e, h, hnone⟩
      have he := (h.absent_iff name).2 ⟨hnone, rfl⟩
      exact .inl ⟨name, he ▸ h⟩

/-- How rows of a type are read. -/
structure ReadsDeclared (s : Shape) : Prop where
  /-- Nothing but the declared columns is looked at, in whatever order they stand. -/
  frame : ∀ row other : Row, (∀ name ∈ s.declaredColumns, row.get? name = other.get? name) →
    decodeRow row s = decodeRow other s
  /-- The first column at fault decides. -/
  inOrder : s.ReadByName → s.ReadsInOrder
  /-- What is no record and no variant with tag and content is not read from any row. -/
  unread : s.readsRows = false → ∀ row, decodeRow row s = .error (.notRepresentable .rowWithoutFields)

end Shape

end RecordTables
