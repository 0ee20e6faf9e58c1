import RecordTables.Proofs.Record.Document
import RecordTables.Proofs.Record.Plain

/-!
# Fields presented and found again

A record presents those of its fields that are written, in order.  Looking each of them up under its name gives its
value back, and a field that is left out is completed by what stands for its absence, so the fields of a plain record
are found again whole.
-/

namespace RecordTables

open RecordTables.Json (Document Piece)
open RecordTables.Datum (fieldDocuments_cons)

/-- Whether a field with a value is presented. -/
def Field.presents (f : Field) (d : Datum) : Bool :=
  match f.writing, d with
  | .never, _ => false
  | .unlessAbsent, .absent => false
  | _, _ => true

theorem presentedFields_cons (f : Field) (d : Datum) (rest : List (Field × Datum)) :
    presentedFields ((f, d) :: rest) =
      if f.presents d then (f.name, d) :: presentedFields rest else presentedFields rest := by
  cases hwriting : f.writing <;> cases d <;> simp [presentedFields, Field.presents, hwriting]

theorem mem_presentedFields {values : List (Field × Datum)} {name : String} {d : Datum} :
    (name, d) ∈ presentedFields values ↔ ∃ f, (f, d) ∈ values ∧ f.presents d = true ∧ f.name = name := by
  induction values with
  | nil => simp [presentedFields]
  | cons v rest ih =>
      obtain ⟨f, e⟩ := v
      rw [presentedFields_cons]
      constructor
      · intro h
        split at h
        · rename_i hpresents
          rcases List.mem_cons.1 h with h | h
          · obtain ⟨rfl, rfl⟩ := Prod.mk.inj h
            exact ⟨f, List.mem_cons_self .., hpresents, rfl⟩
          · obtain ⟨g, hg, hpresents', hname⟩ := ih.1 h
            exact ⟨g, List.mem_cons_of_mem _ hg, hpresents', hname⟩
        · obtain ⟨g, hg, hpresents', hname⟩ := ih.1 h
          exact ⟨g, List.mem_cons_of_mem _ hg, hpresents', hname⟩
      · rintro ⟨g, hg, hpresents, rfl⟩
        rcases List.mem_cons.1 hg with h | h
        · obtain ⟨rfl, rfl⟩ := Prod.mk.inj h
          rw [if_pos hpresents]
          exact List.mem_cons_self ..
        · have hrest := ih.2 ⟨g, h, hpresents, rfl⟩
          split
          · exact List.mem_cons_of_mem _ hrest
          · exact hrest

/-- The presented names are those of the fields, in order, with some left out. -/
theorem map_fst_presentedFields (values : List (Field × Datum)) :
    ((presentedFields values).map Prod.fst).Sublist (values.map fun v => v.1.name) := by
  induction values with
  | nil => simp [presentedFields]
  | cons v rest ih =>
      obtain ⟨f, d⟩ := v
      rw [presentedFields_cons]
      split
      · exact ih.cons_cons _
      · exact ih.cons _

/-- A name is looked up to the value of the field of this name, if the names are distinct. -/
theorem lookup_of_mem {α : Type} {entries : List (String × α)} (hnodup : (entries.map Prod.fst).Nodup)
    {name : String} {x : α} (h : (name, x) ∈ entries) : entries.lookup name = some x := by
  induction entries with
  | nil => cases h
  | cons e rest ih =>
      obtain ⟨n, y⟩ := e
      rw [List.map_cons, List.nodup_cons] at hnodup
      rcases List.mem_cons.1 h with hfirst | hrest
      · obtain ⟨rfl, rfl⟩ := Prod.mk.inj hfirst
        simp
      · have hne : (name == n) = false := by
          apply beq_eq_false_iff_ne.2
          rintro rfl
          exact hnodup.1 (List.mem_map.2 ⟨(name, x), hrest, rfl⟩)
        rw [List.lookup_cons, hne]
        exact ih hnodup.2 hrest

theorem lookup_eq_none_of_not_mem {α : Type} {entries : List (String × α)} {name : String}
    (h : name ∉ entries.map Prod.fst) : entries.lookup name = none := by
  rw [List.lookup_eq_none_iff]
  intro e he
  rw [bne_iff_ne]
  rintro rfl
  exact h (List.mem_map_of_mem he)

/-- Of fields with distinct names, one name belongs to one field. -/
theorem eq_of_name_eq {α : Type} {values : List (Field × α)} (hnodup : (values.map fun v => v.1.name).Nodup)
    {v w : Field × α} (hv : v ∈ values) (hw : w ∈ values) (h : v.1.name = w.1.name) : v = w := by
  -- Both are what is looked up under the name, in the list of the fields by their names.
  have hentries : ((values.map fun u => (u.1.name, u)).map Prod.fst).Nodup := by
    rwa [List.map_map]
  have hlookup : ∀ u ∈ values, (values.map fun u => (u.1.name, u)).lookup u.1.name = some u := by
    intro u hu
    exact lookup_of_mem hentries (List.mem_map.2 ⟨u, hu, rfl⟩)
  have hsame := hlookup v hv
  rw [h, hlookup w hw] at hsame
  exact (Option.some.inj hsame).symm

/-- The name of a field that is left out is not presented. -/
theorem not_mem_presentedFields {values : List (Field × Datum)} (hnodup : (values.map fun v => v.1.name).Nodup)
    {v : Field × Datum} (hv : v ∈ values) (h : v.1.presents v.2 = false) :
    v.1.name ∉ (presentedFields values).map Prod.fst := by
  intro hmem
  obtain ⟨⟨name, e⟩, he, hname⟩ := List.mem_map.1 hmem
  obtain ⟨g, hg, hpresents, hsame⟩ := mem_presentedFields.1 he
  have heq : (g, e) = v := eq_of_name_eq hnodup hg hv (hsame.trans hname)
  rw [← heq] at h
  rw [hpresents] at h
  cases h

/-! ## Objects -/

namespace Shape

/-- The entries of presented fields are collected under their names, last first. -/
theorem collectFields_documents {read : Shape → Document → Option Datum} {unknown : Document → Bool}
    {fields : List (Field × Shape)} {presented : List (String × Datum)} {docs : List (List Piece × Document)}
    (hdocs : Datum.fieldDocuments? presented = some docs) (hnodup : (presented.map Prod.fst).Nodup)
    (h : ∀ p ∈ presented, ∀ doc ∈ docs, p.2.document? = some doc.2 →
      ∃ q, fields.find? (fun q => q.1.names.contains p.1) = some q ∧ q.1.name = p.1 ∧ read q.2 doc.2 = some p.2) :
    ∀ {found : List (String × Datum)}, (∀ p ∈ presented, found.lookup p.1 = none) →
      collectFields read unknown fields docs found = some (presented.reverse ++ found) := by
  -- The names found so far stay apart from those to come, since a name that is found twice is refused.
  induction presented generalizing docs with
  | nil =>
      intro found _
      cases hdocs
      rfl
  | cons p presented ih =>
      intro found hfresh
      obtain ⟨name, value⟩ := p
      obtain ⟨doc, docs', rfl, hdoc, hrest⟩ := fieldDocuments_cons hdocs
      obtain ⟨⟨f, s⟩, hfind, hname, hread⟩ :=
        h (name, value) (List.mem_cons_self ..) (Piece.ofString name, doc) (List.mem_cons_self ..) hdoc
      rw [List.map_cons, List.nodup_cons] at hnodup
      have hfound : ∀ p ∈ presented, ((name, value) :: found).lookup p.1 = none := by
        intro p hp
        have hne : (p.1 == name) = false := by
          apply beq_eq_false_iff_ne.2
          rintro rfl
          exact hnodup.1 (List.mem_map.2 ⟨p, hp, rfl⟩)
        rw [List.lookup_cons, hne]
        exact hfresh p (List.mem_cons_of_mem _ hp)
      have hothers := ih hrest hnodup.2
        (fun p hp doc' hdoc' => h p (List.mem_cons_of_mem _ hp) doc' (List.mem_cons_of_mem _ hdoc')) hfound
      have hnone := hfresh (name, value) (List.mem_cons_self ..)
      simp only at hfind hname hread hnone
      subst hname
      -- The reader finds the field of the key, sees that it has no value yet and reads one.
      show (Piece.text? (Piece.ofString f.name)).bind _ = _
      rw [Json.text_ofString, Option.bind_some]
      erw [hfind]
      show (guard (found.lookup f.name).isNone >>= fun _ => (read s doc).bind fun d =>
        collectFields read unknown fields docs' ((f.name, d) :: found)) = _
      rw [hnone, hread]
      show collectFields read unknown fields docs' ((f.name, value) :: found) = _
      rw [hothers]
      simp

/-- Fields are completed one by one. -/
theorem completeFields_of_forall {found : List (String × Datum)} {fields : List (Field × Shape)}
    {values : List (Field × Datum)} (hfields : values.map Prod.fst = fields.map Prod.fst)
    (h : ∀ p ∈ fields.zip values,
      (p.1.1.constant <|> found.lookup p.1.1.name <|> p.1.1.default <|> p.1.2.missing?) = some p.2.2) :
    completeFields found fields = some values := by
  induction fields generalizing values with
  | nil =>
      have hnil : values = [] := by simpa using hfields
      rw [hnil]
      rfl
  | cons p fields ih =>
      obtain ⟨f, s⟩ := p
      cases values with
      | nil => simp at hfields
      | cons v values =>
          obtain ⟨g, d⟩ := v
          rw [List.map_cons, List.map_cons, List.cons.injEq] at hfields
          obtain ⟨rfl, hfields⟩ := hfields
          have hfirst := h ((g, s), (g, d)) (by simp)
          have hothers := ih hfields fun p hp => h p (by simp [hp])
          rw [completeFields]
          simp only at hfirst
          rw [hfirst, hothers]
          rfl

/-- A plain field is found by its name. -/
theorem find_of_mem {fields : List (Field × Shape)} (hplain : plainFields fields = true)
    (hnodup : (fields.map fun p => p.1.name).Nodup) {p : Field × Shape} (hp : p ∈ fields) :
    fields.find? (fun q => q.1.names.contains p.1.name) = some p := by
  induction fields with
  | nil => cases hp
  | cons q fields ih =>
      have hnames : q.1.names = [q.1.name] :=
        Field.names_of_plain (plain_of_mem_fields hplain q (List.mem_cons_self ..)).1
      rw [plainFields, Bool.and_eq_true] at hplain
      rw [List.map_cons, List.nodup_cons] at hnodup
      rcases List.mem_cons.1 hp with rfl | hrest
      · simp [hnames]
      · have hne : p.1.name ≠ q.1.name := by
          intro he
          exact hnodup.1 (he ▸ List.mem_map.2 ⟨p, hrest, rfl⟩)
        rw [List.find?_cons_of_neg (by simp [hnames, hne])]
        exact ih hplain.2 hnodup.2 hrest

/-- Fields and their values, side by side. -/
theorem of_mem_zip {fields : List (Field × Shape)} {values : List (Field × Datum)}
    (hfields : values.map Prod.fst = fields.map Prod.fst) {p : (Field × Shape) × (Field × Datum)}
    (hp : p ∈ fields.zip values) : p.1 ∈ fields ∧ p.2 ∈ values ∧ p.2.1 = p.1.1 := by
  refine ⟨(List.of_mem_zip hp).1, (List.of_mem_zip hp).2, ?_⟩
  induction fields generalizing values with
  | nil => simp at hp
  | cons q fields ih =>
      cases values with
      | nil => simp at hp
      | cons v values =>
          rw [List.map_cons, List.map_cons, List.cons.injEq] at hfields
          rw [List.zip_cons_cons, List.mem_cons] at hp
          rcases hp with rfl | hp
          · exact hfields.1
          · exact ih hfields.2 hp

/-- Every value stands beside the field that it belongs to. -/
theorem exists_mem_zip {fields : List (Field × Shape)} {values : List (Field × Datum)}
    (hfields : values.map Prod.fst = fields.map Prod.fst) {v : Field × Datum} (hv : v ∈ values) :
    ∃ s, ((v.1, s), v) ∈ fields.zip values := by
  induction fields generalizing values with
  | nil =>
      have hnil : values = [] := by simpa using hfields
      simp [hnil] at hv
  | cons q fields ih =>
      cases values with
      | nil => simp at hv
      | cons w values =>
          rw [List.map_cons, List.map_cons, List.cons.injEq] at hfields
          rcases List.mem_cons.1 hv with rfl | hv
          · obtain ⟨f, s⟩ := q
            obtain ⟨rfl, -⟩ := hfields
            exact ⟨s, by simp⟩
          · obtain ⟨s, hs⟩ := ih hfields.2 hv
            exact ⟨s, by simp [hs]⟩

theorem names_of_values {fields : List (Field × Shape)} {values : List (Field × Datum)}
    (hfields : values.map Prod.fst = fields.map Prod.fst) :
    (values.map fun v => v.1.name) = fields.map fun p => p.1.name := by
  have hnames := congrArg (List.map Field.name) hfields
  rwa [List.map_map, List.map_map] at hnames

/-- The presented names are distinct if those of the fields are. -/
theorem nodup_presentedFields {fields : List (Field × Shape)} {values : List (Field × Datum)}
    (hfields : values.map Prod.fst = fields.map Prod.fst) (hnodup : (fields.map fun p => p.1.name).Nodup) :
    ((presentedFields values).map Prod.fst).Nodup := by
  rw [← names_of_values hfields] at hnodup
  exact hnodup.sublist (map_fst_presentedFields values)

end Shape

/-- What a plain field leaves out is an absence, and what stands for it is one, too. -/
theorem Field.absent_of_not_presents {f : Field} {s : Shape} {d : Datum} (hplain : f.plain s = true)
    (h : f.presents d = false) : d = .absent ∧ (f.default <|> s.missing?) = some .absent := by
  simp only [Field.plain, Bool.and_eq_true] at hplain
  obtain ⟨_, hwriting⟩ := hplain
  -- The cases are those of `presents`; only the second of them is left to a plain field.
  unfold Field.presents at h
  split at h
  · rename_i hnever
    rw [hnever] at hwriting
    simp at hwriting
  · rename_i hunless
    refine ⟨rfl, ?_⟩
    rw [hunless] at hwriting
    split at hwriting
    · rename_i halways
      cases halways
    · rename_i _ hnone
      rw [hnone]
      exact Shape.missing_eq_absent hwriting
    · rename_i _ habsent
      rw [habsent]
      rfl
    · cases hwriting
  · cases h

namespace Shape

/-- The object of a plain record is read as the record, if its parts are read back. -/
theorem readRecord_documents {read : Shape → Document → Option Datum} {strict : Bool}
    {fields : List (Field × Shape)} {values : List (Field × Datum)} {docs : List (List Piece × Document)}
    (hplain : plainFields fields = true) (hnodup : (fields.map fun p => p.1.name).Nodup)
    (hfields : values.map Prod.fst = fields.map Prod.fst)
    (hdocs : Datum.fieldDocuments? (presentedFields values) = some docs)
    (h : ∀ p ∈ fields.zip values, ∀ doc ∈ docs, p.2.2.document? = some doc.2 → read p.1.2 doc.2 = some p.2.2) :
    readRecord? read strict fields (.object docs) = some (.record (presentedFields values)) := by
  have hvalues : (values.map fun v => v.1.name).Nodup := by
    rw [names_of_values hfields]
    exact hnodup
  have hpresented := nodup_presentedFields hfields hnodup
  have hcollect := @collectFields_documents read (fun d => !strict && d.skippable) fields (presentedFields values)
    docs hdocs hpresented (by
      intro p hp doc hdoc hd
      obtain ⟨f, hf, _, hname⟩ := mem_presentedFields.1 hp
      obtain ⟨s, hs⟩ := exists_mem_zip hfields hf
      have hmem := (of_mem_zip hfields hs).1
      refine ⟨(f, s), ?_, hname, h _ hs doc hdoc hd⟩
      rw [← hname]
      exact find_of_mem hplain hnodup hmem) [] (by simp)
  -- A field that was presented is completed by what was found under its name, any other by what is missing.
  have hcomplete : completeFields ((presentedFields values).reverse ++ []) fields = some values := by
    apply completeFields_of_forall hfields
    intro p hp
    obtain ⟨hfield, hvalue, hsame⟩ := of_mem_zip hfields hp
    obtain ⟨hplainField, _⟩ := plain_of_mem_fields hplain p.1 hfield
    have hreverse : (((presentedFields values).reverse ++ []).map Prod.fst).Nodup := by
      rw [List.append_nil, List.map_reverse]
      exact (List.reverse_perm _).nodup_iff.2 hpresented
    rw [Field.constant_of_plain hplainField]
    by_cases hpresents : p.1.1.presents p.2.2 = true
    · have hmem : (p.1.1.name, p.2.2) ∈ (presentedFields values).reverse ++ [] := by
        rw [List.append_nil, List.mem_reverse]
        exact mem_presentedFields.2 ⟨p.1.1, hsame ▸ hvalue, hpresents, rfl⟩
      rw [lookup_of_mem hreverse hmem]
      rfl
    · obtain ⟨habsent, hmissing⟩ := Field.absent_of_not_presents hplainField (by simpa using hpresents)
      have hnot : p.1.1.name ∉ ((presentedFields values).reverse ++ []).map Prod.fst := by
        rw [List.append_nil, List.map_reverse, List.mem_reverse, ← hsame]
        exact not_mem_presentedFields hvalues hvalue (by rw [hsame]; simpa using hpresents)
      rw [lookup_eq_none_of_not_mem hnot, habsent]
      exact hmissing
  simp only [readRecord?, objectFields, hcollect, Option.bind_eq_bind, Option.bind_some, hcomplete, Option.map_some]

end Shape

end RecordTables
