import RecordTables.Proofs.Record.ReadContents

/-!
# Objects that are read

The object of a legible record is read, if the documents of the fields that it presents are: a field that is left out has
a value that stands in for it, and one that is not read belongs to a record that passes over what it does not know.  The
payload of a variant is read in the same way, whatever the form of the variant is.
-/

namespace RecordTables

open RecordTables.Json (Document Piece SpellsItems SpellsEntries itemsDepth entriesDepth depth_le_itemsDepth
  depth_le_entriesDepth spellsItems_of_forall rereadItems rereadEntries)
open RecordTables.Json.Number (Readable)

namespace Shape

variable {around : Shape}

/-! ## Fields -/

/-- Of fields with distinct names, a name belongs to one field only. -/
theorem eq_of_mem_allNames {fields : List (Field × Shape)} (hnodup : (fields.flatMap fun p => p.1.allNames).Nodup)
    {p q : Field × Shape} (hp : p ∈ fields) (hq : q ∈ fields) {n : String} (hpn : n ∈ p.1.allNames)
    (hqn : n ∈ q.1.allNames) : p = q := by
  induction fields with
  | nil => cases hp
  | cons r rest ih =>
      rw [List.flatMap_cons, List.nodup_append] at hnodup
      obtain ⟨_, hrest, hapart⟩ := hnodup
      have hnot : ∀ t ∈ rest, n ∈ t.1.allNames → n ∈ r.1.allNames → False := by
        intro t ht hmem hfirst
        exact hapart n hfirst n (List.mem_flatMap.2 ⟨t, ht, hmem⟩) rfl
      rcases List.mem_cons.1 hp with rfl | hprest <;> rcases List.mem_cons.1 hq with rfl | hqrest
      · rfl
      · exact (hnot q hqrest hqn hpn).elim
      · exact (hnot p hprest hpn hqn).elim
      · exact ih hrest hprest hqrest

theorem mem_names {f : Field} {n : String} : n ∈ f.names ↔ f.constant = none ∧ n ∈ f.allNames := by
  unfold Field.names
  cases h : f.constant with
  | some d => simp
  | none => simp [Field.allNames]

/-- A name is found at the field that it belongs to, unless the field is not read. -/
theorem find_of_name {fields : List (Field × Shape)} (hnodup : (fields.flatMap fun p => p.1.allNames).Nodup)
    {p : Field × Shape} (hp : p ∈ fields) :
    fields.find? (fun q => q.1.names.contains p.1.name) = if p.1.constant.isSome then none else some p := by
  have hown : p.1.name ∈ p.1.allNames := List.mem_cons_self ..
  have honly : ∀ q ∈ fields, q.1.names.contains p.1.name = true → q = p ∧ q.1.constant = none := by
    intro q hq hname
    rw [List.contains_iff_mem, mem_names] at hname
    exact ⟨eq_of_mem_allNames hnodup hq hp hname.2 hown, hname.1⟩
  split
  · rename_i hconstant
    rw [List.find?_eq_none]
    intro q hq hname
    obtain ⟨rfl, hnone⟩ := honly q hq hname
    rw [hnone] at hconstant
    cases hconstant
  · rename_i hconstant
    have hnone : p.1.constant = none := by simpa using hconstant
    have hfound : (fields.find? fun q => q.1.names.contains p.1.name).isSome = true :=
      List.find?_isSome.2 ⟨p, hp, List.contains_iff_mem.2 (mem_names.2 ⟨hnone, hown⟩)⟩
    obtain ⟨q, hq⟩ := Option.isSome_iff_exists.1 hfound
    have hsome := List.find?_some hq
    rw [hq, (honly q (List.mem_of_find?_eq_some hq) hsome).1]

section

variable {read : Shape → Document → Option Datum} {unknown : Document → Bool} {fields : List (Field × Shape)}

theorem collectFields_unknown {name : String} {doc : Document} {rest : List (List Piece × Document)}
    {found : List (String × Datum)} (hfind : fields.find? (fun q => q.1.names.contains name) = none)
    (hunknown : unknown doc = true) :
    collectFields read unknown fields ((Piece.ofString name, doc) :: rest) found =
      collectFields read unknown fields rest found := by
  simp only [collectFields, Json.text_ofString, Option.bind_eq_bind, Option.bind_some]
  simp only [hfind, hunknown, guard, if_true, Option.pure_def, Option.bind_some]

theorem collectFields_known {f : Field} {s : Shape} {doc : Document} {rest : List (List Piece × Document)}
    {found : List (String × Datum)} {v : Datum}
    (hfind : fields.find? (fun q => q.1.names.contains f.name) = some (f, s)) (hnew : found.lookup f.name = none)
    (hv : read s doc = some v) :
    collectFields read unknown fields ((Piece.ofString f.name, doc) :: rest) found =
      collectFields read unknown fields rest ((f.name, v) :: found) := by
  simp only [collectFields, Json.text_ofString, Option.bind_eq_bind, Option.bind_some]
  simp only [hfind, hnew, hv, guard, Option.isNone_none, if_true, Option.pure_def, Option.bind_some]

/-- The entries of an object are collected if each is known and read, or may be unknown. -/
theorem collectFields_of_forall {entries : List (String × Document)} (hnodup : (entries.map Prod.fst).Nodup)
    (h : ∀ e ∈ entries, (fields.find? (fun q => q.1.names.contains e.1) = none ∧ unknown e.2 = true) ∨
      ∃ q, fields.find? (fun q => q.1.names.contains e.1) = some q ∧ q.1.name = e.1 ∧ ∃ v, read q.2 e.2 = some v) :
    ∀ found : List (String × Datum), (∀ e ∈ entries, found.lookup e.1 = none) →
      ∃ all, collectFields read unknown fields (entries.map fun e => (Piece.ofString e.1, e.2)) found = some all ∧
        (∀ n, (found.lookup n).isSome = true → (all.lookup n).isSome = true) ∧
        ∀ e ∈ entries, (fields.find? fun q => q.1.names.contains e.1).isSome = true →
          (all.lookup e.1).isSome = true := by
  induction entries with
  | nil => exact fun found _ => ⟨found, rfl, fun _ hn => hn, by simp⟩
  | cons e rest ih =>
      intro found hfresh
      obtain ⟨name, doc⟩ := e
      rw [List.map_cons, List.nodup_cons] at hnodup
      have hrest := ih hnodup.2 fun e he => h e (List.mem_cons_of_mem _ he)
      rcases h (name, doc) (List.mem_cons_self ..) with ⟨hfind, hunknown⟩ | ⟨⟨f, s⟩, hfind, rfl, v, hv⟩
      · obtain ⟨all, hall, hkept, hmore⟩ := hrest found fun e he => hfresh e (List.mem_cons_of_mem _ he)
        refine ⟨all, (collectFields_unknown hfind hunknown).trans hall, hkept, ?_⟩
        intro e he hsome
        rcases List.mem_cons.1 he with rfl | he
        · rw [hfind] at hsome
          cases hsome
        · exact hmore e he hsome
      · have hothers : ∀ e ∈ rest, ((f.name, v) :: found).lookup e.1 = none := by
          intro e he
          have hne : (e.1 == f.name) = false := by
            apply beq_eq_false_iff_ne.2
            intro hname
            exact hnodup.1 (List.mem_map.2 ⟨e, he, hname⟩)
          rw [List.lookup_cons, hne]
          exact hfresh e (List.mem_cons_of_mem _ he)
        obtain ⟨all, hall, hkept, hmore⟩ := hrest ((f.name, v) :: found) hothers
        have hnew := hfresh (f.name, doc) (List.mem_cons_self ..)
        refine ⟨all, (collectFields_known hfind hnew hv).trans hall, fun n hn => hkept n ?_, ?_⟩
        · rw [List.lookup_cons]
          split
          · rfl
          · exact hn
        · intro e he hsome
          rcases List.mem_cons.1 he with rfl | he
          · exact hkept f.name (by simp)
          · exact hmore e he hsome

end

/-- A record is complete if each of its fields has some value. -/
theorem completeFields_of_isSome {found : List (String × Datum)} {fields : List (Field × Shape)}
    (h : ∀ p ∈ fields, (p.1.constant <|> found.lookup p.1.name <|> p.1.default <|> p.2.missing?).isSome = true) :
    ∃ values, completeFields found fields = some values := by
  induction fields with
  | nil => exact ⟨[], rfl⟩
  | cons p rest ih =>
      obtain ⟨f, s⟩ := p
      obtain ⟨v, hv⟩ := Option.isSome_iff_exists.1 (h (f, s) (List.mem_cons_self ..))
      obtain ⟨values, hvalues⟩ := ih fun q hq => h q (List.mem_cons_of_mem _ hq)
      refine ⟨(f, v) :: values, ?_⟩
      rw [completeFields, hvalues]
      exact congrArg (fun o => o.bind fun value => some ((f, value) :: values)) hv

/-- The documents of presented fields, by their names. -/
theorem named_fieldDocuments {presented : List (String × Datum)} {docs : List (List Piece × Document)}
    (hdocs : Datum.fieldDocuments? presented = some docs) :
    ∃ entries : List (String × Document),
      rereadEntries docs = entries.map (fun e => (Piece.ofString e.1, e.2)) ∧
      entries.map Prod.fst = presented.map Prod.fst ∧
      ∀ e ∈ entries, ∃ d doc, (e.1, d) ∈ presented ∧ d.document? = some doc ∧ (Piece.ofString e.1, doc) ∈ docs ∧
        e.2 = doc.reread := by
  induction presented generalizing docs with
  | nil =>
      cases hdocs
      exact ⟨[], rfl, rfl, by simp⟩
  | cons p rest ih =>
      obtain ⟨name, d⟩ := p
      obtain ⟨doc, docs', rfl, hdoc, hrest⟩ := Datum.fieldDocuments_cons hdocs
      obtain ⟨entries, hentries, hnames, hall⟩ := ih hrest
      refine ⟨(name, doc.reread) :: entries, ?_, ?_, ?_⟩
      · rw [rereadEntries, hentries]
        rfl
      · rw [List.map_cons, List.map_cons, hnames]
      · intro e he
        rcases List.mem_cons.1 he with rfl | he
        · exact ⟨d, doc, List.mem_cons_self .., hdoc, List.mem_cons_self .., rfl⟩
        · obtain ⟨d', doc', hd, hsame, hmem, heq⟩ := hall e he
          exact ⟨d', doc', List.mem_cons_of_mem _ hd, hsame, List.mem_cons_of_mem _ hmem, heq⟩

theorem nodup_names_of_allNames {fields : List (Field × Shape)}
    (hnodup : (fields.flatMap fun p => p.1.allNames).Nodup) : (fields.map fun p => p.1.name).Nodup := by
  induction fields with
  | nil => simp
  | cons p rest ih =>
      rw [List.flatMap_cons, List.nodup_append] at hnodup
      rw [List.map_cons, List.nodup_cons]
      refine ⟨fun hmem => ?_, ih hnodup.2.1⟩
      obtain ⟨q, hq, hname⟩ := List.mem_map.1 hmem
      refine hnodup.2.2 p.1.name (List.mem_cons_self ..) p.1.name (List.mem_flatMap.2 ⟨q, hq, ?_⟩) rfl
      rw [← hname]
      exact List.mem_cons_self ..

/-- A field that is written though it is not read belongs to a record that is not strict. -/
theorem not_strict_of_constant {f : Field} {s : Shape} {strict : Bool} {d : Datum} (hlegible : f.legible strict s = true)
    (hconstant : f.constant.isSome = true) (hpresents : f.presents d = true) : strict = false := by
  have hnever : f.writing ≠ .never := by
    intro hnever
    simp [Field.presents, hnever] at hpresents
  simp only [Field.legible, hconstant, if_true, Bool.or_eq_true, Bool.not_eq_true', beq_iff_eq] at hlegible
  exact hlegible.resolve_right hnever

/-- A field that is read and may be left out has a value that stands in for it. -/
theorem isSome_of_not_presents {f : Field} {s : Shape} {strict : Bool} {d : Datum} (hlegible : f.legible strict s = true)
    (hconstant : f.constant = none) (hpresents : ¬ f.presents d = true) :
    f.default.isSome = true ∨ s.missing?.isSome = true := by
  have halways : f.writing ≠ .always := by
    intro halways
    simp [Field.presents, halways] at hpresents
  simp only [Field.legible, hconstant, Option.isSome_none, Bool.false_eq_true, if_false, Bool.or_eq_true, beq_iff_eq,
    or_assoc] at hlegible
  exact hlegible.resolve_left halways

section

variable {looped strict : Bool} {fields : List (Field × Shape)} {values : List (Field × Datum)}

/-- What a legible record presents is read by the field of its name, or the field is not read and what is unknown may
stand there. -/
theorem found_of_presented {read : Shape → Document → Option Datum} {unknown : Document → Bool}
    (hnodup : (fields.flatMap fun p => p.1.allNames).Nodup) (hlegible : legibleFields looped strict fields = true)
    (hfields : values.map Prod.fst = fields.map Prod.fst) {name : String} {d : Datum} {doc : Document}
    (hd : (name, d) ∈ presentedFields values) (hunknown : strict = false → unknown doc = true)
    (h : ∀ p ∈ fields.zip values, p.1.1.presents p.2.2 = true → p.2.2 = d → ∃ v, read p.1.2 doc = some v) :
    (fields.find? (fun q => q.1.names.contains name) = none ∧ unknown doc = true) ∨
      ∃ q, fields.find? (fun q => q.1.names.contains name) = some q ∧ q.1.name = name ∧ ∃ v, read q.2 doc = some v := by
  obtain ⟨f, hf, hpresents, rfl⟩ := mem_presentedFields.1 hd
  obtain ⟨s, hs⟩ := exists_mem_zip hfields hf
  have hfield := (of_mem_zip hfields hs).1
  have hfind : fields.find? (fun q => q.1.names.contains f.name) = if f.constant.isSome then none else some (f, s) :=
    find_of_name hnodup hfield
  cases hconstant : f.constant with
  | some c =>
      have hstrict := not_strict_of_constant (legible_of_mem_fields hlegible _ hfield).1
        (Option.isSome_of_eq_some hconstant) hpresents
      exact .inl ⟨by rw [hfind, hconstant]; rfl, hunknown hstrict⟩
  | none => exact .inr ⟨(f, s), by rw [hfind, hconstant]; rfl, rfl, h _ hs hpresents rfl⟩

/-- A legible record is complete once the fields that it presents are found. -/
theorem isSome_of_found {found : List (String × Datum)} (hlegible : legibleFields looped strict fields = true)
    (hfields : values.map Prod.fst = fields.map Prod.fst)
    (hfound : ∀ p ∈ fields, p.1.constant = none → ∀ v ∈ values, v.1 = p.1 → p.1.presents v.2 = true →
      (found.lookup p.1.name).isSome = true) :
    ∀ p ∈ fields, (p.1.constant <|> found.lookup p.1.name <|> p.1.default <|> p.2.missing?).isSome = true := by
  intro p hp
  cases hconstant : p.1.constant with
  | some c => rfl
  | none =>
      obtain ⟨v, hv, hfirst⟩ : ∃ v ∈ values, v.1 = p.1 := List.mem_map.1 (hfields ▸ List.mem_map.2 ⟨p, hp, rfl⟩)
      cases hlook : found.lookup p.1.name with
      | some w => rfl
      | none =>
          have hpresents : ¬ p.1.presents v.2 = true := by
            intro hpresents
            have hsome := hfound p hp hconstant v hv hfirst hpresents
            rw [hlook] at hsome
            cases hsome
          rcases isSome_of_not_presents (legible_of_mem_fields hlegible p hp).1 hconstant hpresents with
            hdefault | hmissing
          · obtain ⟨w, hw⟩ := Option.isSome_iff_exists.1 hdefault
            simp [hw]
          · cases hdefault : p.1.default <;> simp [hmissing]

/-- The object of a legible record is read, if its parts are. -/
theorem objectFields_of_legible (read : Shape → Document → Option Datum) (unknown : Document → Bool)
    {docs : List (List Piece × Document)} (hnodup : (fields.flatMap fun p => p.1.allNames).Nodup)
    (hlegible : legibleFields looped strict fields = true) (hfields : values.map Prod.fst = fields.map Prod.fst)
    (hdocs : Datum.fieldDocuments? (presentedFields values) = some docs)
    (hunknown : strict = false → ∀ e ∈ docs, unknown e.2.reread = true)
    (h : ∀ p ∈ fields.zip values, p.1.1.presents p.2.2 = true → ∀ e ∈ docs, p.2.2.document? = some e.2 →
      ∃ v, read p.1.2 e.2.reread = some v) :
    ∃ found, objectFields read unknown fields (rereadEntries docs) = some found := by
  obtain ⟨entries, hentries, hsame, hall⟩ := named_fieldDocuments hdocs
  have hentry : ∀ e ∈ entries, (fields.find? (fun q => q.1.names.contains e.1) = none ∧ unknown e.2 = true) ∨
      ∃ q, fields.find? (fun q => q.1.names.contains e.1) = some q ∧ q.1.name = e.1 ∧ ∃ v, read q.2 e.2 = some v := by
    intro e he
    obtain ⟨d, doc, hd, hdoc, hmem, heq⟩ := hall e he
    rw [heq]
    refine found_of_presented hnodup hlegible hfields hd (fun hstrict => hunknown hstrict _ hmem) ?_
    intro p hp hpresents hvalue
    exact h p hp hpresents _ hmem (hvalue ▸ hdoc)
  have hpresented := nodup_presentedFields hfields (nodup_names_of_allNames hnodup)
  obtain ⟨found, hfound, _, hlookup⟩ := collectFields_of_forall (hsame ▸ hpresented) hentry [] (by simp)
  have hthere : ∀ p ∈ fields, p.1.constant = none → ∀ v ∈ values, v.1 = p.1 → p.1.presents v.2 = true →
      (found.lookup p.1.name).isSome = true := by
    intro p hp hconstant v hv hfirst hpresents
    have hmem : (p.1.name, v.2) ∈ presentedFields values := mem_presentedFields.2 ⟨p.1, hfirst ▸ hv, hpresents, rfl⟩
    obtain ⟨e, he, heq⟩ := List.mem_map.1 (hsame ▸ List.mem_map.2 ⟨_, hmem, rfl⟩)
    have hsome := hlookup e he (by rw [heq, find_of_name hnodup hp, hconstant]; rfl)
    rwa [heq] at hsome
  obtain ⟨complete, hvalues⟩ := completeFields_of_isSome (isSome_of_found hlegible hfields hthere)
  refine ⟨presentedFields complete, ?_⟩
  rw [hentries]
  simp only [objectFields, hfound, Option.bind_eq_bind, Option.bind_some, hvalues]

end

theorem presented_of_mem_zip {fields : List (Field × Shape)} {values : List (Field × Datum)}
    (hfields : values.map Prod.fst = fields.map Prod.fst) {p : (Field × Shape) × (Field × Datum)}
    (hp : p ∈ fields.zip values) (hpresents : p.1.1.presents p.2.2 = true) :
    (p.1.1.name, p.2.2) ∈ presentedFields values := by
  obtain ⟨_, hvalue, hsame⟩ := of_mem_zip hfields hp
  exact mem_presentedFields.2 ⟨p.1.1, hsame ▸ hvalue, hpresents, rfl⟩

/-- The documents of the fields that a record presents. -/
theorem spells_fieldDocuments {fields : List (Field × Shape)} {values : List (Field × Datum)}
    {docs : List (List Piece × Document)} {inner : Shape} (hfields : values.map Prod.fst = fields.map Prod.fst)
    (hdocs : Datum.fieldDocuments? (presentedFields values) = some docs)
    (h : ∀ p ∈ fields.zip values, p.1.1.presents p.2.2 = true → Reads inner p.1.2 p.2.2) :
    SpellsEntries Readable docs := by
  refine Json.spellsEntries_of_forall fun e he => ?_
  obtain ⟨f, hf, hname, hdoc⟩ := Datum.mem_fieldDocuments hdocs e he
  obtain ⟨g, hg, hpresents, _⟩ := mem_presentedFields.1 hf
  obtain ⟨s, hs⟩ := exists_mem_zip hfields hg
  exact ⟨⟨f.1, hname⟩, (h _ hs hpresents _ hdoc).1⟩

theorem reads_record {name : TypeName} {strict : Bool} {fields : List (Field × Shape)}
    {values : List (Field × Datum)} (hlegible : (Shape.record name strict fields).legible true = true)
    (hfields : values.map Prod.fst = fields.map Prod.fst)
    (h : ∀ p ∈ fields.zip values, p.1.1.presents p.2.2 = true →
      Reads (.record name strict fields) p.1.2 p.2.2) :
    Reads around (.record name strict fields) (.record (presentedFields values)) := by
  rw [legible_record] at hlegible
  refine reads_of_parts (Datum.fieldDocuments? (presentedFields values)) .object entriesDepth rfl (fun _ => rfl)
    fun docs hdocs => ?_
  have hspells := spells_fieldDocuments hfields hdocs h
  refine ⟨by rw [Document.Spells]; exact hspells, fun levels hdepth => ?_⟩
  obtain ⟨found, hfound⟩ := objectFields_of_legible (readLevels levels (.record name strict fields))
    (fun d => !strict && d.skippable) hlegible.1 hlegible.2 hfields hdocs
    (by
      rintro rfl e he
      simpa using (Json.spells_of_mem_entries hspells e he).2.skippable)
    (fun p hp hpresents e he hdoc =>
      (h p hp hpresents _ hdoc).2 levels (Nat.le_trans (depth_le_entriesDepth e he) hdepth))
  exact ⟨.record found, by rw [Document.reread, readLevels_record, readRecord?, hfound]; rfl⟩

/-! ## Documents of the most general type -/

mutual

/-- Whatever is written is read as a document of the most general type. -/
theorem reads_anything {name : TypeName} : ∀ {d : Document}, d.Spells Readable → ∀ levels, d.depth ≤ levels →
    ∃ e, readLevels levels around (.anything name) d.reread = some e
  | .null, _, _, _ => ⟨_, readLevels_anyNull⟩
  | .bool b, _, _, _ => ⟨_, readLevels_anyBool b⟩
  | .number n, h, _, _ => by
      rw [Document.Spells] at h
      rw [Document.reread, readLevels_anyNumber]
      exact general_of_double h.value
  | .string _, h, _, _ => by
      rw [Document.Spells] at h
      obtain ⟨s, rfl⟩ := h
      exact ⟨.text s, by rw [Document.reread, readLevels_anyString, Json.text_ofString]; rfl⟩
  | .array items, h, 0, hdepth => by simp [Document.depth] at hdepth
  | .array items, h, levels + 1, hdepth => by
      rw [Document.Spells] at h
      obtain ⟨es, hes⟩ := reads_anyItems h levels (by rw [Document.depth] at hdepth; omega)
      exact ⟨.list es, by rw [Document.reread, readLevels_anyArray, hes]; rfl⟩
  | .object entries, h, 0, hdepth => by simp [Document.depth] at hdepth
  | .object entries, h, levels + 1, hdepth => by
      rw [Document.Spells] at h
      obtain ⟨es, hes⟩ := reads_anyEntries h levels (by rw [Document.depth] at hdepth; omega)
      exact ⟨_, by rw [Document.reread, readLevels_anyObject, Shape.readEntries?, hes]; rfl⟩

theorem reads_anyItems {name : TypeName} : ∀ {items : List Document}, SpellsItems Readable items →
    ∀ levels, itemsDepth items ≤ levels →
    ∃ es, (rereadItems items).mapM (readLevels levels around (.anything name)) = some es
  | [], _, _, _ => ⟨[], rfl⟩
  | d :: rest, h, levels, hdepth => by
      rw [SpellsItems] at h
      rw [itemsDepth] at hdepth
      obtain ⟨e, he⟩ : ∃ e, readLevels levels around (.anything name) d.reread = some e :=
        reads_anything h.1 levels (by omega)
      obtain ⟨es, hes⟩ : ∃ es, (rereadItems rest).mapM (readLevels levels around (.anything name)) = some es :=
        reads_anyItems h.2 levels (by omega)
      exact ⟨e :: es, by simp [rereadItems, List.mapM_cons, he, hes]⟩

theorem reads_anyEntries {name : TypeName} : ∀ {entries : List (List Piece × Document)},
    SpellsEntries Readable entries → ∀ levels, entriesDepth entries ≤ levels →
    ∃ es, ((rereadEntries entries).mapM fun (key, d) => do
      let k ← (Piece.text? key).map Datum.text
      let v ← readLevels levels around (.anything name) d
      some (k, v)) = some es
  | [], _, _, _ => ⟨[], rfl⟩
  | (key, d) :: rest, h, levels, hdepth => by
      rw [SpellsEntries] at h
      rw [entriesDepth] at hdepth
      obtain ⟨⟨s, rfl⟩, hvalue, hrest⟩ := h
      obtain ⟨e, he⟩ : ∃ e, readLevels levels around (.anything name) d.reread = some e :=
        reads_anything hvalue levels (by omega)
      obtain ⟨es, hes⟩ := @reads_anyEntries name rest hrest levels (by omega)
      refine ⟨(.text s, e) :: es, ?_⟩
      rw [rereadEntries, List.mapM_cons, hes]
      simp [he]

end

/-- What is read as a value of some type is read as one of the most general type: its document is a printed one. -/
theorem Reads.anything {name : TypeName} {s : Shape} {d : Datum} (h : Reads around s d) :
    Reads around (.anything name) d := by
  intro doc hdoc
  have hspells := (h doc hdoc).1
  exact ⟨hspells, reads_anything hspells⟩

theorem reads_flattened {name : TypeName} {fields : List (Field × Shape)} {values : List (Field × Datum)}
    {looped : Bool} (hlegible : (Shape.flattened name fields).legible looped = true)
    (hfields : values.map Prod.fst = fields.map Prod.fst)
    (h : ∀ p ∈ fields.zip values, p.1.1.presents p.2.2 = true → Reads around p.1.2 p.2.2) :
    Reads around (.flattened name fields) (.map ((presentedFields values).map fun p => (.text p.1, p.2))) := by
  rw [legible_flattened] at hlegible
  have hdocument : ∀ presented : List (String × Datum),
      Datum.entryDocuments? (presented.map fun p => (.text p.1, p.2)) = Datum.fieldDocuments? presented := by
    intro presented
    induction presented with
    | nil => rfl
    | cons p rest ih =>
        rw [List.map_cons, Datum.entryDocuments?, ih]
        rfl
  refine reads_of_parts (Datum.fieldDocuments? (presentedFields values)) .object entriesDepth
    (by rw [Datum.document?, hdocument]) (fun _ => rfl) fun docs hdocs => ?_
  have hspells := spells_fieldDocuments hfields hdocs h
  refine ⟨by rw [Document.Spells]; exact hspells, fun levels hdepth => ?_⟩
  obtain ⟨found, hfound⟩ := objectFields_of_legible (readLevels levels around)
    (fun d => (readLevels levels around (.anything name) d).isSome) hlegible.1 hlegible.2 hfields hdocs
    (by
      intro _ e he
      have hany := @reads_anything around name e.2 (Json.spells_of_mem_entries hspells e he).2 levels
        (Nat.le_trans (depth_le_entriesDepth e he) hdepth)
      exact Option.isSome_iff_exists.2 hany)
    (fun p hp hpresents e he hdoc =>
      (h p hp hpresents _ hdoc).2 levels (Nat.le_trans (depth_le_entriesDepth e he) hdepth))
  exact ⟨_, by rw [Document.reread, readLevels_flattened, hfound]; rfl⟩

/-- A recursive type reads the record around it. -/
theorem reads_enclosing {name other : TypeName} {strict : Bool} {fields : List (Field × Shape)} {d : Datum}
    (h : Reads (.record name strict fields) (.record name strict fields) d) :
    Reads (.record name strict fields) (.enclosing other) d := by
  intro doc hdoc
  obtain ⟨hspells, hread⟩ := h doc hdoc
  refine ⟨hspells, fun levels hdepth => ?_⟩
  rw [readLevels_enclosing]
  exact hread levels hdepth

/-! ## Variants -/

theorem reads_unitVariant {name : TypeName} {variants : List (String × Payload)}
    (hnodup : (variants.map Prod.fst).Nodup) {variant : String} (h : (variant, .unit) ∈ variants) :
    Reads around (.choice name variants) (.unitVariant variant) := by
  intro doc hdoc
  cases hdoc
  refine ⟨by rw [Document.Spells]; exact ⟨variant, rfl⟩, fun levels _ => ?_⟩
  exact ⟨_, readsBack_unitVariant hnodup h levels _ rfl (Nat.zero_le _)⟩

theorem reads_variant {name : TypeName} {variants : List (String × Payload)}
    (hnodup : (variants.map Prod.fst).Nodup) {variant : String} {payload : Payload} {d : Datum}
    (hvariant : (variant, payload) ∈ variants) (h : Reads around (payload.shape name) d) :
    Reads around (.choice name variants) (.variant variant d) := by
  refine reads_of_parts d.document? (fun inner => .object [(Piece.ofString variant, inner)]) Document.depth rfl ?_ ?_
  · intro inner
    show max inner.depth 0 + 1 = inner.depth + 1
    omega
  · intro inner hinner
    obtain ⟨hspells, hread⟩ := h inner hinner
    constructor
    · rw [Document.Spells, SpellsEntries, SpellsEntries]
      exact ⟨⟨variant, rfl⟩, hspells, trivial⟩
    · intro levels hdepth
      obtain ⟨e, he⟩ := hread levels hdepth
      refine ⟨payload.datum variant e, ?_⟩
      rw [Document.reread, rereadEntries, rereadEntries, readLevels_choice]
      simp [readChoice?, lookup_of_mem hnodup hvariant, he]

theorem reads_adjacentUnit {name : TypeName} {tag content : String} {variants : List (String × Payload)}
    (hnodup : (variants.map Prod.fst).Nodup) {variant : String} (hvariant : (variant, .unit) ∈ variants) :
    Reads around (.adjacent name tag content variants) (adjacentRecord tag content variant none) := by
  intro doc hdoc
  have hdoc' : doc = .object [(Piece.ofString tag, .string (Piece.ofString variant))] :=
    (Option.some.inj hdoc).symm
  subst hdoc'
  constructor
  · rw [Document.Spells, SpellsEntries, SpellsEntries, Document.Spells]
    exact ⟨⟨tag, rfl⟩, ⟨variant, rfl⟩, trivial⟩
  · intro levels hdepth
    exact ⟨_, readsBack_adjacentUnit hnodup hvariant levels _ rfl hdepth⟩

theorem reads_adjacentContent {name : TypeName} {tag content : String} {variants : List (String × Payload)}
    (htag : tag ≠ content) (hnodup : (variants.map Prod.fst).Nodup) {variant : String} {payload : Payload} {d : Datum}
    (hvariant : (variant, payload) ∈ variants) (hpayload : payload ≠ .unit)
    (h : Reads around (payload.shape name) d) :
    Reads around (.adjacent name tag content variants) (adjacentRecord tag content variant (some d)) := by
  intro doc hdoc
  -- The record has two fields, so its document has two entries.
  obtain ⟨inner, hinner, rfl⟩ : ∃ inner, d.document? = some inner ∧ doc =
      .object [(Piece.ofString tag, .string (Piece.ofString variant)), (Piece.ofString content, inner)] := by
    rw [adjacentRecord, Datum.document?] at hdoc
    obtain ⟨docs, hdocs, rfl⟩ := Option.map_eq_some_iff.1 hdoc
    obtain ⟨_, docs', rfl, htagged, hrest⟩ := Datum.fieldDocuments_cons hdocs
    obtain ⟨inner, docs'', rfl, hinner, hnil⟩ := Datum.fieldDocuments_cons hrest
    cases htagged
    cases hnil
    exact ⟨inner, hinner, rfl⟩
  obtain ⟨hspells, hread⟩ := h inner hinner
  constructor
  · rw [Document.Spells, SpellsEntries, SpellsEntries, SpellsEntries, Document.Spells]
    exact ⟨⟨tag, rfl⟩, ⟨variant, rfl⟩, ⟨content, rfl⟩, hspells, trivial⟩
  · intro levels hdepth
    rw [Document.depth, entriesDepth, entriesDepth, entriesDepth] at hdepth
    cases levels with
    | zero => simp at hdepth
    | succ levels =>
        obtain ⟨e, he⟩ := hread levels (by omega)
        have hname := @readTag_variant around name variants hnodup variant payload hvariant levels
        have hcontent : readContent? (readLevels levels around) name payload (some inner.reread) = some (some e) := by
          cases payload with
          | unit => exact absurd rfl hpayload
          | _ => simp [readContent?, he]
        refine ⟨adjacentRecord tag content variant (some e), ?_⟩
        rw [Document.reread, rereadEntries, rereadEntries, rereadEntries, Document.reread, readLevels_adjacent]
        simp [readAdjacent?, adjacentEntries_both htag, hname, lookup_of_mem hnodup hvariant, hcontent]

/-- The tag among entries that do not have its name, all of which are documents of the most general type. -/
theorem splitTag_of_forall {read : Shape → Document → Option Datum} {name : TypeName} {tag : String}
    {entries : List (String × Document)} (h : ∀ e ∈ entries, e.1 ≠ tag ∧ ∃ d, read (.anything name) e.2 = some d) :
    splitTag read name tag (entries.map fun e => (Piece.ofString e.1, e.2)) =
      some (none, entries.map fun e => (Piece.ofString e.1, e.2)) := by
  induction entries with
  | nil => rfl
  | cons e rest ih =>
      obtain ⟨hne, d, hd⟩ := h e (List.mem_cons_self ..)
      have hrest := ih fun e he => h e (List.mem_cons_of_mem _ he)
      simp [splitTag, hrest, hne, hd]

theorem reads_taggedUnit {name : TypeName} {tag : String} {variants : List (String × Payload)}
    (hnodup : (variants.map Prod.fst).Nodup) {variant : String} (hvariant : (variant, .unit) ∈ variants) :
    Reads around (.tagged name tag variants) (.record [(tag, .text variant)]) := by
  intro doc hdoc
  have hdoc' : doc = .object [(Piece.ofString tag, .string (Piece.ofString variant))] :=
    (Option.some.inj hdoc).symm
  subst hdoc'
  constructor
  · rw [Document.Spells, SpellsEntries, SpellsEntries, Document.Spells]
    exact ⟨⟨tag, rfl⟩, ⟨variant, rfl⟩, trivial⟩
  · intro levels hdepth
    cases levels with
    | zero => simp [Document.depth] at hdepth
    | succ levels =>
        refine ⟨.record [(tag, .text variant)], ?_⟩
        rw [Document.reread, rereadEntries, rereadEntries, Document.reread, readLevels_tagged]
        simp [readTagged?, splitTag, namedVariant?, lookup_of_mem hnodup hvariant, guard]

theorem reads_taggedFields {name : TypeName} {tag : String} {variants : List (String × Payload)}
    {variant : String} {fields : List (Field × Shape)} {values : List (Field × Datum)}
    {looped : Bool} (hlegible : (Shape.tagged name tag variants).legible looped = true)
    (hvariant : (variant, .fields fields) ∈ variants)
    (hfields : values.map Prod.fst = fields.map Prod.fst)
    (h : ∀ p ∈ fields.zip values, p.1.1.presents p.2.2 = true → Reads around p.1.2 p.2.2) :
    Reads around (.tagged name tag variants) (.record ((tag, .text variant) :: presentedFields values)) := by
  obtain ⟨htag, hnodup, hvariants⟩ := legible_tagged.1 hlegible
  obtain ⟨hnames, hparts⟩ := legible_of_mem_tagged hvariants hvariant
  refine reads_of_parts (Datum.fieldDocuments? (presentedFields values))
    (fun docs => .object ((Piece.ofString tag, .string (Piece.ofString variant)) :: docs)) entriesDepth ?_ ?_
    fun docs hdocs => ?_
  · rw [Datum.document?, Datum.fieldDocuments?]
    cases Datum.fieldDocuments? (presentedFields values) <;> rfl
  · intro docs
    show max 0 (entriesDepth docs) + 1 = entriesDepth docs + 1
    omega
  have hspells := spells_fieldDocuments hfields hdocs h
  constructor
  · rw [Document.Spells, SpellsEntries, Document.Spells]
    exact ⟨⟨tag, rfl⟩, ⟨variant, rfl⟩, hspells⟩
  · intro levels hdepth
    have hdepths : ∀ e ∈ docs, e.2.depth ≤ levels := fun e he => Nat.le_trans (depth_le_entriesDepth e he) hdepth
    obtain ⟨entries, hentries, hsame, hall⟩ := named_fieldDocuments hdocs
    have hsplit := @splitTag_of_forall (readLevels levels around) name tag entries (by
      intro e he
      obtain ⟨d, doc, hd, _, hmem, heq⟩ := hall e he
      obtain ⟨f, hf, _, hname⟩ := mem_presentedFields.1 hd
      obtain ⟨s, hs⟩ := exists_mem_zip hfields hf
      have hmember : e.1 ∈ (Payload.fields fields).fieldNames :=
        List.mem_map.2 ⟨(f, s), (of_mem_zip hfields hs).1, hname⟩
      refine ⟨htag _ hvariant e.1 hmember, ?_⟩
      rw [heq]
      exact reads_anything (Json.spells_of_mem_entries hspells _ hmem).2 levels (hdepths _ hmem))
    obtain ⟨found, hfound⟩ := objectFields_of_legible (readLevels levels around) Document.skippable hnames hparts
      hfields hdocs (fun _ e he => (Json.spells_of_mem_entries hspells e he).2.skippable)
      (fun p hp hpresents e he hdoc => (h p hp hpresents _ hdoc).2 levels (hdepths e he))
    refine ⟨.record ((tag, .text variant) :: found), ?_⟩
    rw [Document.reread, rereadEntries, Document.reread, readLevels_tagged, hentries]
    rw [hentries] at hfound
    simp [readTagged?, splitTag, hsplit, namedVariant?, lookup_of_mem hnodup hvariant, guard, hfound]

end Shape

end RecordTables
