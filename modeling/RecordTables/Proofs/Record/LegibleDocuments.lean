import RecordTables.Proofs.Record.ReadObjects

/-!
# Documents of legible types read

The document of a value of a legible type is read as some value, if its floats are finite and the reader may enter as
many levels as the document has.  There is one lemma for each kind of type; `reads_of_isValue` puts them together by
induction on the value.
-/

namespace RecordTables

open RecordTables.Json (Document)
open RecordTables.Json.Number (Readable)

namespace Shape

variable {around : Shape}

/-! ## Untagged scalars -/

/-- The alternatives are tried one after the other. -/
theorem readUntagged_cons (first : Scalar) (rest : List Scalar) (doc : Document) :
    readUntagged? (first :: rest) doc = (readUntagged? [first] doc).or (readUntagged? rest doc) := by
  cases first <;> cases doc <;> simp [readUntagged?]

/-- Some alternative takes the document, if one of them does. -/
theorem readUntagged_of_mem {alternatives : List Scalar} {doc : Document} {scalar : Scalar}
    (hmem : scalar ∈ alternatives) (h : ∃ d, readUntagged? [scalar] doc = some d) :
    ∃ d, readUntagged? alternatives doc = some d := by
  induction alternatives with
  | nil => cases hmem
  | cons first rest ih =>
      rw [readUntagged_cons]
      cases hfirst : readUntagged? [first] doc with
      | some e => exact ⟨e, rfl⟩
      | none =>
          rcases List.mem_cons.1 hmem with rfl | hmem
          · obtain ⟨d, hd⟩ := h
            rw [hd] at hfirst
            cases hfirst
          · exact ih hmem

theorem reads_untagged {name : TypeName} {alternatives : List Scalar} {d : Datum} {scalar : Scalar}
    (hmem : scalar ∈ alternatives) (h : ∀ doc, d.document? = some doc → doc.Spells Readable ∧
      ∃ e, readUntagged? [scalar] doc.reread = some e) : Reads around (.untagged name alternatives) d := by
  intro doc hdoc
  obtain ⟨hspells, hread⟩ := h doc hdoc
  refine ⟨hspells, fun levels _ => ?_⟩
  rw [readLevels_untagged]
  exact readUntagged_of_mem hmem hread

section

variable {name : TypeName} {alternatives : List Scalar}

theorem reads_untaggedInt {n : Int} (hscalar : .int64 ∈ alternatives) (hn : IntType.i64.holds n = true) :
    Reads around (.untagged name alternatives) (.int .i64 n) := by
  refine reads_untagged hscalar fun doc hdoc => ?_
  obtain ⟨hspells, -⟩ := @reads_int around .i64 _ (by decide) hn doc hdoc
  cases hdoc
  refine ⟨hspells, .int .i64 n, ?_⟩
  rw [Document.reread, reread_ofInt, readUntagged?, readUntagged?, IntType.read_ofInt hn]
  rfl

theorem reads_untaggedDouble {x : Double} (hscalar : .double ∈ alternatives) (hx : x.isFinite = true) :
    Reads around (.untagged name alternatives) (.double x) := by
  refine reads_untagged hscalar fun doc hdoc => ?_
  obtain ⟨hspells, -⟩ := @reads_double around _ hx doc hdoc
  rw [document_double hx] at hdoc
  cases hdoc
  obtain ⟨y, hy⟩ := Option.isSome_iff_exists.1 (Json.readable_real hx).value
  refine ⟨hspells, .double y, ?_⟩
  rw [Document.reread, readUntagged?, readUntagged?, hy]
  rfl

theorem reads_untaggedText (hscalar : .text ∈ alternatives) (s : String) :
    Reads around (.untagged name alternatives) (.text s) := by
  refine reads_untagged hscalar fun doc hdoc => ?_
  obtain ⟨hspells, -⟩ := @reads_text around s doc hdoc
  cases hdoc
  refine ⟨hspells, .text s, ?_⟩
  rw [Document.reread, readUntagged?, readUntagged?, Json.text_ofString]
  rfl

end

/-! ## All legible types -/

/-- The document of every value of a legible type is read, if its floats are finite.  The record around it is legible,
too, if the type mentions it: that is what a recursive type unrolls to. -/
theorem reads_of_isValue {s : Shape} {d : Datum} {looped : Bool} (h : IsValue around s d)
    (haround : looped = true → around.legible true = true) (hlegible : s.legible looped = true) (hfinite : d.finite = true) :
    Reads around s d := by
  induction h generalizing looped with
  | bool b => exact reads_bool b
  | int hn => exact reads_int (decide_eq_true_eq.mp hlegible) hn
  | single x => exact reads_single hfinite
  | double x => exact reads_double hfinite
  | char c => exact reads_char c
  | text s => exact reads_text s
  | label s => exact reads_label s
  | bytes content => exact reads_bytes content
  | unit => exact reads_unit
  | ignored => exact reads_ignored
  | absent => exact reads_absent
  | present h ih => exact reads_present (ih haround hlegible hfinite)
  | box h ih => exact reads_box (ih haround hlegible hfinite)
  | transparent h ih => exact reads_transparent (ih haround hlegible hfinite)
  | newtype h ih => exact reads_newtype (ih haround hlegible hfinite)
  | checked h hpass ih =>
      obtain ⟨hcontent, hplain, hbare⟩ := legible_checked.1 hlegible
      exact reads_checked (ih haround hcontent hfinite) h hplain hbare hpass
  | @guarded _ _ _ refusal d h ih =>
      -- Only what is presented has parts that could be no numbers.
      cases hrefusal : refusal d with
      | some why =>
          intro doc hdoc
          rw [Datum.presented, hrefusal] at hdoc
          cases hdoc
      | none =>
          refine reads_guarded (ih haround hlegible ?_)
          rwa [Datum.presented, hrefusal] at hfinite
  | list h ih => exact reads_list fun d hd => ih d hd haround hlegible (Datum.finite_of_mem_items hfinite d hd)
  | array h ih => exact reads_array fun d hd => ih d hd haround hlegible (Datum.finite_of_mem_items hfinite d hd)
  | tuple hlength h ih =>
      refine reads_tuple hlength fun p hp => ih p hp haround ?_ ?_
      · exact legible_of_mem_items hlegible p.1 (List.of_mem_zip hp).1
      · exact Datum.finite_of_mem_items hfinite p.2 (List.of_mem_zip hp).2
  | tupleStruct hlength h ih =>
      refine reads_tupleStruct hlength fun p hp => ih p hp haround ?_ ?_
      · exact legible_of_mem_items hlegible p.1 (List.of_mem_zip hp).1
      · exact Datum.finite_of_mem_items hfinite p.2 (List.of_mem_zip hp).2
  | map hkey hvalue hsorted ihkey ihvalue =>
      rw [legible_map] at hlegible
      exact reads_map hlegible.1 hkey fun e he =>
        ihvalue e he haround hlegible.2 (Datum.finite_of_mem_entries hfinite e he)
  | record hfields h ih =>
      refine reads_record hlegible hfields fun p hp hpresents => ?_
      have hfield := (of_mem_zip hfields hp).1
      have hmem := presented_of_mem_zip hfields hp hpresents
      exact ih p hp (fun _ => hlegible) (legible_of_mem_fields (legible_record.1 hlegible).2 p.1 hfield).2
        (Datum.finite_of_mem_fields hfinite _ hmem)
  | flattened hfields h ih =>
      refine reads_flattened hlegible hfields fun p hp hpresents => ?_
      have hfield := (of_mem_zip hfields hp).1
      have hmem := presented_of_mem_zip hfields hp hpresents
      exact ih p hp haround (legible_of_mem_fields (legible_flattened.1 hlegible).2 p.1 hfield).2
        (Datum.finite_of_mem_entries hfinite (.text p.1.1.name, p.2.2) (List.mem_map.2 ⟨_, hmem, rfl⟩))
  | enclosing h ih =>
      have hrecord := haround hlegible
      exact reads_enclosing (ih (fun _ => hrecord) hrecord hfinite)
  | @choice around name variants variant payload d hvariant h ih =>
      obtain ⟨hnodup, _, hvariants⟩ := legible_choice.1 hlegible
      have hshape := legible_shape (legible_of_mem_variants hvariants _ hvariant) name
      cases payload with
      | unit => exact reads_unitVariant hnodup hvariant
      | _ => exact reads_variant hnodup hvariant (ih haround hshape hfinite)
  | adjacentUnit hvariant => exact reads_adjacentUnit (legible_adjacent.1 hlegible).2.1 hvariant
  | @adjacentContent around name tag content variants variant payload d hvariant hpayload h ih =>
      obtain ⟨htag, hnodup, hvariants⟩ := legible_adjacent.1 hlegible
      have hshape := legible_shape (legible_of_mem_variants hvariants _ hvariant) name
      refine reads_adjacentContent htag hnodup hvariant hpayload (ih haround hshape ?_)
      exact Datum.finite_of_mem_fields hfinite (content, d) (by simp)
  | taggedUnit hvariant => exact reads_taggedUnit (legible_tagged.1 hlegible).2.1 hvariant
  | @taggedFields around name tag variants variant fields values hvariant hfields h ih =>
      refine reads_taggedFields hlegible hvariant hfields fun p hp hpresents => ?_
      have hfield := (of_mem_zip hfields hp).1
      have hmem := presented_of_mem_zip hfields hp hpresents
      have hparts := (legible_of_mem_tagged (legible_tagged.1 hlegible).2.2 hvariant).2
      exact ih p hp haround (legible_of_mem_fields hparts p.1 hfield).2
        (Datum.finite_of_mem_fields hfinite _ (List.mem_cons_of_mem _ hmem))
  | untaggedInt hscalar hn => exact reads_untaggedInt hscalar hn
  | untaggedDouble hscalar x => exact reads_untaggedDouble hscalar hfinite
  | untaggedText hscalar s => exact reads_untaggedText hscalar s
  | anyNull => exact (@reads_unit _ (.simple "")).anything
  | anyBool b => exact (reads_bool b).anything
  | @anyInt _ _ n hn =>
      have hbits : (if n < 0 then IntType.i64 else IntType.u64).bits ≤ 128 := by
        split <;> decide
      exact (reads_int hbits hn).anything
  | anyDouble hx => exact (reads_double hx).anything
  | anyText s => exact (reads_text s).anything
  | anyList h ih =>
      have hitems := reads_list fun d hd => ih d hd haround rfl (Datum.finite_of_mem_items hfinite d hd)
      exact hitems.anything
  | @anyMap around name entries hkey hvalue hsorted ih =>
      have hkeys : ∀ e ∈ entries, IsValue around .text e.1 := by
        intro e he
        obtain ⟨s, hs⟩ := hkey e he
        rw [hs]
        exact .text s
      have hentries := reads_map rfl hkeys fun e he =>
        ih e he haround rfl (Datum.finite_of_mem_entries hfinite e he)
      exact hentries.anything
  | pairs => simp [legible] at hlegible

end Shape

end RecordTables
