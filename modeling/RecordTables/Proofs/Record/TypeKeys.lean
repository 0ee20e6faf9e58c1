import RecordTables.Gallery.Fields
import RecordTables.Proofs.Record.TypeNames

/-!
# Keys and types

The key of a type is the full name of the type without the options around it.  As long as distinct types have distinct
names, `Shape.keysTell` says what keys are for: two types have the same key exactly if they are the same but for options
around them.
-/

namespace RecordTables.Shape

/-- The type without the options around it. -/
def withoutOptions : Shape → Shape
  | .option content => content.withoutOptions
  | s => s

/-- How a type is built from others. -/
def former? : Shape → Option Former
  | .option _ => some .option
  | .box _ => some .box
  | .list _ => some .list
  | .map _ _ => some .map
  | .tuple (_ :: _) => some .tuple
  | .array _ _ => some .array
  | _ => none

mutual

/-- The types of their own of which a type is built.  What a type of its own consists of does not show in its name. -/
def bases : Shape → List Shape
  | .option content => content.bases
  | .box content => content.bases
  | .list item => item.bases
  | .map key value => key.bases ++ value.bases
  | .tuple (first :: rest) => first.bases ++ basesOf rest
  | .array item _ => item.bases
  | s => [s]

def basesOf : List Shape → List Shape
  | [] => []
  | s :: rest => s.bases ++ basesOf rest

end

/-- Types of their own with regular names, none of which is the name of a type that is built from others. -/
structure Named (types : List Shape) : Prop where
  regular : ∀ s ∈ types, s.typeName.regular = true
  own : ∀ s ∈ types, s.typeName.former? = none

/-- Distinct types have distinct names. -/
def Distinct (types : List Shape) : Prop := ∀ s ∈ types, ∀ t ∈ types, s.typeName = t.typeName → s = t

theorem Named.mono {types more : List Shape} (h : Named more) (hsub : types ⊆ more) : Named types :=
  ⟨fun s hs => h.regular s (hsub hs), fun s hs => h.own s (hsub hs)⟩

theorem Distinct.mono {types more : List Shape} (h : Distinct more) (hsub : types ⊆ more) : Distinct types :=
  fun s hs t ht => h s (hsub hs) t (hsub ht)

theorem Distinct.fronts {first second rest rest' : List Shape} (h : Distinct ((first ++ rest) ++ (second ++ rest'))) :
    Distinct (first ++ second) := by
  refine h.mono fun s hs => ?_
  rcases List.mem_append.1 hs with hs | hs <;> simp [hs]

theorem Distinct.rests {first second rest rest' : List Shape} (h : Distinct ((first ++ rest) ++ (second ++ rest'))) :
    Distinct (rest ++ rest') := by
  refine h.mono fun s hs => ?_
  rcases List.mem_append.1 hs with hs | hs <;> simp [hs]

theorem bases_of_former?_eq_none {s : Shape} (h : s.former? = none) : s.bases = [s] := by
  cases s with
  | tuple items =>
      cases items with
      | nil => rfl
      | cons first rest => cases h
  | option content => cases h
  | box content => cases h
  | list item => cases h
  | map key value => cases h
  | array item length => cases h
  | _ => rfl

theorem Distinct.eq_of_own {s t : Shape} (h : Distinct (s.bases ++ t.bases)) (hs : s.former? = none)
    (ht : t.former? = none) (hname : s.typeName = t.typeName) : s = t := by
  rw [bases_of_former?_eq_none hs, bases_of_former?_eq_none ht] at h
  exact h s (by simp) t (by simp) hname

/-- The name of a type says how it is built. -/
theorem former?_typeName {s : Shape} (h : Named s.bases) : s.typeName.former? = s.former? := by
  cases hs : s.former? with
  | none => exact h.own s (bases_of_former?_eq_none hs ▸ List.mem_singleton_self s)
  | some former =>
      rw [← hs]
      cases s with
      | tuple items =>
          cases items with
          | nil => rfl
          | cons first rest => rfl
      | option content => rfl
      | box content => rfl
      | list item => rfl
      | map key value => rfl
      | array item length => rfl
      | _ => cases hs

/-! ## Keys -/

theorem key_option_eq (content : Shape) : (Shape.option content).key = (content.key.1, true) :=
  placeholderKey_option content.typeName

theorem former?_eq_option {s : Shape} : s.former? = some .option ↔ ∃ content, s = .option content := by
  cases s with
  | tuple items => cases items <;> simp [former?]
  | _ => simp [former?]

mutual

/-- What is built from types with regular names has a regular name. -/
theorem regular_typeName : ∀ s : Shape, Named s.bases → s.typeName.regular = true := by
  intro s h
  cases s with
  | option content | box content | list content => exact TypeName.regular_wrapper rfl (regular_typeName content h)
  | map key value =>
      have hkey := regular_typeName key (h.mono (List.subset_append_left ..))
      have hvalue := regular_typeName value (h.mono (List.subset_append_right ..))
      rw [typeName, TypeName.map, TypeName.regular_named_iff, List.forall_mem_cons, List.forall_mem_singleton]
      exact ⟨TypeName.unmarked_iff.1 rfl, fun hpath => absurd hpath (by decide), hkey, hvalue⟩
  | tuple items =>
      cases items with
      | nil => rfl
      | cons first rest =>
          have hfirst := regular_typeName first (h.mono (List.subset_append_left ..))
          have hrest := regular_typeNames rest (h.mono (List.subset_append_right ..))
          rw [typeName, TypeName.regular, typeNames, TypeName.regularAll, hfirst, hrest]
          rfl
  | array item length => exact regular_typeName item h
  | _ => exact h.regular _ (List.mem_singleton_self _)

theorem regular_typeNames : ∀ items : List Shape, Named (basesOf items) →
    TypeName.regularAll (typeNames items) = true := by
  intro items h
  cases items with
  | nil => rfl
  | cons s rest =>
      have hs := regular_typeName s (h.mono (List.subset_append_left ..))
      have hrest := regular_typeNames rest (h.mono (List.subset_append_right ..))
      rw [typeNames, TypeName.regularAll, hs, hrest]
      rfl

end

/-- A type that is no option has its name as its key. -/
theorem key_plain {s : Shape} (h : Named s.bases) (hs : s.former? ≠ some .option) :
    s.key = (s.typeName.text, false) := by
  have hnone : between? optionStart '>' s.typeName.text.toList = none := by
    cases hinner : between? optionStart '>' s.typeName.text.toList with
    | none => rfl
    | some inner =>
        have hoption := TypeName.former?_of_between (regular_typeName s h) hinner
        rw [former?_typeName h] at hoption
        exact absurd hoption hs
  have hflag : (placeholderKey s.typeName.text).2 = false := by rw [placeholderKey_snd, hnone, Option.isSome_none]
  exact Prod.ext (placeholderKey_plain hflag) hflag

/-- Options are stripped one after the other, and nothing else is. -/
theorem key_eq {s : Shape} (h : Named s.bases) : s.key.1 = s.withoutOptions.typeName.text := by
  induction s using withoutOptions.induct with
  | case1 content ih =>
      rw [key_option_eq, withoutOptions]
      exact ih h
  | case2 s hs =>
      have hplain : s.withoutOptions = s := by
        rw [withoutOptions]
        exact hs
      have hoption : s.former? ≠ some .option := fun h => by
        obtain ⟨content, heq⟩ := former?_eq_option.1 h
        exact hs content heq
      rw [key_plain h hoption, hplain]

mutual

/-- Types with one name are the same, if that holds of the types of their own in them. -/
theorem eq_of_typeName : ∀ s t : Shape, Named s.bases → Named t.bases → Distinct (s.bases ++ t.bases) →
    s.typeName = t.typeName → s = t := by
  intro s t hs ht hdistinct h
  have hformer : t.former? = s.former? := by rw [← former?_typeName hs, ← former?_typeName ht, h]
  cases s with
  | option content =>
      cases t with
      | option content' =>
          simp only [typeName, TypeName.option, TypeName.named.injEq, List.cons.injEq, and_true, true_and] at h
          rw [eq_of_typeName content content' hs ht hdistinct h]
      | tuple items => cases items <;> cases hformer
      | _ => cases hformer
  | box content =>
      cases t with
      | box content' =>
          simp only [typeName, TypeName.box, TypeName.named.injEq, List.cons.injEq, and_true, true_and] at h
          rw [eq_of_typeName content content' hs ht hdistinct h]
      | tuple items => cases items <;> cases hformer
      | _ => cases hformer
  | list item =>
      cases t with
      | list item' =>
          simp only [typeName, TypeName.list, TypeName.named.injEq, List.cons.injEq, and_true, true_and] at h
          rw [eq_of_typeName item item' hs ht hdistinct h]
      | tuple items => cases items <;> cases hformer
      | _ => cases hformer
  | map key value =>
      cases t with
      | map key' value' =>
          simp only [typeName, TypeName.map, TypeName.named.injEq, List.cons.injEq, and_true, true_and] at h
          have hkey := eq_of_typeName key key' (hs.mono (List.subset_append_left ..))
            (ht.mono (List.subset_append_left ..)) hdistinct.fronts h.1
          have hvalue := eq_of_typeName value value' (hs.mono (List.subset_append_right ..))
            (ht.mono (List.subset_append_right ..)) hdistinct.rests h.2
          rw [hkey, hvalue]
      | tuple items => cases items <;> cases hformer
      | _ => cases hformer
  | tuple items =>
      cases items with
      | nil => exact hdistinct.eq_of_own rfl hformer h
      | cons first rest =>
          cases t with
          | tuple items' =>
              cases items' with
              | nil => cases hformer
              | cons first' rest' =>
                  simp only [typeName, typeNames, TypeName.tuple.injEq, List.cons.injEq] at h
                  have hfirst := eq_of_typeName first first' (hs.mono (List.subset_append_left ..))
                    (ht.mono (List.subset_append_left ..)) hdistinct.fronts h.1
                  have hrest := eq_of_typeNames rest rest' (hs.mono (List.subset_append_right ..))
                    (ht.mono (List.subset_append_right ..)) hdistinct.rests h.2
                  rw [hfirst, hrest]
          | _ => cases hformer
  | array item length =>
      cases t with
      | array item' length' =>
          simp only [typeName, TypeName.array.injEq] at h
          rw [eq_of_typeName item item' hs ht hdistinct h.1, h.2]
      | tuple items => cases items <;> cases hformer
      | _ => cases hformer
  | _ => exact hdistinct.eq_of_own rfl hformer h

theorem eq_of_typeNames : ∀ items others : List Shape, Named (basesOf items) → Named (basesOf others) →
    Distinct (basesOf items ++ basesOf others) → typeNames items = typeNames others → items = others := by
  intro items others hitems hothers hdistinct h
  cases items with
  | nil =>
      cases others with
      | nil => rfl
      | cons t others => cases h
  | cons s items =>
      cases others with
      | nil => cases h
      | cons t others =>
          simp only [typeNames, List.cons.injEq] at h
          have hfirst := eq_of_typeName s t (hitems.mono (List.subset_append_left ..))
            (hothers.mono (List.subset_append_left ..)) hdistinct.fronts h.1
          have hrest := eq_of_typeNames items others (hitems.mono (List.subset_append_right ..))
            (hothers.mono (List.subset_append_right ..)) hdistinct.rests h.2
          rw [hfirst, hrest]

end

/-- What the keys of two types tell of them. -/
structure KeysTell (s t : Shape) : Prop where
  /-- The options around a type are stripped, all of them, and those inside it stay. -/
  stripped : s.key.1 = s.withoutOptions.typeName.text
  optional : s.key.2 = true ↔ ∃ content, s = .option content
  same_name : s.key.1 = t.key.1 ↔ s.withoutOptions.typeName = t.withoutOptions.typeName
  same : Distinct (s.bases ++ t.bases) → (s.key.1 = t.key.1 ↔ s.withoutOptions = t.withoutOptions)

theorem bases_withoutOptions (s : Shape) : s.withoutOptions.bases = s.bases := by
  induction s using withoutOptions.induct with
  | case1 content ih => rw [withoutOptions, ih, bases]
  | case2 s hs => rw [withoutOptions]; exact hs

/-- The full name of a type can be read in one way only, so the key tells the type without the options around it. -/
theorem keysTell {s t : Shape} (hs : Named s.bases) (ht : Named t.bases) : KeysTell s t := by
  have hs' : Named s.withoutOptions.bases := by rwa [bases_withoutOptions]
  have ht' : Named t.withoutOptions.bases := by rwa [bases_withoutOptions]
  have hname : s.key.1 = t.key.1 ↔ s.withoutOptions.typeName = t.withoutOptions.typeName := by
    rw [key_eq hs, key_eq ht, TypeName.text_inj (regular_typeName _ hs') (regular_typeName _ ht')]
  refine ⟨key_eq hs, ?_, hname, fun hdistinct => ?_⟩
  · rw [← former?_eq_option]
    by_cases hoption : s.former? = some .option
    · obtain ⟨content, rfl⟩ := former?_eq_option.1 hoption
      simp [key_option_eq, hoption]
    · simp [key_plain hs hoption, hoption]
  · rw [hname]
    refine ⟨eq_of_typeName _ _ hs' ht' ?_, fun h => by rw [h]⟩
    rwa [bases_withoutOptions, bases_withoutOptions]

/-- A list that may be missing, of handles that may be missing. -/
def optionalHandles : Shape := .option (.option (.list (.option (Gallery.handle "gallery"))))

/-- A list of handles. -/
def requiredHandles : Shape := .list (Gallery.handle "gallery")

/-- The options around the list are stripped, and the option inside it is told by the key. -/
theorem keysTell_handles : Named optionalHandles.bases ∧ Named requiredHandles.bases ∧
    optionalHandles.key = ("alloc::vec::Vec<core::option::Option<gallery::Handle>>", true) ∧
      optionalHandles.key.1 ≠ requiredHandles.key.1 := by
  have hnamed : Named [Gallery.handle "gallery"] := ⟨by decide, by decide⟩
  have htell : KeysTell optionalHandles requiredHandles := keysTell hnamed hnamed
  have hdistinct : Distinct (optionalHandles.bases ++ requiredHandles.bases) := by
    have hsame : ∀ s ∈ [Gallery.handle "gallery", Gallery.handle "gallery"], s = Gallery.handle "gallery" := by simp
    exact fun s hs t ht _ => (hsame s hs).trans (hsame t ht).symm
  refine ⟨hnamed, hnamed, Prod.ext (htell.stripped.trans rfl) (htell.optional.2 ⟨_, rfl⟩), ?_⟩
  rw [ne_eq, htell.same hdistinct]
  intro h
  cases h

end RecordTables.Shape
