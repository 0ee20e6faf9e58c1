import RecordTables.Record.Probe

/-!
# Keys of samples

A sample is looked up under the name of a type without its options, which is never the name of an option itself.  A sample
that was registered for an option is thus never found, and what is made up is the same with it and without it.
-/

namespace RecordTables

/-- What stands in front of the name of the content of an option. -/
def optionStart : List Char := TypeName.optionPath.toList ++ ['<']

theorem between_eq_some {start : List Char} {last : Char} {text inner : List Char} :
    between? start last text = some inner ↔ text = start ++ inner ++ [last] := by
  unfold between?
  constructor
  · intro h
    split at h
    · rename_i hprefix
      obtain ⟨rest, rfl⟩ := List.isPrefixOf_iff_prefix.1 hprefix
      simp only [List.drop_left] at h
      split at h
      · rename_i hlast
        obtain ⟨before, rfl⟩ := List.getLast?_eq_some_iff.1 hlast
        rw [List.dropLast_concat] at h
        cases h
        rw [List.append_assoc]
      · cases h
    · cases h
  · rintro rfl
    have hprefix : start.isPrefixOf (start ++ inner ++ [last]) = true := by
      rw [List.isPrefixOf_iff_prefix, List.append_assoc]
      exact List.prefix_append _ _
    rw [if_pos hprefix, List.append_assoc, List.drop_left]
    simp

/-- Each option takes characters of the name, so what it encloses is shorter. -/
theorem length_lt_of_between {name inner : List Char} (h : between? optionStart '>' name = some inner) :
    inner.length < name.length := by
  rw [between_eq_some.1 h]
  simp only [List.length_append, List.length_singleton]
  omega

/-- Once there are enough steps, further ones make no difference. -/
theorem stripOptions_of_le {name : List Char} {fuel more : Nat} (h : name.length ≤ fuel) (hmore : name.length ≤ more) :
    stripOptions fuel name = stripOptions more name := by
  induction fuel generalizing more name with
  | zero =>
      rw [List.length_eq_zero_iff.1 (Nat.le_zero.1 h)]
      cases more <;> rfl
  | succ fuel ih =>
      cases more with
      | zero =>
          rw [List.length_eq_zero_iff.1 (Nat.le_zero.1 hmore)]
          rfl
      | succ more =>
          rw [stripOptions, stripOptions]
          split
          · rename_i inner hinner
            have hshorter := length_lt_of_between hinner
            have hsteps := @ih inner more (by omega) (by omega)
            rw [hsteps]
          · rfl

/-- What is left has no option around it. -/
theorem between_stripOptions {name : List Char} {fuel : Nat} (h : name.length ≤ fuel) :
    between? optionStart '>' (stripOptions fuel name).1 = none := by
  induction fuel generalizing name with
  | zero =>
      rw [List.length_eq_zero_iff.1 (Nat.le_zero.1 h)]
      rfl
  | succ fuel ih =>
      rw [stripOptions]
      split
      · rename_i inner hinner
        have hshorter := length_lt_of_between hinner
        exact ih (by omega)
      · assumption

/-- A name that has no option around it is its own key. -/
theorem stripOptions_plain {name : List Char} (fuel : Nat) (h : between? optionStart '>' name = none) :
    stripOptions fuel name = (name, false) := by
  cases fuel with
  | zero => rfl
  | succ fuel =>
      have hnone : between? (TypeName.optionPath.toList ++ ['<']) '>' name = none := h
      rw [stripOptions, hnone]

theorem between_placeholderKey (name : String) : between? optionStart '>' (placeholderKey name).1.toList = none := by
  have hkey : (placeholderKey name).1.toList = (stripOptions name.length name.toList).1 := String.toList_ofList
  rw [hkey]
  exact between_stripOptions (Nat.le_of_eq String.length_toList)

theorem placeholderKey_snd (name : String) :
    (placeholderKey name).2 = (between? optionStart '>' name.toList).isSome := by
  have hkey : (placeholderKey name).2 = (stripOptions name.length name.toList).2 := rfl
  rw [hkey]
  cases hinner : between? optionStart '>' name.toList with
  | none => rw [stripOptions_plain _ hinner, Option.isSome_none]
  | some inner =>
      have hshorter := length_lt_of_between hinner
      rw [String.length_toList] at hshorter
      obtain ⟨fuel, hfuel⟩ : ∃ fuel, name.length = fuel + 1 := Nat.exists_eq_succ_of_ne_zero (by omega)
      have hsome : between? (TypeName.optionPath.toList ++ ['<']) '>' name.toList = some inner := hinner
      rw [hfuel, stripOptions, hsome, Option.isSome_some]

/-- A name that is not that of an option is its own key. -/
theorem placeholderKey_plain {name : String} (h : (placeholderKey name).2 = false) : (placeholderKey name).1 = name := by
  rw [placeholderKey_snd, Option.isSome_eq_false_iff, Option.isNone_iff_eq_none] at h
  have hkey : (placeholderKey name).1 = String.ofList (stripOptions name.length name.toList).1 := rfl
  rw [hkey, stripOptions_plain _ h, String.ofList_toList]

/-- No key is the name of an option. -/
theorem placeholderKey_ne {name other : String} (h : (placeholderKey name).2 = true) : (placeholderKey other).1 ≠ name := by
  rintro rfl
  rw [placeholderKey_snd, between_placeholderKey] at h
  cases h

/-- An option has the key of its content. -/
theorem placeholderKey_option (name : TypeName) :
    placeholderKey (TypeName.option name).text = ((placeholderKey name.text).1, true) := by
  have htext : (TypeName.option name).text.toList = optionStart ++ name.text.toList ++ ['>'] := by
    simp [TypeName.option, TypeName.text, TypeName.textRest, optionStart]
  have hinner := between_eq_some.2 htext
  have hflag : (placeholderKey (TypeName.option name).text).2 = true := by
    rw [placeholderKey_snd, hinner, Option.isSome_some]
  refine Prod.ext ?_ hflag
  have hshorter := length_lt_of_between hinner
  rw [String.length_toList, String.length_toList] at hshorter
  obtain ⟨fuel, hfuel⟩ : ∃ fuel, (TypeName.option name).text.length = fuel + 1 :=
    Nat.exists_eq_succ_of_ne_zero (by omega)
  have hsome : between? (TypeName.optionPath.toList ++ ['<']) '>' (TypeName.option name).text.toList =
      some name.text.toList := hinner
  have houter : (placeholderKey (TypeName.option name).text).1 =
      String.ofList (stripOptions (TypeName.option name).text.length (TypeName.option name).text.toList).1 := rfl
  have hcontent : (placeholderKey name.text).1 = String.ofList (stripOptions name.text.length name.text.toList).1 := rfl
  have hsteps := @stripOptions_of_le name.text.toList fuel name.text.length (by rw [String.length_toList]; omega)
    (Nat.le_of_eq String.length_toList)
  rw [houter, hcontent, hfuel, stripOptions, hsome]
  simp only [hsteps]

/-! ## Samples that are never looked up -/

/-- Registries that have the same samples under all keys, though not under all names. -/
structure Registry.SameKeys (registry registry' : Registry) : Prop where
  lookup : ∀ name, registry'.lookup (placeholderKey name).1 = registry.lookup (placeholderKey name).1

namespace Shape

variable {registry registry' : Registry}

theorem settleShape_congr (h : registry.SameKeys registry') (around s : Shape) (probed : Outcome Probed) :
    settleShape registry' around s probed = settleShape registry around s probed := by
  simp only [settleShape, settle, key, h.lookup]

theorem settleContent_congr (h : registry.SameKeys registry') (around : Shape) (name : TypeName) (variant : String)
    (payload : Payload) (probed : Outcome Probed) :
    settleContent registry' around name variant payload probed =
      settleContent registry around name variant payload probed := by
  simp only [settleContent, settle, h.lookup]

mutual

/-- Registries that have the same samples under all keys make up the same. -/
theorem probe_congr (h : registry.SameKeys registry') (around : Shape) :
    ∀ s : Shape, probe registry' around s = probe registry around s
  | .option content => by rw [probe, probe, probe_congr h around content]
  | .box content => by rw [probe, probe, probe_congr h around content]
  | .transparent _ content => by rw [probe, probe, probe_congr h around content]
  | .newtype _ content => by rw [probe, probe, probe_congr h around content]
  | .checked _ content _ => by rw [probe, probe, probe_congr h around content]
  | .guarded _ content _ => by rw [probe, probe, probe_congr h around content]
  | .array item _ => by rw [probe, probe, probe_congr h around item, settleShape_congr h]
  | .tuple items => by rw [probe, probe, probeItems_congr h around items]
  | .tupleStruct _ items => by rw [probe, probe, probeItems_congr h around items]
  | .record name strict fields => by rw [probe, probe, probeFields_congr h (.record name strict fields) fields]
  | .choice _ [] => by rw [probe, probe]
  | .choice _ ((_, payload) :: _) => by rw [probe, probe, probePayload_congr h around payload]
  | .adjacent _ _ _ [] => by rw [probe, probe]
  | .adjacent _ _ _ ((_, payload) :: _) => by
      rw [probe, probe, probeContent_congr h around payload, settleContent_congr h]
  | .bool | .int _ | .single | .double | .char | .text | .bytes _ | .unit _ | .list _ | .map _ _ | .enclosing _
  | .tagged _ _ _ | .untagged _ _ | .anything _ | .ignored _ | .label _ | .pairs _ _ _ | .flattened _ _ => by
      rw [probe, probe]

theorem probeItems_congr (h : registry.SameKeys registry') (around : Shape) :
    ∀ items : List Shape, probeItems registry' around items = probeItems registry around items
  | [] => by rw [probeItems, probeItems]
  | s :: rest => by
      rw [probeItems, probeItems, probe_congr h around s, probeItems_congr h around rest, settleShape_congr h]

theorem probeFields_congr (h : registry.SameKeys registry') (around : Shape) :
    ∀ fields : List (Field × Shape), probeFields registry' around fields = probeFields registry around fields
  | [] => by rw [probeFields, probeFields]
  | (f, s) :: rest => by
      rw [probeFields, probeFields, probe_congr h around s, probeFields_congr h around rest, settleShape_congr h]

theorem probePayload_congr (h : registry.SameKeys registry') (around : Shape) :
    ∀ payload : Payload, probePayload registry' around payload = probePayload registry around payload
  | .unit => by rw [probePayload, probePayload]
  | .newtype content => by rw [probePayload, probePayload, probe_congr h around content, settleShape_congr h]
  | .tuple items => by rw [probePayload, probePayload, probeItems_congr h around items]
  | .fields fields => by rw [probePayload, probePayload, probeFields_congr h around fields]

theorem probeContent_congr (h : registry.SameKeys registry') (around : Shape) :
    ∀ payload : Payload, probeContent registry' around payload = probeContent registry around payload
  | .unit => by rw [probeContent, probeContent]
  | .newtype content => by rw [probeContent, probeContent, probe_congr h around content]
  | .tuple items => by rw [probeContent, probeContent, probeItems_congr h around items]
  | .fields fields => by rw [probeContent, probeContent, probeFields_congr h around fields]

end

end Shape

end RecordTables
