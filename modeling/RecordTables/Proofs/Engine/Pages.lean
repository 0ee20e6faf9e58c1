import RecordTables.Proofs.Engine.PageTexts
import RecordTables.Proofs.Engine.Selected
import RecordTables.Proofs.Number.Beyond

/-!
# Pages of selections

A selection with a limit and an offset finds what it finds without them, and gives one stretch of it; bounds that are no
integers of eight bytes are refused.  An ordering can make the engine walk another way for a small limit, so that rows
alike in the ordering are met in another order.
-/

namespace RecordTables.Engine

/-! ## Bounds -/

/-- A numeral of an integer of eight bytes is that integer. -/
theorem integerLiteral_of_lt {n : Nat} (h : n < 2 ^ 63) : integerLiteral n = .int (Int64.ofNat n) := by
  have hbound : signedBound = 2 ^ 63 := rfl
  have hsigned : signedInteger? (n : Nat) = some (Int64.ofNat n) := by
    rw [signedInteger?, if_pos (by omega), Int64.ofInt_eq_ofNat]
  rw [integerLiteral, signedInteger, digitsValue_toDigits]
  simp only [Bool.false_eq_true, if_false, hsigned]

/-- The count that a bound stands for: zero bounds nothing. -/
def countOf (n : UInt64) : Option Nat := if n = 0 then none else some n.toNat

theorem pageBound_literal (parameters : Array StoredValue) (v : StoredValue) :
    pageBound parameters (some (.literal v)) = match rowNumber? v with
      | some n => .ok (if n < 0 then none else some n.toNatClampNeg)
      | none => .error .datatypeMismatch := by
  show (match rowNumber? v with
      | some n => pure (if n < 0 then none else some n.toNatClampNeg)
      | none => throw .datatypeMismatch : Except Failure (Option Nat)) = _
  cases rowNumber? v <;> rfl

theorem pageBound_boundOf (parameters : Array StoredValue) {n : UInt64} (h : n.toNat < 2 ^ 63) :
    pageBound parameters (Reading.boundOf n) = .ok (countOf n) := by
  unfold Reading.boundOf countOf
  split
  · rfl
  · have hnonneg : ¬ Int64.ofNat n.toNat < 0 := by
      rw [Int64.lt_iff_toInt_lt, Int64.toInt_ofNat_of_lt h]
      exact not_lt_of_ge (Int.natCast_nonneg _)
    have hnumber : rowNumber? (.int (Int64.ofNat n.toNat)) = some (Int64.ofNat n.toNat) := rfl
    rw [pageBound_literal, integerLiteral_of_lt h, hnumber]
    simp only [if_neg hnonneg, Int64.toNatClampNeg_ofNat_of_lt h]

theorem pageOf_countOf {α : Type} {n : UInt64} (hn : n ≠ 0) (m : UInt64) (rows : List α) :
    pageOf (countOf n) (countOf m) rows = (rows.drop m.toNat).take n.toNat := by
  have hoffset : (countOf m).getD 0 = m.toNat := by
    unfold countOf
    split
    · rename_i hm
      rw [hm]
      rfl
    · rfl
  rw [countOf, if_neg hn]
  show (rows.drop ((countOf m).getD 0)).take n.toNat = _
  rw [hoffset]

/-- A bound from `2 ^ 63` on is refused. -/
theorem pageBound_beyond (parameters : Array StoredValue) {n : UInt64} (h : 2 ^ 63 ≤ n.toNat) :
    pageBound parameters (Reading.boundOf n) = .error .datatypeMismatch := by
  have hpositive : n ≠ 0 := by
    rintro rfl
    exact absurd h (by decide)
  have hnone : rowNumber? (integerLiteral n.toNat) = none := rowNumber?_beyond h n.toNat_lt
  rw [Reading.boundOf, if_neg hpositive, pageBound_literal, hnone]

/-! ## Walks -/

namespace Walk

variable {search : Search} (l : Option Magnitude)

/-- What alternatives cost does not depend on how many rows are asked for. -/
theorem alternativeEstimate_limit (others : List Candidate) (around : List Bound) (t : Term) :
    alternativeEstimate { search with limit := l } others around t = alternativeEstimate search others around t := by
  have hroute : ∀ c, routeEstimate { search with limit := l } others c = routeEstimate search others c := fun _ => rfl
  refine alternativeEstimate.induct search others
    (fun around t =>
      alternativeEstimate { search with limit := l } others around t = alternativeEstimate search others around t)
    (fun around sum branches => branchesEstimate { search with limit := l } others around sum branches =
      branchesEstimate search others around sum branches)
    (fun around best terms => nestedEstimate { search with limit := l } others around best terms =
      nestedEstimate search others around best terms) ?_ ?_ ?_ ?_ ?_ ?_ ?_ ?_ around t
  · intro around facts
    rw [alternativeEstimate, alternativeEstimate]
  · intro around facts branches _ ih
    rw [alternativeEstimate, alternativeEstimate, ih]
  · intro around facts branches hfree
    rw [alternativeEstimate, alternativeEstimate, if_neg hfree, if_neg hfree]
  · intro around sum
    rw [branchesEstimate, branchesEstimate]
  · intro around sum terms rest bounds direct hnone ih
    dsimp only [bounds, direct] at hnone ih
    rw [branchesEstimate, branchesEstimate, hroute, ih, hnone]
  · intro around sum terms rest bounds direct e he total ih ihrest
    dsimp only [bounds, direct] at he ih
    rw [branchesEstimate, branchesEstimate, hroute, ih, he]
    exact ihrest
  · intro around best
    rw [nestedEstimate, nestedEstimate]
  · intro around best t rest better ih ihrest
    rw [nestedEstimate, nestedEstimate, ih]
    exact ihrest

theorem choose?_limit (h : search.order = []) (terms : List Term) :
    choose? { search with limit := l } terms = choose? search terms := by
  have hcandidates : candidates { search with limit := l } terms = candidates search terms := by
    unfold candidates
    simp only [alternativeEstimate_limit]
    rfl
  unfold choose?
  rw [hcandidates, h]
  rfl

theorem ofTerms_limit (h : search.order = []) (fuel : Nat) (terms : List Term) :
    ofTerms { search with limit := l } fuel terms = ofTerms search fuel terms := by
  cases fuel with
  | zero => rfl
  | succ fuel => rw [ofTerms, ofTerms, choose?_limit l h]

end Walk

/-! ## Selections -/

namespace PlannedSelection

variable {s : PlannedSelection} {parameters : Array StoredValue} {page : Page}

/-- Without an ordering a table is walked in one way, whatever the page. -/
theorem walk_page (h : s.order = []) (page : Page) (t : Table) (parameters : Array StoredValue) :
    ({ s with page } : PlannedSelection).walk t parameters = s.walk t parameters := by
  refine @Walk.ofTerms_limit ⟨t, _, s.fixedLimit?.map Magnitude.ofCount, _, _, _⟩ _ ?_ _ _
  exact List.map_eq_nil_iff.2 h

theorem found_page (h : s.order = []) (page : Page) (parameters : Array StoredValue) :
    ({ s with page } : PlannedSelection).found parameters = s.found parameters := by
  unfold found
  simp only [walk_page h]

/-- The way of walking depends on the limit alone. -/
theorem found_offset (limit offset offset' : Option Expr) (parameters : Array StoredValue) :
    ({ s with page := ⟨limit, offset⟩ } : PlannedSelection).found parameters =
      ({ s with page := ⟨limit, offset'⟩ } : PlannedSelection).found parameters := rfl

/-- The rows of a result that are made of those that are met. -/
def shown (s : PlannedSelection) (parameters : Array StoredValue) (met : List Affinity × List (List StoredValue)) :
    Except Failure (List (List StoredValue)) := do
  let scope (row : List StoredValue) (count : Nat) : Scope := ⟨parameters, row, met.1, count⟩
  let keyed ← met.2.mapM fun row => do
    return (← s.order.mapM fun k => do return (← evaluate (scope row 0) k.key, k.descending), row)
  let sorted := (keyed.mergeSort fun a b => keysLe a.1 b.1).map Prod.snd
  if s.counts then do pure [← s.values.mapM (evaluate (scope [] met.2.length))]
  else sorted.mapM fun row => s.values.mapM (evaluate (scope row 0))

theorem run_eq (s : PlannedSelection) (parameters : Array StoredValue) : s.run parameters = (do
    let limit ← pageBound parameters s.page.limit
    let offset ← pageBound parameters s.page.offset
    let met ← s.found parameters
    let rows ← s.shown parameters met
    return ⟨s.names, pageOf limit offset rows⟩) := by
  unfold run shown
  refine bind_congr fun limit => bind_congr fun offset => bind_congr fun met => ?_
  rw [bind_assoc]
  refine bind_congr fun keyed => ?_
  cases s.counts with
  | true => simp only [if_true, bind_assoc]
  | false => rfl

theorem of_run_unpaged {result : Result} (hpage : s.page = ⟨none, none⟩) (h : s.run parameters = .ok result) :
    ∃ met, s.found parameters = .ok met ∧ s.shown parameters met = .ok result.rows ∧ s.names = result.names := by
  rw [run_eq, hpage] at h
  obtain ⟨_, hlimit, h⟩ := bind_eq_ok.1 h
  cases hlimit
  obtain ⟨_, hoffset, h⟩ := bind_eq_ok.1 h
  cases hoffset
  obtain ⟨met, hmet, h⟩ := bind_eq_ok.1 h
  obtain ⟨rows, hrows, h⟩ := bind_eq_ok.1 h
  cases h
  exact ⟨met, hmet, by rw [hrows, pageOf, Option.getD_none, List.drop_zero], rfl⟩

/-- The page of a selection is cut from all its rows. -/
theorem run_paged {limit offset : Option Nat} {met : List Affinity × List (List StoredValue)}
    {rows : List (List StoredValue)} (hlimit : pageBound parameters page.limit = .ok limit)
    (hoffset : pageBound parameters page.offset = .ok offset)
    (hfound : ({ s with page } : PlannedSelection).found parameters = .ok met)
    (hshown : s.shown parameters met = .ok rows) :
    ({ s with page } : PlannedSelection).run parameters = .ok ⟨s.names, pageOf limit offset rows⟩ := by
  rw [run_eq]
  exact bind_eq_ok.2 ⟨limit, hlimit, bind_eq_ok.2 ⟨offset, hoffset, bind_eq_ok.2 ⟨met, hfound,
    bind_eq_ok.2 ⟨rows, hshown, rfl⟩⟩⟩⟩

/-- A bound that is refused is refused before any row is looked at. -/
theorem run_refused {e : Failure} (h : pageBound parameters page.limit = .error e ∨
      (∃ limit, pageBound parameters page.limit = .ok limit) ∧ pageBound parameters page.offset = .error e) :
    ({ s with page } : PlannedSelection).run parameters = .error e := by
  rw [run_eq]
  rcases h with hlimit | ⟨⟨limit, hlimit⟩, hoffset⟩
  · simp only [hlimit]
    rfl
  · simp only [hlimit, hoffset]
    rfl

end PlannedSelection

/-- Bounds of a page change nothing else in the meaning of a selection. -/
theorem Store.planSelection_paged {store : Store} {s : Selection} {planned : PlannedSelection}
    (hnone : s.limit = none ∧ s.offset = none) (h : store.planSelection s = .ok planned) :
    planned.page = ⟨none, none⟩ ∧ (s.order = [] → planned.order = []) ∧ ∀ limit offset,
      store.planSelection { s with limit := Reading.boundOf limit, offset := Reading.boundOf offset } =
        .ok { planned with page := ⟨Reading.boundOf limit, Reading.boundOf offset⟩ } := by
  have hbound : ∀ n, resolveFilter [] (Reading.boundOf n) = .ok (Reading.boundOf n) := by
    intro n
    unfold Reading.boundOf
    split <;> rfl
  unfold planSelection at h ⊢
  obtain ⟨source, hsource, h⟩ := bind_eq_ok.1 h
  obtain ⟨results, hresults, h⟩ := bind_eq_ok.1 h
  by_cases hwide : maxColumns < results.length
  · rw [if_pos hwide] at h
    cases h
  rw [if_neg hwide] at h
  obtain ⟨filter, hfilter, h⟩ := bind_eq_ok.1 h
  by_cases hlong : maxColumns < s.order.length
  · rw [if_pos hlong] at h
    cases h
  rw [if_neg hlong] at h
  obtain ⟨order, horder, h⟩ := bind_eq_ok.1 h
  rw [hnone.1, hnone.2] at h
  cases h
  refine ⟨rfl, fun hempty => ?_, fun limit offset => ?_⟩
  · rw [hempty] at horder
    cases horder
    rfl
  · refine bind_eq_ok.2 ⟨source, hsource, bind_eq_ok.2 ⟨results, hresults, ?_⟩⟩
    rw [if_neg hwide]
    refine bind_eq_ok.2 ⟨filter, hfilter, ?_⟩
    rw [if_neg hlong]
    exact bind_eq_ok.2 ⟨order, horder, bind_eq_ok.2 ⟨_, hbound limit, bind_eq_ok.2 ⟨_, hbound offset, rfl⟩⟩⟩

/-! ## Statements -/

namespace Connection

variable {c : Connection} {text : String} {parameters : List StoredValue}

/-- The rows that a statement finds, in the order in which the engine meets them. -/
def met (c : Connection) (text : String) (parameters : List StoredValue) :
    Except Failure (List Affinity × List (List StoredValue)) := do
  match ← c.planOf text parameters with
  | .select s => s.found parameters.toArray
  | _ => .ok ([], [])

theorem met_of_planOf {s : PlannedSelection} (h : c.planOf text parameters = .ok (.select s)) :
    c.met text parameters = s.found parameters.toArray := by
  simp only [met, h]
  rfl

theorem planOf_select {s : Selection} {needed : Nat} {p : Plan}
    (htext : Statement.ofText text = .ok (.select s, needed)) :
    c.planOf text parameters = .ok p ↔
      ∃ planned, p = .select planned ∧ c.store.planSelection s = .ok planned ∧ parameters.length = needed := by
  have hplan : c.planOf text parameters = (c.store.planSelection s >>= fun planned =>
      if parameters.length = needed then .ok (.select planned)
      else .error (.parameterCount parameters.length needed)) := by
    simp only [planOf, htext, bind, Except.bind, Store.plan]
    cases c.store.planSelection s <;> rfl
  rw [hplan, bind_eq_ok]
  constructor
  · rintro ⟨planned, hplanned, h⟩
    split at h
    · cases h
      exact ⟨planned, rfl, hplanned, ‹_›⟩
    · cases h
  · rintro ⟨planned, rfl, hplanned, hneeded⟩
    exact ⟨planned, hplanned, if_pos hneeded⟩

/-- A selection that gives all rows has a plan for each of its pages, whose rows are cut from those. -/
theorem run_page {table : String} {q : Sql.Query} {result : Result}
    (h : (c.run (Sql.Statement.select table (q.setLimit 0)).text parameters).1 = .ok result) {n : UInt64} (hn : n ≠ 0)
    (hscan : q.order ≠ [] →
      c.met (Sql.Statement.select table ((q.setLimit n).setOffset 0)).text parameters =
        c.met (Sql.Statement.select table (q.setLimit 0)).text parameters) (m : UInt64) :
    c.run (Sql.Statement.select table ((q.setLimit n).setOffset m)).text parameters =
      (if n.toNat < 2 ^ 63 ∧ m.toNat < 2 ^ 63 then
        .ok ⟨result.names, (result.rows.drop m.toNat).take n.toNat⟩
      else .error .datatypeMismatch, c) := by
  cases hplan : c.planOf (Sql.Statement.select table (q.setLimit 0)).text parameters with
  | error e =>
      rw [run_unplanned hplan] at h
      cases h
  | ok plan =>
      obtain ⟨⟨statement, needed⟩, htext, -⟩ := bind_eq_ok.1 hplan
      obtain ⟨s, rfl, hnone, hunordered, hpaged⟩ := Statement.ofText_select_paged m hn htext
      obtain ⟨planned, rfl, hplanned, hneeded⟩ := (planOf_select htext).1 hplan
      obtain ⟨hpage, horder, hbounds⟩ := Store.planSelection_paged hnone hplanned
      rw [run_of_planOf hplan] at h
      obtain ⟨met, hmet, hshown, hnames⟩ := PlannedSelection.of_run_unpaged hpage h
      rw [run_of_planOf ((planOf_select hpaged).2 ⟨_, rfl, hbounds n m, hneeded⟩), ← hnames]
      -- What is met does not depend on the offset.
      have hfound : ({ planned with page := ⟨Reading.boundOf n, Reading.boundOf m⟩ } : PlannedSelection).found
          parameters.toArray = .ok met := by
        by_cases hq : q.order = []
        · rw [PlannedSelection.found_page (horder (hunordered hq)), hmet]
        · obtain ⟨s', hs', -, -, hstart⟩ := Statement.ofText_select_paged 0 hn htext
          cases hs'
          rw [PlannedSelection.found_offset _ _ (Reading.boundOf 0), ← hmet, ← met_of_planOf hplan, ← hscan hq,
            met_of_planOf ((planOf_select hstart).2 ⟨_, rfl, hbounds n 0, hneeded⟩)]
      by_cases hlimit : n.toNat < 2 ^ 63
      · have hn' := pageBound_boundOf parameters.toArray hlimit
        by_cases hoffset : m.toNat < 2 ^ 63
        · have hm' := pageBound_boundOf parameters.toArray hoffset
          rw [if_pos ⟨hlimit, hoffset⟩, PlannedSelection.run_paged hn' hm' hfound hshown, pageOf_countOf hn]
        · have hm' := pageBound_beyond parameters.toArray (Nat.not_lt.1 hoffset)
          rw [if_neg (fun hboth => hoffset hboth.2), PlannedSelection.run_refused (.inr ⟨⟨_, hn'⟩, hm'⟩)]
      · have hn' := pageBound_beyond parameters.toArray (Nat.not_lt.1 hlimit)
        rw [if_neg (fun hboth => hlimit hboth.1), PlannedSelection.run_refused (.inl hn')]

end Connection

end RecordTables.Engine
