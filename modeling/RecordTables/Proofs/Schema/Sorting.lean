import Mathlib.Data.List.Nodup
import RecordTables.Proofs.Schema.Columns

/-!
# Sorting by a key

What sorting by a key keeps of a list, and when the order of the list does not matter.
-/

namespace RecordTables

variable {α κ : Type} {key : α → κ} {xs : List α}

/-- A key that repeats nowhere tells the elements of a list apart. -/
theorem key_inj (h : (xs.map key).Nodup) : ∀ a ∈ xs, ∀ b ∈ xs, key a = key b → a = b :=
  fun _ ha _ hb heq => List.inj_on_of_nodup_map h ha hb heq

/-- Elements with distinct keys ascend strictly if they do not descend. -/
theorem pairwise_lt_of_nodup [LE κ] [LT κ] [Std.IsLinearOrder κ] [Std.LawfulOrderLT κ] (h : (xs.map key).Nodup)
    (hle : xs.Pairwise fun a b => key a ≤ key b) : xs.Pairwise fun a b => key a < key b :=
  ((List.pairwise_map.1 h).and hle).imp fun hab => Std.lt_of_le_of_ne hab.2 hab.1

variable [LE κ] [DecidableLE κ]

/-- The elements sorted by a key; equal keys keep their order. -/
def sortBy (key : α → κ) (xs : List α) : List α := xs.mergeSort fun a b => decide (key a ≤ key b)

theorem sortBy_perm (key : α → κ) (xs : List α) : (sortBy key xs).Perm xs := List.mergeSort_perm ..

variable [Std.IsLinearOrder κ]

theorem decide_le_trans (a b c : α) (hab : decide (key a ≤ key b) = true) (hbc : decide (key b ≤ key c) = true) :
    decide (key a ≤ key c) = true :=
  decide_eq_true (Std.le_trans (of_decide_eq_true hab) (of_decide_eq_true hbc))

theorem decide_le_total (a b : α) : (decide (key a ≤ key b) || decide (key b ≤ key a)) = true := by
  rw [Bool.or_eq_true, decide_eq_true_eq, decide_eq_true_eq]
  exact Std.le_total

theorem pairwise_sortBy (xs : List α) : (sortBy key xs).Pairwise fun a b => key a ≤ key b := by
  have hsorted : (sortBy key xs).Pairwise fun a b => decide (key a ≤ key b) = true :=
    List.pairwise_mergeSort decide_le_trans decide_le_total xs
  exact hsorted.imp of_decide_eq_true

/-- Elements that the key tells apart are sorted in one way only. -/
theorem sortBy_eq_of_perm {ys : List α} (hkey : ∀ a ∈ xs, ∀ b ∈ xs, key a = key b → a = b) (h : xs.Perm ys) :
    sortBy key xs = sortBy key ys := by
  have hperm : (sortBy key xs).Perm (sortBy key ys) := ((sortBy_perm key xs).trans h).trans (sortBy_perm key ys).symm
  refine List.Perm.eq_of_pairwise ?_ (pairwise_sortBy xs) (pairwise_sortBy ys) hperm
  intro a b ha hb hle hge
  have hb' : b ∈ sortBy key xs := hperm.mem_iff.2 hb
  exact hkey a ((sortBy_perm key xs).mem_iff.1 ha) b ((sortBy_perm key xs).mem_iff.1 hb') (Std.le_antisymm hle hge)

theorem sortBy_eq_iff_perm {ys : List α} (hkey : ∀ a ∈ xs, ∀ b ∈ xs, key a = key b → a = b) :
    sortBy key xs = sortBy key ys ↔ xs.Perm ys :=
  ⟨fun h => (sortBy_perm key xs).symm.trans (h ▸ sortBy_perm key ys), sortBy_eq_of_perm hkey⟩

/-- Sorting is stable: the elements with one key keep their order. -/
theorem filter_sortBy [DecidableEq κ] (xs : List α) (k : κ) :
    (sortBy key xs).filter (fun a => key a = k) = xs.filter fun a => key a = k := by
  have hequal : (xs.filter fun a => key a = k).Pairwise fun a b => decide (key a ≤ key b) = true := by
    rw [List.pairwise_iff_forall_sublist]
    intro a b hab
    have ha : key a = k := of_decide_eq_true (List.mem_filter.1 (hab.mem (List.mem_cons_self ..))).2
    have hb : key b = k := of_decide_eq_true (List.mem_filter.1 (hab.mem (by simp))).2
    exact decide_eq_true (Std.le_of_eq (ha.trans hb.symm))
  -- What does not descend is kept as a sublist, and there is no more of the key than there was.
  have hsub : (xs.filter fun a => key a = k).Sublist (sortBy key xs) :=
    List.sublist_mergeSort decide_le_trans decide_le_total hequal List.filter_sublist
  have hkept := hsub.filter fun a => decide (key a = k)
  rw [List.filter_filter] at hkept
  simp only [Bool.and_self] at hkept
  exact (hkept.eq_of_length ((sortBy_perm key xs).filter _).length_eq.symm).symm

end RecordTables
