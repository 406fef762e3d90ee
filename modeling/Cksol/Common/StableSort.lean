import Mathlib.Algebra.GroupWithZero.Nat
import Mathlib.Data.List.Sort
import Mathlib.Order.Defs.LinearOrder

/-! # Stable sorting

A stable sort by a key orders the keys and, among elements of one key, keeps the order of the list.
These two properties determine the result, so a list that has them is what `List.mergeSort` returns.
-/

namespace Cksol

variable {α κ : Type} [LinearOrder κ] {key : α → κ}

/-- Lists sorted by a key are equal when they have the same elements of every key in the same order. -/
theorem eq_of_sorted_of_filter_eq {l l' : List α} (hl : l.Pairwise fun a b => key a ≤ key b)
    (hl' : l'.Pairwise fun a b => key a ≤ key b)
    (hfilter : ∀ t, l.filter (key · = t) = l'.filter (key · = t)) : l = l' := by
  have hmem (a : α) : a ∈ l ↔ a ∈ l' := by
    have hiff := congrArg (a ∈ ·) (hfilter (key a))
    simpa using hiff
  induction l generalizing l' with
  | nil =>
      symm
      refine List.eq_nil_iff_forall_not_mem.mpr fun a ha => ?_
      exact List.not_mem_nil ((hmem a).mpr ha)
  | cons a l ih =>
      cases l' with
      | nil => exact absurd ((hmem a).mp List.mem_cons_self) List.not_mem_nil
      | cons b l' =>
          -- the two heads have the least key, and so are the first elements of that key
          have hkey : key a = key b := by
            rw [List.pairwise_cons] at hl hl'
            refine le_antisymm ?_ ?_
            · rcases List.mem_cons.mp ((hmem b).mpr List.mem_cons_self) with rfl | hb
              · exact le_refl _
              · exact hl.1 b hb
            · rcases List.mem_cons.mp ((hmem a).mp List.mem_cons_self) with rfl | ha
              · exact le_refl _
              · exact hl'.1 a ha
          have hhead := hfilter (key a)
          rw [List.filter_cons_of_pos (by simp), List.filter_cons_of_pos (by simp [hkey])] at hhead
          obtain ⟨rfl, htail⟩ := List.cons.inj hhead
          have hrest : ∀ t, l.filter (key · = t) = l'.filter (key · = t) := by
            intro t
            by_cases ht : key a = t
            · rw [← ht]
              exact htail
            · have hskip := hfilter t
              rwa [List.filter_cons_of_neg (by simpa using ht),
                List.filter_cons_of_neg (by simpa using ht)] at hskip
          refine congrArg (a :: ·) (ih hl.tail hl'.tail hrest fun x => ?_)
          have hiff := congrArg (x ∈ ·) (hrest (key x))
          simpa using hiff

/-- Merge sort keeps the order of the elements of one key. -/
theorem filter_mergeSort (l : List α) (t : κ) :
    (l.mergeSort fun a b => key a ≤ key b).filter (key · = t) = l.filter (key · = t) := by
  have hsub : (l.filter (key · = t)).Sublist (l.mergeSort fun a b => key a ≤ key b) := by
    refine List.sublist_mergeSort ?_ ?_ ?_ List.filter_sublist
    · intro a b c hab hbc
      exact decide_eq_true (le_trans (of_decide_eq_true hab) (of_decide_eq_true hbc))
    · intro a b
      simpa using le_total (key a) (key b)
    · refine List.pairwise_of_forall_mem_list ?_
      intro a ha b hb
      simp only [List.mem_filter, decide_eq_true_eq] at ha hb
      exact decide_eq_true (ha.2.trans hb.2.symm).le
  have hfilter := hsub.filter (key · = t)
  rw [List.filter_filter] at hfilter
  simp only [Bool.and_self] at hfilter
  exact (hfilter.eq_of_length (((List.mergeSort_perm l _).filter _).length_eq.symm)).symm

/-- What is sorted by the key and keeps the elements of every key in order is the stable sort. -/
theorem eq_mergeSort {l l' : List α} (hsorted : l'.Pairwise fun a b => key a ≤ key b)
    (hfilter : ∀ t, l'.filter (key · = t) = l.filter (key · = t)) :
    l' = l.mergeSort fun a b => key a ≤ key b := by
  refine eq_of_sorted_of_filter_eq hsorted ?_ fun t => (hfilter t).trans (filter_mergeSort l t).symm
  refine (List.pairwise_mergeSort ?_ ?_ l).imp of_decide_eq_true
  · intro a b c hab hbc
    exact decide_eq_true (le_trans (of_decide_eq_true hab) (of_decide_eq_true hbc))
  · intro a b
    simpa using le_total (key a) (key b)

end Cksol
