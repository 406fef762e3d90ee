import Mathlib.Algebra.GroupWithZero.Nat
import Mathlib.Algebra.BigOperators.Group.List.Basic
import Mathlib.Algebra.Order.BigOperators.Group.List
import Mathlib.Algebra.Order.Group.Nat
import Mathlib.Data.List.Perm.Subperm

/-! # Sums over the elements that a predicate keeps -/

namespace Cksol

variable {α : Type} {f : α → ℕ} {p q : α → Bool} {l : List α}

/-- The sum of a function over the elements of a list that satisfy a predicate. -/
def sumWhere (p : α → Bool) (f : α → ℕ) (l : List α) : ℕ :=
  ((l.filter p).map f).sum

theorem sumWhere_cons (p : α → Bool) (f : α → ℕ) (a : α) (l : List α) :
    sumWhere p f (a :: l) = (if p a then f a else 0) + sumWhere p f l := by
  unfold sumWhere
  rw [List.filter_cons]
  split
  · rw [List.map_cons, List.sum_cons]
  · rw [Nat.zero_add]

theorem sumWhere_append (p : α → Bool) (f : α → ℕ) (l l' : List α) :
    sumWhere p f (l ++ l') = sumWhere p f l + sumWhere p f l' := by
  rw [sumWhere, List.filter_append, List.map_append, List.sum_append]
  rfl

/-- A predicate splits a sum. -/
theorem sumWhere_add_sumWhere_not (p : α → Bool) (f : α → ℕ) (l : List α) :
    sumWhere p f l + sumWhere (fun a => !p a) f l = (l.map f).sum := by
  induction l with
  | nil => rfl
  | cons a l ih =>
      rw [sumWhere_cons, sumWhere_cons, List.map_cons, List.sum_cons, ← ih]
      cases p a <;> simp only [Bool.not_true, Bool.not_false, if_true, Bool.false_eq_true, if_false] <;>
        omega

theorem sumWhere_le_of_imp (himp : ∀ a, p a → q a) (l : List α) : sumWhere p f l ≤ sumWhere q f l :=
  List.Sublist.sum_le_sum ((List.monotone_filter_right l himp).map f) fun _ _ => Nat.zero_le _

/-- A weaker predicate adds the elements that only it keeps. -/
theorem sumWhere_add_le_of_imp (himp : ∀ a, p a → q a) {a : α} (ha : a ∈ l) (hp : p a = false)
    (hq : q a) : sumWhere p f l + f a ≤ sumWhere q f l := by
  obtain ⟨before, after, rfl⟩ := List.append_of_mem ha
  have hbefore := sumWhere_le_of_imp (f := f) himp before
  have hafter := sumWhere_le_of_imp (f := f) himp after
  rw [sumWhere_append, sumWhere_append, sumWhere_cons, sumWhere_cons, if_pos hq, hp, if_neg nofun]
  omega

/-- A sum of large numbers is large, unless it is empty. -/
theorem sumWhere_eq_zero_or_le {bound : ℕ} (p : α → Bool) (h : ∀ a ∈ l, bound ≤ f a) :
    sumWhere p f l = 0 ∨ bound ≤ sumWhere p f l := by
  induction l with
  | nil => exact .inl rfl
  | cons a l ih =>
      obtain ⟨hfirst, hrest⟩ := List.forall_mem_cons.mp h
      rw [sumWhere_cons]
      split
      · exact .inr (by omega)
      · rw [Nat.zero_add]
        exact ih hrest

/-- A lower bound on every element bounds the sum. -/
theorem mul_length_le_sum {bound : ℕ} (h : ∀ a ∈ l, bound ≤ f a) :
    bound * l.length ≤ (l.map f).sum := by
  induction l with
  | nil => exact Nat.le_refl _
  | cons a l ih =>
      obtain ⟨ha, hl⟩ := List.forall_mem_cons.mp h
      have hrest := ih hl
      rw [List.length_cons, List.map_cons, List.sum_cons, Nat.mul_succ]
      omega

/-- A sum over different elements of a list is at most that over the list. -/
theorem sum_le_sum_of_nodup_of_subset {l l' : List α} (hnodup : l.Nodup) (hsubset : l ⊆ l') :
    (l.map f).sum ≤ (l'.map f).sum := by
  obtain ⟨l'', hperm, hsublist⟩ := hnodup.subperm hsubset
  rw [← (hperm.map f).sum_eq]
  exact List.Sublist.sum_le_sum (hsublist.map f) fun _ _ => Nat.zero_le _

/-- A sum over different elements, each matched with an element of the other list that is matched with
no other. -/
theorem sum_le_sum_of_matched {β : Type} {g : β → ℕ} (R : α → β → Prop) {l' : List β}
    (hnodup : l.Nodup) (hmatched : ∀ a ∈ l, ∃ b ∈ l', R a b ∧ f a ≤ g b)
    (hunique : ∀ a a' b, R a b → R a' b → a = a') : (l.map f).sum ≤ (l'.map g).sum := by
  induction l generalizing l' with
  | nil => exact Nat.zero_le _
  | cons a l ih =>
      obtain ⟨hfresh, hnodup⟩ := List.nodup_cons.mp hnodup
      obtain ⟨⟨b, hb, hR, hle⟩, hrest⟩ := List.forall_mem_cons.mp hmatched
      obtain ⟨before, after, rfl⟩ := List.append_of_mem hb
      have hsum : (l.map f).sum ≤ ((before ++ after).map g).sum := by
        refine ih hnodup fun a' ha' => ?_
        obtain ⟨b', hb', hR', hle'⟩ := hrest a' ha'
        refine ⟨b', ?_, hR', hle'⟩
        -- the element matched with `a` is taken
        have hne : b' ≠ b := by
          rintro rfl
          exact hfresh (hunique a a' b' hR hR' ▸ ha')
        simpa [hne] using hb'
      simp only [List.map_append, List.sum_append, List.map_cons, List.sum_cons] at hsum ⊢
      omega

end Cksol
