import Mathlib.Algebra.GroupWithZero.Nat
import Mathlib.Data.List.Basic
import Mathlib.Data.Nat.Notation

/-! # Chunks of a list

Consecutive pieces of a given length, the last one possibly shorter, as `Itertools::chunks` yields
them.
-/

namespace Cksol

variable {α : Type} {size : ℕ}

/-- The chunks of a list no longer than `fuel`. -/
def chunksFrom (size : ℕ) : ℕ → List α → List (List α)
  | 0, _ => []
  | _, [] => []
  | fuel + 1, l => l.take size :: chunksFrom size fuel (l.drop size)

/-- `slice::chunks`: all but the last chunk have the given size. -/
def chunks (size : ℕ) (l : List α) : List (List α) :=
  chunksFrom size l.length l

theorem flatten_chunksFrom (hsize : 0 < size) :
    ∀ (fuel : ℕ) (l : List α), l.length ≤ fuel → (chunksFrom size fuel l).flatten = l
  | 0, l, h => by
      obtain rfl : l = [] := List.length_eq_zero_iff.mp (Nat.le_zero.mp h)
      rfl
  | fuel + 1, [], _ => rfl
  | fuel + 1, a :: l, h => by
      have hdrop : ((a :: l).drop size).length ≤ fuel := by
        rw [List.length_drop]
        simp only [List.length_cons] at h ⊢
        omega
      rw [chunksFrom, List.flatten_cons, flatten_chunksFrom hsize fuel _ hdrop,
        List.take_append_drop]
      simp

/-- The chunks put together are the list. -/
theorem flatten_chunks (hsize : 0 < size) (l : List α) : (chunks size l).flatten = l :=
  flatten_chunksFrom hsize l.length l (Nat.le_refl _)

theorem ne_nil_and_length_le_of_mem_chunksFrom (hsize : 0 < size) {chunk : List α} :
    ∀ (fuel : ℕ) (l : List α), chunk ∈ chunksFrom size fuel l → chunk ≠ [] ∧ chunk.length ≤ size
  | 0, _, h => by cases h
  | fuel + 1, [], h => by cases h
  | fuel + 1, a :: l, h => by
      rcases List.mem_cons.mp h with rfl | h
      · refine ⟨?_, List.length_take_le _ _⟩
        obtain ⟨n, rfl⟩ : ∃ n, size = n + 1 := ⟨size - 1, by omega⟩
        simp
      · exact ne_nil_and_length_le_of_mem_chunksFrom hsize fuel _ h

/-- No chunk is empty or longer than the size. -/
theorem ne_nil_and_length_le_of_mem_chunks (hsize : 0 < size) {l chunk : List α}
    (h : chunk ∈ chunks size l) : chunk ≠ [] ∧ chunk.length ≤ size :=
  ne_nil_and_length_le_of_mem_chunksFrom hsize _ _ h

theorem mem_of_mem_chunks (hsize : 0 < size) {l chunk : List α} (h : chunk ∈ chunks size l) {a : α}
    (ha : a ∈ chunk) : a ∈ l := by
  rw [← flatten_chunks hsize l]
  exact List.mem_flatten_of_mem h ha

theorem sublist_map_fst_zip {β : Type} :
    ∀ (l : List α) (l' : List β), ((l.zip l').map Prod.fst).Sublist l
  | [], _ => List.nil_sublist _
  | _ :: _, [] => List.nil_sublist _
  | a :: l, _ :: l' => (sublist_map_fst_zip l l').cons_cons a

/-- What a partial function yields is a sublist of what a total one that extends it does. -/
theorem sublist_filterMap {β : Type} {f : α → Option β} {g : α → β}
    (h : ∀ a b, f a = some b → b = g a) : ∀ l : List α, (l.filterMap f).Sublist (l.map g)
  | [] => List.nil_sublist _
  | a :: l => by
      cases hvalue : f a with
      | none =>
          rw [List.filterMap_cons_none hvalue]
          exact (sublist_filterMap h l).cons _
      | some b =>
          rw [List.filterMap_cons_some hvalue, h a b hvalue]
          exact (sublist_filterMap h l).cons_cons _

end Cksol
