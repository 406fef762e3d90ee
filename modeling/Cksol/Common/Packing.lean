import Mathlib.Algebra.GroupWithZero.Nat
import Mathlib.Algebra.BigOperators.Group.List.Basic
import Mathlib.Tactic.Basic

/-! # Greedy packing

Items are packed in their order into batches of a bounded number of slots. A batch costs a fee and the
weights of its items, and packing stops where the budget does.
-/

namespace Cksol

variable {α : Type}

/-- What the batches cost together. -/
def packingCost (weight : α → ℕ) (fee : ℕ) (batches : List (List α)) : ℕ :=
  (batches.flatten.map weight).sum + fee * batches.length

/-- The batches hold the longest run of first items that the budget pays for, and only the last batch
may have slots left. -/
structure GreedyPacking (weight : α → ℕ) (slots fee budget : ℕ) (items : List α)
    (batches : List (List α)) : Prop where
  first_items : batches.flatten <+: items
  ne_nil : ∀ batch ∈ batches, batch ≠ []
  length_le : ∀ batch ∈ batches, batch.length ≤ slots
  full : ∀ batch ∈ batches.dropLast, batch.length = slots
  cost_le : packingCost weight fee batches ≤ budget
  /-- An item that would follow does not fit, with a fee if it would start a batch. -/
  maximal : ∀ item, batches.flatten ++ [item] <+: items →
    budget < packingCost weight fee batches + weight item +
      if ∀ last ∈ batches.getLast?, last.length = slots then fee else 0

namespace GreedyPacking

variable {weight : α → ℕ} {slots fee budget : ℕ} {items : List α} {batches : List (List α)}

/-- Nothing is packed when the first item does not fit. -/
theorem nil (h : ∀ item ∈ items.head?, budget < weight item + fee) :
    GreedyPacking weight slots fee budget items [] where
  first_items := List.nil_prefix
  ne_nil := nofun
  length_le := nofun
  full := nofun
  cost_le := Nat.zero_le _
  maximal item hitem := by
    obtain ⟨rest, rfl⟩ := hitem
    have hfirst := h item rfl
    simp only [packingCost, List.flatten_nil, List.map_nil, List.sum_nil, List.length_nil,
      List.getLast?_nil, Option.not_mem_none, false_imp_iff, implies_true, if_true]
    omega

theorem packingCost_cons (weight : α → ℕ) (fee : ℕ) (batch : List α) (batches : List (List α)) :
    packingCost weight fee (batch :: batches) =
      (batch.map weight).sum + fee + packingCost weight fee batches := by
  simp only [packingCost, List.flatten_cons, List.map_append, List.sum_append, List.length_cons,
    Nat.mul_succ]
  omega

/-- A last batch stops at a full batch or at an item that does not fit. -/
theorem singleton {batch : List α} (hne : batch ≠ []) (hlength : batch.length < slots)
    (hcost : (batch.map weight).sum + fee ≤ budget)
    (h : ∀ item ∈ items.head?, budget < (batch.map weight).sum + fee + weight item) :
    GreedyPacking weight slots fee budget (batch ++ items) [batch] where
  first_items := by simp
  ne_nil := by simpa using hne
  length_le := by simpa using Nat.le_of_lt hlength
  full := nofun
  cost_le := by
    rw [packingCost_cons]
    simpa [packingCost] using hcost
  maximal item hitem := by
    rw [List.flatten_singleton, List.prefix_append_right_inj] at hitem
    obtain ⟨rest, rfl⟩ := hitem
    have hnext := h item rfl
    rw [packingCost_cons]
    simp only [packingCost, List.flatten_nil, List.map_nil, List.sum_nil, List.length_nil]
    omega

/-- A full batch goes before a packing of what is left. -/
theorem cons {batch : List α} (hslots : 0 < slots) (hlength : batch.length = slots)
    (hcost : (batch.map weight).sum + fee ≤ budget)
    (h : GreedyPacking weight slots fee (budget - ((batch.map weight).sum + fee)) items batches) :
    GreedyPacking weight slots fee budget (batch ++ items) (batch :: batches) where
  first_items := by
    rw [List.flatten_cons, List.prefix_append_right_inj]
    exact h.first_items
  ne_nil := by
    refine List.forall_mem_cons.mpr ⟨?_, h.ne_nil⟩
    rintro rfl
    exact absurd hlength (Nat.ne_of_lt hslots)
  length_le := List.forall_mem_cons.mpr ⟨Nat.le_of_eq hlength, h.length_le⟩
  full := by
    intro other hother
    cases batches with
    | nil => cases hother
    | cons next batches =>
        rcases List.mem_cons.mp hother with rfl | hother
        · exact hlength
        · exact h.full other hother
  cost_le := by
    have hrest := h.cost_le
    rw [packingCost_cons]
    omega
  maximal item hitem := by
    rw [List.flatten_cons, List.append_assoc, List.prefix_append_right_inj] at hitem
    have hrest := h.maximal item hitem
    -- the last batch is that of the rest, or the full one
    have hlast : (∀ last ∈ (batch :: batches).getLast?, last.length = slots) ↔
        ∀ last ∈ batches.getLast?, last.length = slots := by
      cases batches with
      | nil => simpa using hlength
      | cons next batches => rw [List.getLast?_cons_cons]
    rw [packingCost_cons]
    simp only [hlast]
    omega

end GreedyPacking

end Cksol
