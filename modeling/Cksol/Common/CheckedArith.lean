import Mathlib.Algebra.GroupWithZero.Nat
import Mathlib.Data.UInt
import Mathlib.Tactic.Basic
import Mathlib.Algebra.BigOperators.Group.List.Basic

/-! # Fixed-width arithmetic of a release build

`+` and iterator sums wrap modulo `2 ^ 64`; the `checked_*` and `saturating_*` operations do not.
Every lemma states the result over the natural numbers.
-/

namespace Cksol

/-- `u64::checked_add`. -/
def checkedAdd (a b : UInt64) : Option UInt64 :=
  if a.toNat + b.toNat < 2 ^ 64 then some (a + b) else none

/-- `u64::checked_sub`. -/
def checkedSub (a b : UInt64) : Option UInt64 :=
  if b ≤ a then some (a - b) else none

/-- `u64::saturating_sub`. -/
def saturatingSub (a b : UInt64) : UInt64 :=
  if b ≤ a then a - b else 0

/-- `u64::div_ceil`. -/
def divCeil (a b : UInt64) : UInt64 :=
  if a % b = 0 then a / b else a / b + 1

theorem checkedAdd_eq_some {a b c : UInt64} :
    checkedAdd a b = some c ↔ c.toNat = a.toNat + b.toNat := by
  unfold checkedAdd
  have hc := c.toNat_lt
  split
  case isTrue h =>
    rw [Option.some_inj, ← UInt64.toNat_inj, UInt64.toNat_add, Nat.mod_eq_of_lt h]
    exact eq_comm
  case isFalse h =>
    simp only [reduceCtorEq, false_iff]
    omega

theorem checkedSub_eq_some {a b c : UInt64} :
    checkedSub a b = some c ↔ c.toNat + b.toNat = a.toNat := by
  unfold checkedSub
  split
  case isTrue h =>
    rw [Option.some_inj, ← UInt64.toNat_inj, UInt64.toNat_sub_of_le _ _ h]
    have hle := UInt64.le_iff_toNat_le.mp h
    omega
  case isFalse h =>
    simp only [reduceCtorEq, false_iff]
    rw [UInt64.le_iff_toNat_le] at h
    omega

theorem toNat_saturatingSub (a b : UInt64) :
    (saturatingSub a b).toNat = a.toNat - b.toNat := by
  unfold saturatingSub
  split
  case isTrue h => exact UInt64.toNat_sub_of_le _ _ h
  case isFalse h =>
    rw [UInt64.le_iff_toNat_le] at h
    simp only [UInt64.toNat_zero]
    omega

/-- A wrapping addition loses a multiple of `2 ^ 64`, never gains. -/
theorem toNat_add_le (a b : UInt64) : (a + b).toNat ≤ a.toNat + b.toNat := by
  rw [UInt64.toNat_add]
  exact Nat.mod_le _ _

theorem toNat_add_of_lt {a b : UInt64} (h : a.toNat + b.toNat < 2 ^ 64) :
    (a + b).toNat = a.toNat + b.toNat := by
  rw [UInt64.toNat_add, Nat.mod_eq_of_lt h]

theorem toNat_sum_mod (l : List UInt64) : l.sum.toNat = (l.map UInt64.toNat).sum % 2 ^ 64 := by
  induction l with
  | nil => rfl
  | cons a l ih =>
      rw [List.sum_cons, List.map_cons, List.sum_cons, UInt64.toNat_add, ih, Nat.add_mod_mod]

theorem toNat_sum_of_lt {l : List UInt64} (h : (l.map UInt64.toNat).sum < 2 ^ 64) :
    l.sum.toNat = (l.map UInt64.toNat).sum := by
  rw [toNat_sum_mod, Nat.mod_eq_of_lt h]

end Cksol
