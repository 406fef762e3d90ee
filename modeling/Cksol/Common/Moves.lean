import Cksol.Common.OrdMap

/-! # Moving keys from one map to another

Many transitions of a store take the keys of a list out of one map and put each, with a value made
from the old one, into another where it was absent. `Moved` says what such a loop leaves; it is built
up one key at a time.
-/

namespace Cksol

open Std

namespace OrdMap

variable {K V W : Type} [Ord K] [TransOrd K]

/-- The weight of the value at a key; an absent key weighs nothing. -/
def weightAt (weight : V → ℕ) (m : OrdMap K V) (k : K) : ℕ :=
  m[k]?.elim 0 weight

/-- The target with the keys of the list added as the source holds them. -/
def moveAll (keys : List K) (source target : OrdMap K V) : OrdMap K V :=
  keys.foldl (fun target k => source[k]?.elim target (target.insert k)) target

theorem getElem?_moveAll [LawfulEqOrd K] [DecidableEq K] (keys : List K) (source target : OrdMap K V)
    (a : K) : (moveAll keys source target)[a]? =
      if a ∈ keys then source[a]?.or target[a]? else target[a]? := by
  induction keys generalizing target with
  | nil => simp [moveAll]
  | cons k keys ih =>
      have hcons : moveAll (k :: keys) source target =
        moveAll keys source (source[k]?.elim target (target.insert k)) := rfl
      rw [hcons, ih]
      cases hk : source[k]? with
      | none => by_cases ha : a = k <;> simp [ha, hk]
      | some v =>
          simp only [Option.elim_some, getElem?_insert_eq, List.mem_cons]
          by_cases ha : k = a
          · subst ha
            simp [hk]
          · simp [ha, Ne.symm ha]

/-- The keys were distinct, present in the source and absent from the target, and each was moved. -/
structure Moved (f : V → W) (keys : List K) (source source' : OrdMap K V)
    (target target' : OrdMap K W) : Prop where
  nodup : keys.Nodup
  present : ∀ k ∈ keys, ∃ v, source[k]? = some v
  fresh : ∀ k ∈ keys, target[k]? = none
  source_of_mem : ∀ k ∈ keys, source'[k]? = none
  source_of_notMem : ∀ k ∉ keys, source'[k]? = source[k]?
  target_of_mem : ∀ k ∈ keys, target'[k]? = source[k]?.map f
  target_of_notMem : ∀ k ∉ keys, target'[k]? = target[k]?
  source_sum : ∀ weight, source'.sumBy weight + (keys.map (source.weightAt weight)).sum =
    source.sumBy weight
  target_sum : ∀ weight, target'.sumBy weight =
    target.sumBy weight + (keys.map (source.weightAt (weight ∘ f))).sum

namespace Moved

variable {f : V → W} {keys : List K} {source source' : OrdMap K V} {target target' : OrdMap K W}

/-- Nothing is moved yet. -/
theorem nil (f : V → W) (source : OrdMap K V) (target : OrdMap K W) :
    Moved f [] source source target target where
  nodup := List.nodup_nil
  present := by simp
  fresh := by simp
  source_of_mem := by simp
  source_of_notMem _ _ := rfl
  target_of_mem := by simp
  target_of_notMem _ _ := rfl
  source_sum _ := rfl
  target_sum _ := rfl

theorem not_mem_of_present (h : Moved f keys source source' target target') {k : K} {v : V}
    (hv : source'[k]? = some v) : k ∉ keys := by
  intro hmem
  rw [h.source_of_mem k hmem] at hv
  cases hv

/-- The maps after a move are determined by those before it. -/
theorem eq_moveAll [LawfulEqOrd K] {target target' : OrdMap K V}
    (h : Moved id keys source source' target target') :
    source' = source.eraseAll keys ∧ target' = moveAll keys source target := by
  classical
  constructor
  · refine ExtTreeMap.ext_getElem? fun a => ?_
    rw [getElem?_eraseAll]
    split
    case isTrue ha => exact h.source_of_mem a ha
    case isFalse ha => exact h.source_of_notMem a ha
  · refine ExtTreeMap.ext_getElem? fun a => ?_
    rw [getElem?_moveAll]
    split
    case isTrue ha => rw [h.target_of_mem a ha, h.fresh a ha, Option.map_id, Option.or_none, id]
    case isFalse ha => exact h.target_of_notMem a ha

/-- One more key is moved. -/
theorem snoc [LawfulEqOrd K] (h : Moved f keys source source' target target') {k : K} {v : V}
    (hv : source'[k]? = some v) (hk : target'[k]? = none) :
    Moved f (keys ++ [k]) source (source'.erase k) target (target'.insert k (f v)) := by
  classical
  -- the key is still in the source, so it was not moved before
  have hnew : k ∉ keys := h.not_mem_of_present hv
  have hsource : source[k]? = some v := (h.source_of_notMem k hnew).symm.trans hv
  have htarget : target[k]? = none := (h.target_of_notMem k hnew).symm.trans hk
  refine ⟨?_, ?_, ?_, ?_, ?_, ?_, ?_, ?_, ?_⟩
  · exact List.nodup_append.mpr ⟨h.nodup, List.nodup_singleton k, by grind⟩
  · have := h.present
    grind
  · have := h.fresh
    grind
  · intro a ha
    rw [getElem?_erase_eq]
    have := h.source_of_mem a
    grind
  · intro a ha
    rw [getElem?_erase_eq, h.source_of_notMem a (by grind)]
    grind
  · intro a ha
    rw [getElem?_insert_eq]
    have := h.target_of_mem a
    grind
  · intro a ha
    rw [getElem?_insert_eq, h.target_of_notMem a (by grind)]
    grind
  · intro weight
    have hrest := h.source_sum weight
    have herase := sumBy_erase (f := weight) hv
    have hweight : source.weightAt weight k = weight v := by rw [weightAt, hsource]; rfl
    rw [List.map_append, List.sum_append, List.map_singleton, List.sum_singleton, hweight]
    omega
  · intro weight
    have hrest := h.target_sum weight
    have hweight : source.weightAt (weight ∘ f) k = weight (f v) := by
      rw [weightAt, hsource]
      rfl
    rw [sumBy_insert hk, hrest, List.map_append, List.sum_append, List.map_singleton,
      List.sum_singleton, hweight]
    omega

end Moved

end OrdMap

end Cksol
