import Mathlib.Algebra.GroupWithZero.Nat
import Mathlib.Data.List.Perm.Subperm
import Mathlib.Data.List.Nodup
import Mathlib.Algebra.BigOperators.Group.List.Basic
import Std.Data.ExtTreeMap
import Std.Data.ExtTreeSet

/-! # Ordered finite maps

`Std.ExtTreeMap` read through `getElem?`: how lookups see insertions and removals, the entries of a
map up to permutation, and sums of a weight over the values. A loop that moves many keys is folded
over a list of keys; its effect on a single lookup is what the callers use.
-/

namespace Cksol

open Std

/-- A map ordered by its keys, as `BTreeMap` is. -/
abbrev OrdMap (K V : Type) [Ord K] := ExtTreeMap K V (compare : K → K → Ordering)

/-- A set ordered by its elements, as `BTreeSet` is. -/
abbrev OrdSet (K : Type) [Ord K] := ExtTreeSet K (compare : K → K → Ordering)

namespace OrdMap

variable {K V W : Type} [Ord K] [TransOrd K] {m : OrdMap K V} {entries : List (K × V)} {v : V}
  {k : K} {a : K} {f : V → ℕ}

theorem mem_iff_exists : k ∈ m ↔ ∃ v, m[k]? = some v := by
  rw [ExtTreeMap.mem_iff_isSome_getElem?, Option.isSome_iff_exists]

theorem not_mem_iff : k ∉ m ↔ m[k]? = none := by
  rw [ExtTreeMap.mem_iff_isSome_getElem?, Bool.not_eq_true, Option.isSome_eq_false_iff,
    Option.isNone_iff_eq_none]

variable [LawfulEqOrd K]

theorem getElem?_insert_eq [DecidableEq K] (m : OrdMap K V) (k a : K) (v : V) :
    (m.insert k v)[a]? = if k = a then some v else m[a]? := by
  rw [ExtTreeMap.getElem?_insert]
  by_cases h : k = a <;> simp [h]

theorem getElem?_erase_eq [DecidableEq K] (m : OrdMap K V) (k a : K) :
    (m.erase k)[a]? = if k = a then none else m[a]? := by
  rw [ExtTreeMap.getElem?_erase]
  by_cases h : k = a <;> simp [h]

theorem getElem?_of_erase {k a : K} (h : (m.erase k)[a]? = some v) : m[a]? = some v := by
  classical
  rw [getElem?_erase_eq] at h
  split at h
  · cases h
  · exact h

theorem mem_insert_iff {k a : K} : a ∈ m.insert k v ↔ k = a ∨ a ∈ m := by
  rw [ExtTreeMap.mem_insert, LawfulEqCmp.compare_eq_iff_eq]

theorem mem_erase_iff {k a : K} : a ∈ m.erase k ↔ k ≠ a ∧ a ∈ m := by
  rw [ExtTreeMap.mem_erase, ne_eq, LawfulEqCmp.compare_eq_iff_eq]

theorem mem_toList_iff : (k, v) ∈ m.toList ↔ m[k]? = some v :=
  ExtTreeMap.mem_toList_iff_getElem?_eq_some

theorem nodup_keys (m : OrdMap K V) : m.keys.Nodup := by
  refine List.Pairwise.imp ?_ m.distinct_keys
  intro a b hab heq
  exact hab (by rw [heq]; exact ReflCmp.compare_self)

theorem nodup_toList (m : OrdMap K V) : m.toList.Nodup := by
  refine List.Nodup.of_map Prod.fst ?_
  rw [ExtTreeMap.map_fst_toList_eq_keys]
  exact nodup_keys m

/-- Entries of a map with a fresh key inserted, up to permutation. -/
theorem toList_insert_perm (h : m[k]? = none) :
    (m.insert k v).toList.Perm ((k, v) :: m.toList) := by
  classical
  refine (List.perm_ext_iff_of_nodup (nodup_toList _) ?_).mpr ?_
  · refine List.nodup_cons.mpr ⟨?_, nodup_toList m⟩
    rw [mem_toList_iff, h]
    simp
  · rintro ⟨a, b⟩
    rw [mem_toList_iff, getElem?_insert_eq, List.mem_cons, mem_toList_iff]
    by_cases hk : k = a
    · subst hk
      simp [h, eq_comm]
    · rw [if_neg hk]
      simp [Ne.symm hk]

/-- Entries of a map before a present key is erased, up to permutation. -/
theorem toList_erase_perm (h : m[k]? = some v) : m.toList.Perm ((k, v) :: (m.erase k).toList) := by
  classical
  refine (List.perm_ext_iff_of_nodup (nodup_toList m) ?_).mpr ?_
  · refine List.nodup_cons.mpr ⟨?_, nodup_toList _⟩
    rw [mem_toList_iff, getElem?_erase_eq, if_pos rfl]
    simp
  · rintro ⟨a, b⟩
    rw [mem_toList_iff, List.mem_cons, mem_toList_iff, getElem?_erase_eq]
    by_cases hk : k = a
    · subst hk
      simp [h, eq_comm]
    · rw [if_neg hk]
      simp [Ne.symm hk]

/-! ## The order of the entries -/

/-- A list of entries in the order of the keys that has what lookups see is the list of the map. -/
theorem toList_eq_of_sorted {l : List (K × V)}
    (hsorted : l.Pairwise fun a b => compare a.1 b.1 = .lt)
    (hmem : ∀ k v, (k, v) ∈ l ↔ m[k]? = some v) : m.toList = l := by
  have hirrefl (a : K × V) : compare a.1 a.1 ≠ .lt := by simp
  have hnodup : l.Nodup := by
    refine hsorted.imp ?_
    rintro a _ hlt rfl
    exact hirrefl a hlt
  refine List.Perm.eq_of_pairwise ?_ ExtTreeMap.ordered_keys_toList hsorted ?_
  · intro a b _ _ hab hba
    exact absurd (TransCmp.lt_trans hab hba) (hirrefl a)
  · refine (List.perm_ext_iff_of_nodup (nodup_toList m) hnodup).mpr ?_
    rintro ⟨k, v⟩
    rw [mem_toList_iff, hmem]

theorem toList_erase [DecidableEq K] (m : OrdMap K V) (k : K) :
    (m.erase k).toList = m.toList.filter (·.1 ≠ k) := by
  refine toList_eq_of_sorted (ExtTreeMap.ordered_keys_toList.filter _) fun a v => ?_
  rw [List.mem_filter, mem_toList_iff, getElem?_erase_eq]
  by_cases h : k = a
  · simp [h]
  · simp [h, Ne.symm h]

/-- A key after all others goes to the end. -/
theorem toList_insert_last (h : ∀ a ∈ m, compare a k = .lt) (v : V) :
    (m.insert k v).toList = m.toList ++ [(k, v)] := by
  classical
  have hnew : m[k]? = none := not_mem_iff.mp fun hmem => by simpa using h k hmem
  refine toList_eq_of_sorted ?_ fun a w => ?_
  · refine List.pairwise_append.mpr ⟨ExtTreeMap.ordered_keys_toList, List.pairwise_singleton _ _, ?_⟩
    rintro ⟨a, w⟩ ha _ hk
    rw [List.mem_singleton.mp hk]
    exact h a (mem_iff_exists.mpr ⟨w, mem_toList_iff.mp ha⟩)
  · rw [List.mem_append, mem_toList_iff, getElem?_insert_eq]
    by_cases heq : k = a
    · subst heq
      simp [hnew, eq_comm]
    · simp [heq, Ne.symm heq]
/-! ## The values -/

/-- The values in the order of their keys, as `BTreeMap::values` yields them. -/
def values (m : OrdMap K V) : List V :=
  m.toList.map Prod.snd

theorem mem_values_iff : v ∈ m.values ↔ ∃ k : K, m[k]? = some v := by
  simp [values, List.mem_map]

/-! ## Sums over the values -/

/-- The sum of a weight over the values of a map. -/
def sumBy (f : V → ℕ) (m : OrdMap K V) : ℕ :=
  (m.toList.map fun entry => f entry.2).sum

omit [LawfulEqOrd K] in
@[simp] theorem sumBy_empty (f : V → ℕ) : sumBy f (∅ : OrdMap K V) = 0 := by
  have hnil : (∅ : OrdMap K V).toList = [] := ExtTreeMap.toList_eq_nil_iff.mpr rfl
  rw [sumBy, hnil, List.map_nil, List.sum_nil]

theorem sumBy_insert (h : m[k]? = none) : sumBy f (m.insert k v) = sumBy f m + f v := by
  rw [sumBy, ((toList_insert_perm h).map _).sum_eq]
  simp [sumBy, Nat.add_comm]

theorem sumBy_erase (h : m[k]? = some v) : sumBy f (m.erase k) + f v = sumBy f m := by
  rw [sumBy, sumBy, ((toList_erase_perm h).map _).sum_eq]
  simp [Nat.add_comm]

/-! ## Loops over keys and entries -/

/-- Inserts the entries of a list one after the other. -/
def insertAll (m : OrdMap K V) (entries : List (K × V)) : OrdMap K V :=
  entries.foldl (fun m entry => m.insert entry.1 entry.2) m

/-- Erases the keys of a list one after the other. -/
def eraseAll (m : OrdMap K V) (keys : List K) : OrdMap K V :=
  keys.foldl (fun m key => m.erase key) m

omit [LawfulEqOrd K] in
theorem insertAll_cons (m : OrdMap K V) (entry : K × V) (entries : List (K × V)) :
    insertAll m (entry :: entries) = insertAll (m.insert entry.1 entry.2) entries := rfl

omit [LawfulEqOrd K] in
theorem eraseAll_cons (m : OrdMap K V) (key : K) (keys : List K) :
    eraseAll m (key :: keys) = eraseAll (m.erase key) keys := rfl

omit [LawfulEqOrd K] in
theorem insertAll_append (m : OrdMap K V) (entries entries' : List (K × V)) :
    insertAll m (entries ++ entries') = insertAll (insertAll m entries) entries' :=
  List.foldl_append

omit [LawfulEqOrd K] in
theorem eraseAll_append (m : OrdMap K V) (keys keys' : List K) :
    eraseAll m (keys ++ keys') = eraseAll (eraseAll m keys) keys' :=
  List.foldl_append

theorem getElem?_eraseAll [DecidableEq K] (m : OrdMap K V) (keys : List K) (a : K) :
    (eraseAll m keys)[a]? = if a ∈ keys then none else m[a]? := by
  induction keys generalizing m with
  | nil => simp [eraseAll]
  | cons key keys ih =>
      rw [eraseAll_cons, ih, getElem?_erase_eq]
      by_cases hkeys : a ∈ keys
      · simp [hkeys]
      · by_cases hkey : key = a
        · simp [hkey]
        · simp [hkeys, hkey, Ne.symm hkey]

theorem mem_eraseAll_iff {keys : List K} : a ∈ eraseAll m keys ↔ a ∉ keys ∧ a ∈ m := by
  classical
  simp only [mem_iff_exists, getElem?_eraseAll]
  by_cases h : a ∈ keys <;> simp [h]

theorem mem_insertAll_iff : a ∈ insertAll m entries ↔ a ∈ entries.map Prod.fst ∨ a ∈ m := by
  induction entries generalizing m with
  | nil => simp [insertAll]
  | cons entry entries ih =>
      rw [insertAll_cons, ih, mem_insert_iff, List.map_cons, List.mem_cons, @eq_comm _ entry.1]
      grind

theorem getElem?_insertAll_of_notMem (m : OrdMap K V) (entries : List (K × V))
    (h : a ∉ entries.map Prod.fst) : (insertAll m entries)[a]? = m[a]? := by
  classical
  induction entries generalizing m with
  | nil => rfl
  | cons entry entries ih =>
      simp only [List.map_cons, List.mem_cons, not_or] at h
      rw [insertAll_cons, ih _ h.2, getElem?_insert_eq, if_neg (Ne.symm h.1)]

/-- Every value comes from an entry, or was there before. -/
theorem mem_of_getElem?_insertAll (h : (insertAll m entries)[a]? = some v) :
    (a, v) ∈ entries ∨ m[a]? = some v := by
  classical
  induction entries generalizing m with
  | nil => exact .inr h
  | cons entry entries ih =>
      rw [insertAll_cons] at h
      rcases ih h with hmem | hold
      · exact .inl (List.mem_cons_of_mem _ hmem)
      · rw [getElem?_insert_eq] at hold
        by_cases heq : entry.1 = a
        · rw [if_pos heq] at hold
          obtain rfl := Option.some.inj hold
          exact .inl (heq ▸ List.mem_cons_self)
        · rw [if_neg heq] at hold
          exact .inr hold

theorem getElem?_insertAll_of_mem (m : OrdMap K V) (hnodup : (entries.map Prod.fst).Nodup)
    (h : (a, v) ∈ entries) :
    (insertAll m entries)[a]? = some v := by
  classical
  induction entries generalizing m with
  | nil => cases h
  | cons entry entries ih =>
      rw [List.map_cons, List.nodup_cons] at hnodup
      rw [insertAll_cons]
      rcases List.mem_cons.mp h with rfl | h
      · rw [getElem?_insertAll_of_notMem _ _ hnodup.1, getElem?_insert_eq, if_pos rfl]
      · exact ih _ hnodup.2 h

/-- Lookup after all the entries of a second map, each with a value made from its own, went in. -/
theorem getElem?_insertAll_toList {W : Type} (m : OrdMap K V) (source : OrdMap K W)
    (f : K → W → V) (a : K) :
    (insertAll m (source.toList.map fun entry => (entry.1, f entry.1 entry.2)))[a]? =
      (source[a]?.map (f a)).or m[a]? := by
  have hkeys : (source.toList.map fun entry => (entry.1, f entry.1 entry.2)).map Prod.fst =
      source.toList.map Prod.fst := by
    rw [List.map_map]
    rfl
  cases hsource : source[a]? with
  | none =>
      rw [getElem?_insertAll_of_notMem, Option.map_none, Option.none_or]
      rw [hkeys, List.mem_map]
      rintro ⟨⟨k, w⟩, hmem, rfl⟩
      rw [mem_toList_iff, hsource] at hmem
      cases hmem
  | some w =>
      refine getElem?_insertAll_of_mem m ?_ (List.mem_map.mpr ⟨(a, w), ?_, rfl⟩)
      · rw [hkeys, ExtTreeMap.map_fst_toList_eq_keys]
        exact nodup_keys source
      · exact mem_toList_iff.mpr hsource

/-- Fresh entries add their weights. -/
theorem sumBy_insertAll (m : OrdMap K V) (hnodup : (entries.map Prod.fst).Nodup)
    (hfresh : ∀ entry ∈ entries, m[entry.1]? = none) :
    sumBy f (insertAll m entries) = sumBy f m + (entries.map fun entry => f entry.2).sum := by
  classical
  induction entries generalizing m with
  | nil => rfl
  | cons entry entries ih =>
      rw [List.map_cons, List.nodup_cons] at hnodup
      have hrest : ∀ e ∈ entries, (m.insert entry.1 entry.2)[e.1]? = none := by
        intro e he
        have hne : entry.1 ≠ e.1 := fun heq => hnodup.1 (heq ▸ List.mem_map_of_mem he)
        rw [getElem?_insert_eq, if_neg hne]
        exact hfresh e (List.mem_cons_of_mem _ he)
      rw [insertAll_cons, ih _ hnodup.2 hrest, sumBy_insert (hfresh entry List.mem_cons_self),
        List.map_cons, List.sum_cons]
      omega

end OrdMap

theorem OrdSet.mem_insert_iff {K : Type} [Ord K] [TransOrd K] [LawfulEqOrd K] {s : OrdSet K}
    {k a : K} : a ∈ s.insert k ↔ k = a ∨ a ∈ s := by
  rw [ExtTreeSet.mem_insert, LawfulEqCmp.compare_eq_iff_eq]

theorem OrdSet.nodup_toList {K : Type} [Ord K] [TransOrd K] (s : OrdSet K) : s.toList.Nodup := by
  refine List.Pairwise.imp ?_ s.distinct_toList
  intro a b hab heq
  exact hab (by rw [heq]; exact ReflCmp.compare_self)

end Cksol
