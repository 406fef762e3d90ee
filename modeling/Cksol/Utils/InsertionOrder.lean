import Mathlib.Data.List.Induction
import Cksol.Utils.InsertionOrderedMap

/-! # Maps in insertion order as association lists

What an `InsertionOrderedMap` is for: a list of pairs with distinct keys, the key inserted last at the
end. Every operation does to the iterated pairs what its counterpart does to the list, so the walks of
the iterator from both ends, and the comparison of two maps, are those of the lists.
-/

namespace Cksol

open Std

/-- The end of a list that a walk takes its next element from. -/
inductive End where
  | front
  | back

/-- What a walk that takes elements from both ends sees, and what it leaves. -/
def takeEnds {α : Type} : List End → List α → List (Option α) × List α
  | [], l => ([], l)
  | .front :: ends, l => ((takeEnds ends l.tail).1.cons l.head?, (takeEnds ends l.tail).2)
  | .back :: ends, l => ((takeEnds ends l.dropLast).1.cons l.getLast?, (takeEnds ends l.dropLast).2)

theorem takeEnds_front {α : Type} (l : List α) :
    takeEnds (List.replicate l.length .front) l = (l.map some, []) := by
  induction l with
  | nil => rfl
  | cons a l ih => rw [List.length_cons, List.replicate_succ, takeEnds, List.tail_cons, ih]; rfl

theorem takeEnds_back {α : Type} (l : List α) :
    takeEnds (List.replicate l.length .back) l = (l.reverse.map some, []) := by
  induction l using List.reverseRecOn with
  | nil => rfl
  | append_singleton l a ih =>
      rw [List.length_append, List.length_singleton, List.replicate_succ, takeEnds,
        List.dropLast_concat, ih, List.getLast?_concat, List.reverse_concat]
      rfl

namespace InsertionOrderedMap

/-- The operations that change a map. -/
inductive Op (K V : Type) where
  | insert (key : K) (value : V)
  | remove (key : K)
  | valuesMut (f : K → V → V)

def Op.isInsert {K V : Type} : Op K V → Bool
  | .insert .. => true
  | .remove _ | .valuesMut _ => false

/-- The operations on a list of pairs with distinct keys. -/
def Op.onList {K V : Type} [DecidableEq K] (pairs : List (K × V)) : Op K V → Option V × List (K × V)
  | .insert key value => (pairs.lookup key, pairs.filter (·.1 ≠ key) ++ [(key, value)])
  | .remove key => (pairs.lookup key, pairs.filter (·.1 ≠ key))
  | .valuesMut f => (none, pairs.map fun pair => (pair.1, f pair.1 pair.2))

variable {K V : Type} [Ord K] [TransOrd K]

/-- The operation on the map, with the value it returns. -/
def Op.onMap (m : InsertionOrderedMap K V) : Op K V → Option V × InsertionOrderedMap K V
  | .insert key value => (m.get key, m.insert key value)
  | .remove key =>
      match m.remove key with
      | some (value, m') => (some value, m')
      | none => (none, m)
  | .valuesMut f => (none, m.valuesMut f)

/-- The values returned by operations one after the other, and the state they leave. -/
def returned {σ : Type} (step : σ → Op K V → Option V × σ) : σ → List (Op K V) → List (Option V) × σ
  | s, [] => ([], s)
  | s, op :: ops =>
      ((step s op).1 :: (returned step (step s op).2 ops).1, (returned step (step s op).2 ops).2)

/-! ## The iterator -/

namespace Iter

variable {it : Iter K V} {pairs : List (K × V)}

/-- The pairs are those of the keys that are left, in their order. -/
def Shows (it : Iter K V) (pairs : List (K × V)) : Prop :=
  it.orderIter = pairs.map Prod.fst ∧ ∀ pair ∈ pairs, it.pair pair.1 = some pair

theorem Shows.next (h : it.Shows pairs) :
    it.next.1 = pairs.head? ∧ it.next.2.Shows pairs.tail := by
  obtain ⟨hkeys, hpairs⟩ := h
  cases pairs with
  | nil =>
      rw [List.map_nil] at hkeys
      simp [Iter.next, Shows, hkeys]
  | cons pair pairs =>
      rw [List.map_cons] at hkeys
      rw [Iter.next, hkeys]
      exact ⟨hpairs pair List.mem_cons_self, rfl, fun p hp => hpairs p (List.mem_cons_of_mem _ hp)⟩

theorem Shows.nextBack (h : it.Shows pairs) :
    it.nextBack.1 = pairs.getLast? ∧ it.nextBack.2.Shows pairs.dropLast := by
  obtain ⟨hkeys, hpairs⟩ := h
  rw [Iter.nextBack, hkeys, List.getLast?_map]
  cases hlast : pairs.getLast? with
  | none =>
      obtain rfl := List.getLast?_eq_none_iff.mp hlast
      exact ⟨rfl, hkeys, hpairs⟩
  | some pair =>
      refine ⟨hpairs pair (List.mem_of_getLast? hlast), ?_, fun p hp => ?_⟩
      · exact (List.map_dropLast ..).symm
      · exact hpairs p (List.dropLast_subset _ hp)

/-- The results of calls at the given ends. -/
def calls : List End → Iter K V → List (Option (K × V))
  | [], _ => []
  | .front :: ends, it => it.next.1 :: calls ends it.next.2
  | .back :: ends, it => it.nextBack.1 :: calls ends it.nextBack.2

/-- Any mix of calls takes the pairs from the ends it asks for. -/
theorem Shows.calls (h : it.Shows pairs) (ends : List End) :
    it.calls ends = (takeEnds ends pairs).1 := by
  induction ends generalizing it pairs with
  | nil => rfl
  | cons first ends ih =>
      cases first with
      | front => rw [Iter.calls, h.next.1, ih h.next.2]; rfl
      | back => rw [Iter.calls, h.nextBack.1, ih h.nextBack.2]; rfl

end Iter

/-! ## The operations on the iterated pairs -/

variable [LawfulEqOrd K] {m m' : InsertionOrderedMap K V} {key : K} {value : V}

namespace Ordered

omit [LawfulEqOrd K] in
/-- No key of the order is without an entry, so the iterator does not stop early. -/
theorem iter_eq (h : m.Ordered) :
    m.iter = m.order.toList.filterMap fun entry =>
      (m.entries[entry.2]?).map fun stored => (entry.2, stored.2) := by
  have key : ∀ l : List (ℕ × K), (∀ entry ∈ l, m.order[entry.1]? = some entry.2) →
      iterFrom m.entries (l.map Prod.snd) = l.filterMap fun entry =>
        (m.entries[entry.2]?).map fun stored => (entry.2, stored.2) := by
    intro l
    induction l with
    | nil => exact fun _ => rfl
    | cons entry l ih =>
        intro hl
        obtain ⟨hentry, hl⟩ := List.forall_mem_cons.mp hl
        obtain ⟨value, hvalue⟩ := (h.agree _ _).mp hentry
        rw [List.map_cons, iterFrom, hvalue, List.filterMap_cons, hvalue, ih hl]
        rfl
  exact key _ fun entry hentry => OrdMap.mem_toList_iff.mp hentry

omit [LawfulEqOrd K] in
/-- The iterator yields the stored pairs. -/
theorem mem_iter_iff (h : m.Ordered) : (key, value) ∈ m.iter ↔ m.get key = some value := by
  refine ⟨get_of_mem_iter, fun hget => ?_⟩
  obtain ⟨⟨seq, value⟩, hentry, rfl⟩ := Option.map_eq_some_iff.mp hget
  have horder := (h.agree seq key).mpr ⟨value, hentry⟩
  rw [h.iter_eq, List.mem_filterMap]
  exact ⟨(seq, key), OrdMap.mem_toList_iff.mpr horder, by simp [hentry]⟩

omit [LawfulEqOrd K] in
theorem keys_iter (h : m.Ordered) : m.iter.map Prod.fst = m.order.values := by
  rw [h.iter_eq, List.map_filterMap, OrdMap.values, ← List.filterMap_eq_map]
  refine List.filterMap_congr fun entry hentry => ?_
  obtain ⟨value, hvalue⟩ := (h.agree _ _).mp (OrdMap.mem_toList_iff.mp hentry)
  simp [hvalue]

omit [LawfulEqOrd K] in
theorem shows_toIter (h : m.Ordered) : m.toIter.Shows m.iter := by
  refine ⟨h.keys_iter.symm, ?_⟩
  rintro ⟨key, value⟩ hpair
  obtain ⟨seq, hentry⟩ := mem_iterFrom hpair
  simp [Iter.pair, toIter, hentry]

theorem length_iter (h : m.Ordered) : m.iter.length = m.len := by
  have hperm : (m.iter.map Prod.fst).Perm m.entries.keys := by
    refine (List.perm_ext_iff_of_nodup h.nodup_iter (OrdMap.nodup_keys _)).mpr fun key => ?_
    rw [ExtTreeMap.mem_keys, ← ExtTreeMap.contains_iff_mem]
    refine Iff.trans ?_ containsKey_iff.symm
    rw [List.mem_map]
    constructor
    · rintro ⟨⟨key, value⟩, hpair, rfl⟩
      exact ⟨value, h.mem_iter_iff.mp hpair⟩
    · rintro ⟨value, hget⟩
      exact ⟨(key, value), h.mem_iter_iff.mpr hget, rfl⟩
  rw [← List.length_map, hperm.length_eq, ExtTreeMap.length_keys, len]

omit [LawfulEqOrd K] in
theorem lookup_iter [DecidableEq K] (h : m.Ordered) (key : K) : m.iter.lookup key = m.get key := by
  cases hlookup : m.iter.lookup key with
  | some value =>
      obtain ⟨before, after, hiter, -⟩ := List.lookup_eq_some_iff.mp hlookup
      exact (h.mem_iter_iff.mp (by simp [hiter])).symm
  | none =>
      cases hget : m.get key with
      | none => rfl
      | some value =>
          have hne := List.lookup_eq_none_iff.mp hlookup _ (h.mem_iter_iff.mpr hget)
          simp at hne

/-- A new key goes to the end. -/
theorem iter_append (h : m.Ordered) (hnew : m.entries[key]? = none) (value : V) :
    iter { entries := m.entries.insert key (m.nextSeq, value)
           order := m.order.insert m.nextSeq key
           nextSeq := m.nextSeq + 1 } = m.iter ++ [(key, value)] := by
  classical
  have hlast : ∀ seq ∈ m.order, compare seq m.nextSeq = .lt := by
    intro seq hseq
    obtain ⟨key', hkey'⟩ := OrdMap.mem_iff_exists.mp hseq
    exact Nat.compare_eq_lt.mpr (h.lt hkey')
  rw [(h.append hnew value).iter_eq, h.iter_eq]
  dsimp only
  rw [OrdMap.toList_insert_last hlast, List.filterMap_append]
  congr 1
  · refine List.filterMap_congr fun entry hentry => ?_
    obtain ⟨value', hvalue'⟩ := (h.agree _ _).mp (OrdMap.mem_toList_iff.mp hentry)
    have hne : key ≠ entry.2 := by
      rintro rfl
      rw [hnew] at hvalue'
      cases hvalue'
    rw [OrdMap.getElem?_insert_eq, if_neg hne]
  · simp

/-- A removed key leaves the order of the others. -/
theorem iter_remove [DecidableEq K] (h : m.Ordered) (hremove : m.remove key = some (value, m')) :
    m'.iter = m.iter.filter (·.1 ≠ key) := by
  rw [(h.remove hremove).iter_eq, h.iter_eq]
  unfold InsertionOrderedMap.remove at hremove
  split at hremove
  case h_2 => cases hremove
  case h_1 seq value' hold =>
    obtain ⟨rfl, rfl⟩ := Prod.mk.inj (Option.some.inj hremove)
    dsimp only
    rw [OrdMap.toList_erase, List.filterMap_filter, List.filter_filterMap]
    refine List.filterMap_congr fun entry hentry => ?_
    obtain ⟨stored, hstored⟩ := (h.agree _ _).mp (OrdMap.mem_toList_iff.mp hentry)
    have hiff : entry.1 = seq ↔ entry.2 = key := by
      constructor
      · intro heq
        have horder := (h.agree seq key).mpr ⟨_, hold⟩
        rw [← heq, OrdMap.mem_toList_iff.mp hentry] at horder
        exact Option.some.inj horder
      · intro heq
        rw [heq, hold] at hstored
        exact (Prod.mk.inj (Option.some.inj hstored)).1.symm
    rw [OrdMap.getElem?_erase_eq]
    by_cases heq : entry.2 = key
    · simp [heq, hiff.mpr heq, hold, Option.filter_some]
    · simp [heq, hiff, Ne.symm heq, hstored, Option.filter_some]

theorem iter_insert [DecidableEq K] (h : m.Ordered) (key : K) (value : V) :
    (m.insert key value).iter = m.iter.filter (·.1 ≠ key) ++ [(key, value)] := by
  cases hentry : m.entries[key]? with
  | none =>
      have hfilter : m.iter.filter (·.1 ≠ key) = m.iter := by
        refine List.filter_eq_self.mpr ?_
        rintro ⟨key', value'⟩ hpair
        have hget := h.mem_iter_iff.mp hpair
        rw [decide_eq_true_eq]
        rintro rfl
        rw [get, hentry] at hget
        cases hget
      rw [insert_of_getElem?_eq_none hentry, h.iter_append hentry, hfilter]
  | some entry =>
      have hremove : m.remove key = some (entry.2,
          { m with entries := m.entries.erase key, order := m.order.erase entry.1 }) := by
        rw [InsertionOrderedMap.remove, hentry]
      rw [insert_of_remove hremove, (h.remove hremove).iter_append (by simp),
        h.iter_remove hremove]

theorem valuesMut (h : m.Ordered) (f : K → V → V) : (m.valuesMut f).Ordered := by
  refine ⟨fun seq key => ?_, h.lt⟩
  refine (h.agree seq key).trans ?_
  rw [InsertionOrderedMap.valuesMut, ExtTreeMap.getElem?_map]
  cases m.entries[key]? with
  | none => simp
  | some entry => simp [Prod.ext_iff]

theorem iter_valuesMut (h : m.Ordered) (f : K → V → V) :
    (m.valuesMut f).iter = m.iter.map fun pair => (pair.1, f pair.1 pair.2) := by
  rw [(h.valuesMut f).iter_eq, h.iter_eq, List.map_filterMap]
  refine List.filterMap_congr fun entry _ => ?_
  rw [InsertionOrderedMap.valuesMut, ExtTreeMap.getElem?_map, Option.map_map, Option.map_map]
  rfl

end Ordered

/-! ## Whole runs -/

/-- The map is the list: its inner maps agree, and it iterates over the pairs of the list. -/
structure Refines (m : InsertionOrderedMap K V) (pairs : List (K × V)) : Prop where
  ordered : m.Ordered
  iter : m.iter = pairs

variable [DecidableEq K] {pairs : List (K × V)}

/-- An operation returns the same on the map and on the list, and keeps them together. -/
theorem Refines.op (h : m.Refines pairs) (op : Op K V) :
    (op.onMap m).1 = (op.onList pairs).1 ∧ (op.onMap m).2.Refines (op.onList pairs).2 := by
  obtain ⟨hordered, rfl⟩ := h
  cases op with
  | insert key value =>
      exact ⟨(hordered.lookup_iter key).symm, hordered.insert key value, hordered.iter_insert key value⟩
  | valuesMut f => exact ⟨rfl, hordered.valuesMut f, hordered.iter_valuesMut f⟩
  | remove key =>
      rw [Op.onMap, Op.onList, hordered.lookup_iter]
      cases hremove : m.remove key with
      | some removed =>
          exact ⟨(remove_eq_some hremove).1.symm, hordered.remove hremove, hordered.iter_remove hremove⟩
      | none =>
          have hget : m.get key = none := by
            by_contra hsome
            obtain ⟨value, hvalue⟩ := Option.ne_none_iff_exists'.mp hsome
            obtain ⟨m', hm'⟩ := exists_remove_eq_some hvalue
            rw [hremove] at hm'
            cases hm'
          refine ⟨hget.symm, hordered, ?_⟩
          have hnone := List.lookup_eq_none_iff.mp ((hordered.lookup_iter key).trans hget)
          refine (List.filter_eq_self.mpr fun pair hpair => ?_).symm
          exact decide_eq_true (Ne.symm (bne_iff_ne.mp (hnone pair hpair)))

theorem Refines.returned (h : m.Refines pairs) (ops : List (Op K V)) :
    (returned Op.onMap m ops).1 = (returned Op.onList pairs ops).1 ∧
      (returned Op.onMap m ops).2.Refines (returned Op.onList pairs ops).2 := by
  induction ops generalizing m pairs with
  | nil => exact ⟨rfl, h⟩
  | cons op ops ih =>
      obtain ⟨hfirst, hnext⟩ := h.op op
      obtain ⟨hrest, hlast⟩ := ih hnext
      refine ⟨?_, hlast⟩
      rw [InsertionOrderedMap.returned, InsertionOrderedMap.returned, hfirst, hrest]

omit [LawfulEqOrd K] [DecidableEq K] in
theorem refines_new : (new : InsertionOrderedMap K V).Refines [] := by
  have hempty : (new : InsertionOrderedMap K V).order.toList = [] := ExtTreeMap.toList_eq_nil_iff.mpr rfl
  refine ⟨ordered_new, ?_⟩
  rw [ordered_new.iter_eq, hempty, List.filterMap_nil]

omit [LawfulEqOrd K] [DecidableEq K] in
theorem nextSeq_onMap (m : InsertionOrderedMap K V) (op : Op K V) :
    (op.onMap m).2.nextSeq = m.nextSeq + if op.isInsert then 1 else 0 := by
  cases op with
  | insert key value => rfl
  | valuesMut f => rfl
  | remove key =>
      cases hentry : m.entries[key]? <;> simp [Op.onMap, remove, hentry, Op.isInsert]

omit [LawfulEqOrd K] [DecidableEq K] in
/-- Only insertions take a sequence number. -/
theorem nextSeq_returned (m : InsertionOrderedMap K V) (ops : List (Op K V)) :
    (returned Op.onMap m ops).2.nextSeq = m.nextSeq + ops.countP Op.isInsert := by
  induction ops generalizing m with
  | nil => rfl
  | cons op ops ih =>
      rw [InsertionOrderedMap.returned, ih, nextSeq_onMap, List.countP_cons]
      omega

/-- A map that went through any operations is the association list that went through them: its inner
maps are inverse to each other, its operations returned what those of the list did, it yields the
pairs of the list in their order from whichever end it is asked, and it equals another map when the
lists are equal. The counter is the number of insertions, so within `u64` it does not wrap. -/
theorem refines_assocList [DecidableEq V] (ops : List (Op K V)) :
    let m := (returned Op.onMap new ops).2
    let pairs := (returned Op.onList [] ops).2
    ((∀ (seq : ℕ) (key : K), m.order[seq]? = some key ↔
        ∃ value, m.entries[key]? = some (seq, value)) ∧
      (∀ seq ∈ m.order, seq < m.nextSeq) ∧ m.nextSeq = ops.countP Op.isInsert) ∧
    (m.iter = pairs ∧ (pairs.map Prod.fst).Nodup ∧
      (∀ key value, (key, value) ∈ pairs ↔ m.get key = some value) ∧ pairs.length = m.len) ∧
    ((∀ ends, m.toIter.calls ends = (takeEnds ends pairs).1) ∧
      m.toIter.calls (List.replicate m.len .front) = pairs.map some ∧
      m.toIter.calls (List.replicate m.len .back) = pairs.reverse.map some) ∧
    (returned Op.onMap (new : InsertionOrderedMap K V) ops).1 = (returned Op.onList [] ops).1 ∧
    ∀ ops' : List (Op K V), (m == (returned Op.onMap new ops').2) = true ↔
      pairs = (returned Op.onList [] ops').2 := by
  intro m pairs
  obtain ⟨hreturned, hordered, hiter⟩ : _ ∧ m.Refines pairs := refines_new.returned ops
  have hcalls (ends : List End) : m.toIter.calls ends = (takeEnds ends pairs).1 := by
    rw [← hiter]
    exact hordered.shows_toIter.calls ends
  have hlength : pairs.length = m.len := by rw [← hiter, hordered.length_iter]
  refine ⟨⟨hordered.agree, fun seq hseq => ?_, ?_⟩, ⟨hiter, ?_, fun key value => ?_, hlength⟩,
    ⟨hcalls, ?_, ?_⟩, hreturned, fun ops' => ?_⟩
  · obtain ⟨key, hkey⟩ := OrdMap.mem_iff_exists.mp hseq
    exact hordered.lt hkey
  · rw [nextSeq_returned]
    exact Nat.zero_add _
  · rw [← hiter]
    exact hordered.nodup_iter
  · rw [← hiter]
    exact hordered.mem_iter_iff
  · rw [hcalls, ← hlength, takeEnds_front]
  · rw [hcalls, ← hlength, takeEnds_back]
  · rw [← (refines_new.returned ops').2.iter, ← hiter]
    show (m.iter == (returned Op.onMap new ops').2.iter) = true ↔ _
    exact beq_iff_eq

/-- The same pairs by another history: a removal and a second insertion. -/
theorem refines_assocList_nat :
    ((returned Op.onMap (new : InsertionOrderedMap ℕ ℕ)
        [.insert 1 10, .insert 2 20, .insert 1 11]).2 ==
      (returned Op.onMap new [.insert 3 30, .insert 2 20, .remove 3, .insert 1 11]).2) = true :=
  ((refines_assocList _).2.2.2.2 _).mpr rfl

end InsertionOrderedMap

end Cksol
