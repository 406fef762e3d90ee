import Cksol.Common.OrdMap

/-! # `utils/insertion_ordered_map`

A map that remembers the order in which its keys were last inserted: `entries` holds the values with
a sequence number, `order` the keys by sequence number.
-/

namespace Cksol

open Std

/-- Values by key and keys by the time of their insertion. -/
structure InsertionOrderedMap (K V : Type) [Ord K] where
  entries : OrdMap K (ℕ × V)
  order : OrdMap ℕ K
  nextSeq : ℕ

namespace InsertionOrderedMap

variable {K V : Type} [Ord K]

def new : InsertionOrderedMap K V :=
  { entries := ∅, order := ∅, nextSeq := 0 }

variable [TransOrd K]

/-- The map after the insertion; `get` before it is the old value that the source returns. -/
def insert (m : InsertionOrderedMap K V) (key : K) (value : V) : InsertionOrderedMap K V :=
  let order := match m.entries[key]? with
    | some (oldSeq, _) => m.order.erase oldSeq
    | none => m.order
  { entries := m.entries.insert key (m.nextSeq, value)
    order := order.insert m.nextSeq key
    nextSeq := m.nextSeq + 1 }

/-- The removed value and the map without it. -/
def remove (m : InsertionOrderedMap K V) (key : K) : Option (V × InsertionOrderedMap K V) :=
  match m.entries[key]? with
  | some (seq, value) =>
      some (value, { m with entries := m.entries.erase key, order := m.order.erase seq })
  | none => none

def get (m : InsertionOrderedMap K V) (key : K) : Option V :=
  (m.entries[key]?).map Prod.snd

def containsKey (m : InsertionOrderedMap K V) (key : K) : Bool :=
  m.entries.contains key

def len (m : InsertionOrderedMap K V) : ℕ :=
  m.entries.size

/-- `Iter::next` until it returns `None`: the walk ends at the first key without an entry. -/
def iterFrom (entries : OrdMap K (ℕ × V)) : List K → List (K × V)
  | [] => []
  | key :: keys =>
      match entries[key]? with
      | some (_, value) => (key, value) :: iterFrom entries keys
      | none => []

def iter (m : InsertionOrderedMap K V) : List (K × V) :=
  iterFrom m.entries m.order.values

/-- `values_mut`: every value is changed where it stands; the keys tell apart what the caller does to
the single values. -/
def valuesMut (m : InsertionOrderedMap K V) (f : K → V → V) : InsertionOrderedMap K V :=
  { m with entries := m.entries.map fun key entry => (entry.1, f key entry.2) }

/-- `PartialEq`: the iterators yield the same pairs. -/
instance [DecidableEq K] [DecidableEq V] : BEq (InsertionOrderedMap K V) :=
  ⟨fun m m' => m.iter == m'.iter⟩

/-- An iterator in progress: the keys of `order` that neither end has taken. -/
structure Iter (K V : Type) [Ord K] where
  orderIter : List K
  entries : OrdMap K (ℕ × V)

def toIter (m : InsertionOrderedMap K V) : Iter K V :=
  ⟨m.order.values, m.entries⟩

namespace Iter

/-- The pair of a key that was taken; without an entry the call returns `None`. -/
def pair (it : Iter K V) (key : K) : Option (K × V) :=
  (it.entries[key]?).map fun entry => (key, entry.2)

def next (it : Iter K V) : Option (K × V) × Iter K V :=
  match it.orderIter with
  | [] => (none, it)
  | key :: keys => (it.pair key, { it with orderIter := keys })

def nextBack (it : Iter K V) : Option (K × V) × Iter K V :=
  match it.orderIter.getLast? with
  | none => (none, it)
  | some key => (it.pair key, { it with orderIter := it.orderIter.dropLast })

end Iter

/-! ## Lookups -/

@[simp] theorem get_new (key : K) : (new : InsertionOrderedMap K V).get key = none := by
  simp [new, get]

theorem containsKey_iff {m : InsertionOrderedMap K V} {key : K} :
    m.containsKey key ↔ ∃ value, m.get key = some value := by
  rw [containsKey, ExtTreeMap.contains_iff_mem, OrdMap.mem_iff_exists]
  constructor
  · rintro ⟨⟨seq, value⟩, h⟩
    exact ⟨value, by simp [get, h]⟩
  · rintro ⟨value, h⟩
    obtain ⟨entry, hentry, -⟩ := Option.map_eq_some_iff.mp h
    exact ⟨entry, hentry⟩

theorem not_containsKey_iff {m : InsertionOrderedMap K V} {key : K} :
    ¬ m.containsKey key ↔ m.get key = none := by
  rw [containsKey_iff, Option.eq_none_iff_forall_ne_some]
  push Not
  rfl

theorem mem_iterFrom {entries : OrdMap K (ℕ × V)} {key : K} {value : V} :
    ∀ {keys : List K}, (key, value) ∈ iterFrom entries keys → ∃ seq, entries[key]? = some (seq, value)
  | [], h => by simp [iterFrom] at h
  | k :: keys, h => by
      unfold iterFrom at h
      split at h
      case h_1 seq v hk =>
        rcases List.mem_cons.mp h with heq | htail
        · obtain ⟨rfl, rfl⟩ := Prod.mk.inj heq
          exact ⟨seq, hk⟩
        · exact mem_iterFrom htail
      case h_2 => simp at h

/-- Every pair the iterator yields is stored in the map. -/
theorem get_of_mem_iter {m : InsertionOrderedMap K V} {key : K} {value : V}
    (h : (key, value) ∈ m.iter) : m.get key = some value := by
  obtain ⟨seq, hseq⟩ := mem_iterFrom h
  simp [get, hseq]

variable [LawfulEqOrd K]

theorem get_insert [DecidableEq K] (m : InsertionOrderedMap K V) (key a : K) (value : V) :
    (m.insert key value).get a = if key = a then some value else m.get a := by
  rw [get, insert, OrdMap.getElem?_insert_eq]
  split <;> rfl

/-- What a removal returns and leaves. -/
theorem remove_eq_some [DecidableEq K] {m m' : InsertionOrderedMap K V} {key : K} {value : V}
    (h : m.remove key = some (value, m')) :
    m.get key = some value ∧ ∀ a, m'.get a = if key = a then none else m.get a := by
  unfold remove at h
  split at h
  case h_1 seq v hentry =>
    simp only [Option.some.injEq, Prod.mk.injEq] at h
    obtain ⟨rfl, rfl⟩ := h
    refine ⟨by simp [get, hentry], fun a => ?_⟩
    simp only [get, OrdMap.getElem?_erase_eq]
    split <;> rfl
  case h_2 => simp at h

omit [LawfulEqOrd K] in
theorem exists_remove_eq_some {m : InsertionOrderedMap K V} {key : K} {value : V}
    (h : m.get key = some value) : ∃ m', m.remove key = some (value, m') := by
  obtain ⟨⟨seq, value⟩, hentry, rfl⟩ := Option.map_eq_some_iff.mp h
  rw [remove, hentry]
  exact ⟨_, rfl⟩

theorem get_of_remove [DecidableEq K] {m m' : InsertionOrderedMap K V} {key a : K} {value value' : V}
    (h : m.remove key = some (value, m')) (hget : m'.get a = some value') :
    m.get a = some value' := by
  rw [(remove_eq_some h).2] at hget
  split at hget
  · cases hget
  · exact hget

/-! ## The order -/

/-- Both maps give a key the same sequence number, and the next one is new. -/
structure Ordered (m : InsertionOrderedMap K V) : Prop where
  agree : ∀ (seq : ℕ) (key : K),
    m.order[seq]? = some key ↔ ∃ value, m.entries[key]? = some (seq, value)
  lt : ∀ {seq : ℕ} {key : K}, m.order[seq]? = some key → seq < m.nextSeq

omit [LawfulEqOrd K] in
theorem ordered_new : (new : InsertionOrderedMap K V).Ordered := by
  constructor <;> simp [new]

omit [LawfulEqOrd K] in
theorem insert_of_getElem?_eq_none {m : InsertionOrderedMap K V} {key : K}
    (h : m.entries[key]? = none) (value : V) :
    m.insert key value =
      { entries := m.entries.insert key (m.nextSeq, value)
        order := m.order.insert m.nextSeq key
        nextSeq := m.nextSeq + 1 } := by
  rw [insert, h]

/-- A key that is present leaves its old place first. -/
theorem insert_of_remove {m m' : InsertionOrderedMap K V} {key : K} {oldValue : V}
    (h : m.remove key = some (oldValue, m')) (value : V) :
    m.insert key value =
      { entries := m'.entries.insert key (m'.nextSeq, value)
        order := m'.order.insert m'.nextSeq key
        nextSeq := m'.nextSeq + 1 } := by
  classical
  unfold remove at h
  split at h
  case h_2 => cases h
  case h_1 seq value' hentry =>
    obtain ⟨rfl, rfl⟩ := Prod.mk.inj (Option.some.inj h)
    have hentries : (m.entries.erase key).insert key (m.nextSeq, value) =
        m.entries.insert key (m.nextSeq, value) := by
      refine ExtTreeMap.ext_getElem? fun k => ?_
      rw [OrdMap.getElem?_insert_eq, OrdMap.getElem?_insert_eq, OrdMap.getElem?_erase_eq]
      split <;> rfl
    rw [insert, hentry]
    dsimp only
    rw [hentries]

namespace Ordered

variable {m m' : InsertionOrderedMap K V} {key : K} {value : V}

theorem remove (h : m.Ordered) (hremove : m.remove key = some (value, m')) : m'.Ordered := by
  classical
  obtain ⟨hagree, hlt⟩ := h
  unfold InsertionOrderedMap.remove at hremove
  split at hremove
  case h_2 => cases hremove
  case h_1 oldSeq oldValue hold =>
    obtain ⟨rfl, rfl⟩ := Prod.mk.inj (Option.some.inj hremove)
    have horder := (hagree oldSeq key).mpr ⟨_, hold⟩
    constructor
    · intro seq key'
      rw [OrdMap.getElem?_erase_eq, OrdMap.getElem?_erase_eq]
      grind
    · intro seq key' hget
      rw [OrdMap.getElem?_erase_eq] at hget
      split at hget
      · cases hget
      · exact hlt hget

/-- An inserted key takes the next sequence number. -/
theorem append (h : m.Ordered) (hnew : m.entries[key]? = none) (value : V) :
    Ordered { entries := m.entries.insert key (m.nextSeq, value)
              order := m.order.insert m.nextSeq key
              nextSeq := m.nextSeq + 1 } := by
  classical
  obtain ⟨hagree, hlt⟩ := h
  constructor
  · intro seq key'
    have hold := hagree seq key'
    rw [OrdMap.getElem?_insert_eq, OrdMap.getElem?_insert_eq]
    by_cases hkey : key = key'
    · subst hkey
      by_cases hseq : m.nextSeq = seq
      · simp [hseq]
      · simp [hseq, hold, hnew]
    · by_cases hseq : m.nextSeq = seq
      · subst hseq
        have hnone : m.order[m.nextSeq]? ≠ some key' := fun hget => Nat.lt_irrefl _ (hlt hget)
        simpa [hkey, hnone] using hold
      · simpa [hkey, hseq] using hold
  · intro seq key' hget
    dsimp only at hget ⊢
    rw [OrdMap.getElem?_insert_eq] at hget
    grind

theorem insert (h : m.Ordered) (key : K) (value : V) : (m.insert key value).Ordered := by
  cases hentry : m.entries[key]? with
  | none =>
      rw [insert_of_getElem?_eq_none hentry]
      exact h.append hentry value
  | some entry =>
      have hremove : m.remove key = some (entry.2,
          { m with entries := m.entries.erase key, order := m.order.erase entry.1 }) := by
        rw [InsertionOrderedMap.remove, hentry]
      rw [insert_of_remove hremove]
      exact (h.remove hremove).append (by simp) value

omit [LawfulEqOrd K] in
theorem sublist_iterFrom (entries : OrdMap K (ℕ × V)) :
    ∀ keys : List K, ((iterFrom entries keys).map Prod.fst).Sublist keys
  | [] => List.nil_sublist _
  | k :: keys => by
      unfold iterFrom
      split
      · exact (sublist_iterFrom entries keys).cons_cons k
      · exact List.nil_sublist _

omit [LawfulEqOrd K] in
/-- The iterator yields no key twice. -/
theorem nodup_iter (h : m.Ordered) : (m.iter.map Prod.fst).Nodup := by
  refine List.Nodup.sublist (sublist_iterFrom m.entries m.order.values) ?_
  refine List.Nodup.map_on ?_ (OrdMap.nodup_toList m.order)
  rintro ⟨seq, key⟩ hmem ⟨seq', key'⟩ hmem' rfl
  obtain ⟨value, hvalue⟩ := (h.agree _ _).mp (OrdMap.mem_toList_iff.mp hmem)
  obtain ⟨value', hvalue'⟩ := (h.agree _ _).mp (OrdMap.mem_toList_iff.mp hmem')
  rw [hvalue] at hvalue'
  simp_all

end Ordered

end InsertionOrderedMap

end Cksol
