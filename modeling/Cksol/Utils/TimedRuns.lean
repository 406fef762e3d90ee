import Cksol.Common.StableSort
import Cksol.Utils.Expiry

/-! # Timed maps over whole runs

Whatever operations a `TimedSizedMap` goes through, at whatever times, its index lists every entry once,
in the bucket of its expiry. An entry is lost only to a removal or to an eviction after its expiry, and
a snapshot of the entries in the order of the index rebuilds the map.
-/

namespace Cksol

open Std

theorem OrdMap.forall_of_size_filter {K V : Type} [Ord K] [TransOrd K] [LawfulEqOrd K] {m : OrdMap K V}
    {f : K → V → Bool} (h : m.size ≤ (m.filter f).size) {k : K} {v : V} (hget : m[k]? = some v) :
    f k v := by
  have hlength : (m.toList.filter fun entry => f entry.1 entry.2).length = m.toList.length := by
    refine Nat.le_antisymm (List.length_filter_le _ _) ?_
    rwa [← ExtTreeMap.toList_filter, ExtTreeMap.length_toList, ExtTreeMap.length_toList]
  exact List.length_filter_eq_length_iff.mp hlength _ (OrdMap.mem_toList_iff.mpr hget)

namespace TimedSizedMap

/-- The operations that change a map, with the times the caller supplies. -/
inductive Op (K V : Type) where
  | insert (now : Timestamp) (key : K) (value : V)
  | insertEntry (now : Timestamp) (key : K) (entry : Entry V)
  | getValueMut (now : Timestamp) (key : K) (f : V → V)
  | evictExpired (now : Timestamp)
  | remove (key : K)

/-- The time at which an operation evicts, if it does. -/
def Op.evictsAt {K V : Type} : Op K V → Option Timestamp
  | .insert now .. | .insertEntry now .. | .evictExpired now => some now
  | .getValueMut .. | .remove _ => none

variable {K V : Type} [Ord K] [TransOrd K] [DecidableEq K]

/-- The map after the operation. -/
def Op.apply (m : TimedSizedMap K V) : Op K V → Except Inconsistent (TimedSizedMap K V)
  | .insert now key value => (m.insert now key value).map Prod.fst
  | .insertEntry now key entry => (m.insertEntry now key entry).map Prod.fst
  | .getValueMut now key f => .ok (m.modifyValue now key f)
  | .evictExpired now => (m.evictExpired now).map Prod.fst
  | .remove key => m.remove key

/-- The map after operations one after the other. -/
def run (m : TimedSizedMap K V) (ops : List (Op K V)) : Except Inconsistent (TimedSizedMap K V) :=
  ops.foldlM Op.apply m

/-- The map is consistent and has no empty bucket. -/
structure Sound (m : TimedSizedMap K V) : Prop where
  consistent : m.Consistent
  nonempty : ∀ (expiresAt : Timestamp) (bucket : List K),
    m.byExpiry[expiresAt]? = some bucket → bucket ≠ []

omit [DecidableEq K] in
theorem sound_new (ttl : Duration) (capacity : ℕ) :
    (TimedSizedMap.new ttl capacity : TimedSizedMap K V).Sound :=
  ⟨consistent_new ttl capacity, fun expiresAt bucket h => by simp [new] at h⟩

variable [LawfulEqOrd K] {m m' : TimedSizedMap K V} {now : Timestamp} {key : K} {entry : Entry V}

namespace Sound

omit [DecidableEq K] in
theorem keepLive (h : m.Sound) (now : Timestamp) : (m.keepLive now).Sound := by
  refine ⟨h.consistent.keepLive now, fun expiresAt bucket hget => ?_⟩
  rw [TimedSizedMap.keepLive, ExtTreeMap.getElem?_filter', Option.filter_eq_some_iff] at hget
  exact h.nonempty expiresAt bucket hget.1

omit [DecidableEq K] in
theorem insertNew (h : m.Sound) (hnew : m.entries[key]? = none) (hroom : m.entries.size < m.capacity) :
    (m.insertNew key entry).Sound := by
  refine ⟨h.consistent.insertNew hnew hroom, fun expiresAt bucket hget => ?_⟩
  rw [TimedSizedMap.insertNew, enqueueByExpiry, OrdMap.getElem?_insert_eq] at hget
  split at hget
  · rw [← Option.some.inj hget]
    exact List.append_ne_nil_of_right_ne_nil _ (List.cons_ne_nil _ _)
  · exact h.nonempty expiresAt bucket hget

omit [DecidableEq K] in
/-- When the live entries fill the map, there are no others. -/
theorem keepLive_eq_self (h : m.Sound) (hfull : m.capacity ≤ (m.keepLive now).entries.size) :
    m.keepLive now = m := by
  refine (h.consistent.agrees.keepLive_eq_self fun t ht hexpired => ?_).1
  obtain ⟨bucket, hbucket⟩ := OrdMap.mem_iff_exists.mp ht
  obtain ⟨key, hkey⟩ := List.exists_mem_of_ne_nil bucket (h.nonempty t bucket hbucket)
  obtain ⟨entry, hentry, rfl⟩ := h.consistent.agrees.exists_entry hbucket hkey
  have hlive : entry.isLive now :=
    OrdMap.forall_of_size_filter (Nat.le_trans h.consistent.sized hfull) hentry
  simp [Entry.isLive, hexpired] at hlive

end Sound

/-! ## What an operation keeps -/

/-- An entry stays, possibly with another value, unless the operation removes its key or evicts after
its expiry. -/
def Keeps (m : TimedSizedMap K V) (op : Op K V) (m' : TimedSizedMap K V) : Prop :=
  ∀ (key : K) (entry : Entry V), m.entries[key]? = some entry →
    (∃ entry', m'.entries[key]? = some entry' ∧ entry'.expiresAt = entry.expiresAt ∧
      (entry' = entry ∨ ∃ now f, op = .getValueMut now key f)) ∨
    op = .remove key ∨ ∃ now, op.evictsAt = some now ∧ entry.expiresAt < now

omit [DecidableEq K] [LawfulEqOrd K] in
theorem keeps_self (m : TimedSizedMap K V) (op : Op K V) : m.Keeps op m :=
  fun _ entry hentry => .inl ⟨entry, hentry, rfl, .inl rfl⟩

omit [DecidableEq K] in
theorem keeps_keepLive {op : Op K V} (hop : op.evictsAt = some now) :
    m.Keeps op (m.keepLive now) := by
  intro key entry hentry
  by_cases hlive : entry.isLive now
  · refine .inl ⟨entry, ?_, rfl, .inl rfl⟩
    rw [keepLive, ExtTreeMap.getElem?_filter', hentry, Option.filter_some, if_pos hlive]
  · refine .inr (.inr ⟨now, hop, ?_⟩)
    rw [isLive_iff] at hlive
    exact Nat.lt_of_not_ge hlive

/-- What an insertion does to a sound map. -/
theorem Sound.insertion (h : m.Sound) {result : Except (InsertError K V) (List (K × V))}
    (hinsertion : m.Insertion now key entry m' result) (op : Op K V) (hop : op.evictsAt = some now) :
    m'.Sound ∧ m'.ttl = m.ttl ∧ m'.capacity = m.capacity ∧ m.Keeps op m' ∧
      (∀ error, result = .error error → m' = m) ∧
      ∀ entry', m'.entries[key]? = some entry' →
        m.entries[key]? = some entry' ∨ entry'.expiresAt ≤ now + m.ttl := by
  cases hinsertion with
  | expired =>
      exact ⟨h, rfl, rfl, keeps_self m op, fun _ _ => rfl, fun entry' hentry' => .inl hentry'⟩
  | present =>
      exact ⟨h, rfl, rfl, keeps_self m op, fun _ _ => rfl, fun entry' hentry' => .inl hentry'⟩
  | full _ _ hfull =>
      rw [h.keepLive_eq_self hfull]
      exact ⟨h, rfl, rfl, keeps_self m op, fun _ _ => rfl, fun entry' hentry' => .inl hentry'⟩
  | admitted _ hnew hroom =>
      refine ⟨(h.keepLive now).insertNew hnew hroom, rfl, rfl, ?_, ?_, ?_⟩
      · intro other old hold
        rcases keeps_keepLive hop other old hold with ⟨old', hold', hkept⟩ | hgone
        · have hne : key ≠ other := by
            rintro rfl
            rw [hnew] at hold'
            cases hold'
          refine .inl ⟨old', ?_, hkept⟩
          rw [TimedSizedMap.insertNew, OrdMap.getElem?_insert_eq, if_neg hne]
          exact hold'
        · exact .inr hgone
      · intro error herror
        cases herror
      · intro entry' hentry'
        rw [TimedSizedMap.insertNew, OrdMap.getElem?_insert_eq, if_pos rfl] at hentry'
        obtain rfl := Option.some.inj hentry'
        refine .inr (Nat.le_trans (Nat.min_le_right _ _) ?_)
        exact Nat.min_le_left _ _

/-- Every operation succeeds on a sound map and leaves a sound map. -/
theorem Sound.op (h : m.Sound) (op : Op K V) :
    ∃ m', op.apply m = .ok m' ∧ m'.Sound ∧ m'.ttl = m.ttl ∧ m'.capacity = m.capacity ∧
      m.Keeps op m' := by
  have hagrees := h.consistent.agrees
  cases op with
  | insert now key value =>
      obtain ⟨m', result, hinsert, hinsertion⟩ := hagrees.insertEntry now key ⟨value, m.expiry now⟩
      obtain ⟨hsound, httl, hcapacity, hkeeps, -⟩ :=
        h.insertion hinsertion (.insert now key value) rfl
      refine ⟨m', ?_, hsound, httl, hcapacity, hkeeps⟩
      rw [Op.apply, TimedSizedMap.insert, hinsert]
      rfl
  | insertEntry now key entry =>
      obtain ⟨m', result, hinsert, hinsertion⟩ := hagrees.insertEntry now key entry
      obtain ⟨hsound, httl, hcapacity, hkeeps, -⟩ :=
        h.insertion hinsertion (.insertEntry now key entry) rfl
      refine ⟨m', ?_, hsound, httl, hcapacity, hkeeps⟩
      rw [Op.apply, hinsert]
      rfl
  | evictExpired now =>
      refine ⟨m.keepLive now, ?_, h.keepLive now, rfl, rfl, keeps_keepLive rfl⟩
      rw [Op.apply, hagrees.evictExpired_eq_ok]
      rfl
  -- values change under their expiry, so the index stays as it is
  | getValueMut now key f =>
      obtain ⟨hindex, httl, hcapacity⟩ := byExpiry_modifyValue m now key f
      refine ⟨m.modifyValue now key f, rfl, ⟨(h.consistent.modifyValue now key f).1, ?_⟩, httl,
        hcapacity, ?_⟩
      · rw [hindex]
        exact h.nonempty
      · intro other entry hentry
        have hmodified := getElem?_modifyValue m now key f other
        rw [hentry, Option.map_some] at hmodified
        refine .inl ⟨_, hmodified, ?_, ?_⟩
        · split <;> rfl
        · split
          case isTrue hkey => exact .inr ⟨now, f, by rw [hkey.1]⟩
          case isFalse => exact .inl rfl
  | remove key =>
      obtain ⟨m', hremove, hagrees', httl, hcapacity, hentries, hbuckets⟩ := hagrees.remove key
      refine ⟨m', hremove, ⟨⟨hagrees', ?_⟩, ?_⟩, httl, hcapacity, ?_⟩
      · rw [hentries, hcapacity]
        exact Nat.le_trans ExtTreeMap.size_erase_le h.consistent.sized
      · intro expiresAt bucket hget
        rcases hbuckets expiresAt bucket hget with hnonempty | hold
        · exact hnonempty
        · exact h.nonempty expiresAt bucket hold
      · intro other entry hentry
        by_cases hkey : key = other
        · exact .inr (.inl (by rw [hkey]))
        · refine .inl ⟨entry, ?_, rfl, .inl rfl⟩
          rw [hentries, OrdMap.getElem?_erase_eq, if_neg hkey]
          exact hentry

theorem Sound.run (h : m.Sound) (ops : List (Op K V)) :
    ∃ m', m.run ops = .ok m' ∧ m'.Sound ∧ m'.ttl = m.ttl ∧ m'.capacity = m.capacity := by
  induction ops generalizing m with
  | nil => exact ⟨m, rfl, h, rfl, rfl⟩
  | cons op ops ih =>
      obtain ⟨m₁, happly, hsound, httl, hcapacity, -⟩ := h.op op
      obtain ⟨m', hrun, hsound', httl', hcapacity'⟩ := ih hsound
      refine ⟨m', ?_, hsound', httl'.trans httl, hcapacity'.trans hcapacity⟩
      rw [TimedSizedMap.run, List.foldlM_cons, happly]
      exact hrun

/-! ## The entries in the order of the index -/

namespace Agrees

omit [DecidableEq K] [LawfulEqOrd K] in
theorem iterByExpiry_eq_ok (h : m.Agrees) : m.iterByExpiry = .ok m.listing := by
  rw [iterByExpiry, ← h.keys_listing, List.mapM_map]
  refine (mapM_eq_ok_map (g := id) fun pair hpair => ?_).trans (by rw [List.map_id])
  show (orPanic m.entries[pair.1]? _ >>= _) = _
  rw [h.mem_listing_iff.mp hpair]
  rfl

omit [DecidableEq K] in
theorem listing_keepLive (h : m.Agrees) (now : Timestamp) :
    (m.keepLive now).listing = m.listing.filter fun pair => pair.2.isLive now := by
  refine eq_of_sorted_of_filter_eq (h.keepLive now).sorted_listing (h.sorted_listing.filter _)
    fun t => ?_
  have hcomm : (m.listing.filter fun pair => pair.2.isLive now).filter (·.2.expiresAt = t) =
      (m.listing.filter (·.2.expiresAt = t)).filter fun pair => pair.2.isLive now := by
    rw [List.filter_filter, List.filter_filter]
    exact List.filter_congr fun pair _ => Bool.and_comm _ _
  rw [hcomm, h.filter_listing, (h.keepLive now).filter_listing, TimedSizedMap.keepLive,
    ExtTreeMap.getElem?_filter']
  cases hbucket : m.byExpiry[t]? with
  | none => rfl
  | some bucket =>
      have hexpiry {pair : K × Entry V} (hpair : pair ∈ m.bucketEntries bucket) :
          pair.2.expiresAt = t :=
        h.expiresAt_of_mem (OrdMap.mem_toList_iff.mpr hbucket) hpair
      rw [Option.filter_some, Option.getD_some]
      by_cases hexpired : isExpired t now
      · rw [hexpired]
        refine (List.filter_eq_nil_iff.mpr fun pair hpair => ?_).symm
        simp [Entry.isLive, hexpiry hpair, hexpired]
      · have hlive : (m.bucketEntries bucket).filter (fun pair => pair.2.isLive now) =
            m.bucketEntries bucket := by
          refine List.filter_eq_self.mpr fun pair hpair => ?_
          simp [Entry.isLive, hexpiry hpair, hexpired]
        rw [hlive, if_pos (by simp [hexpired])]
        refine bucketEntries_congr fun key hkey => ?_
        obtain ⟨entry, hentry, rfl⟩ := h.exists_entry hbucket hkey
        rw [ExtTreeMap.getElem?_filter', hentry]
        simp [Option.filter_some, Entry.isLive, hexpired]

omit [DecidableEq K] in
theorem perm_keys (h : m.Agrees) : m.byExpiry.values.flatten.Perm m.entries.keys := by
  refine (List.perm_ext_iff_of_nodup h.nodup_keys (OrdMap.nodup_keys _)).mpr fun key => ?_
  rw [← h.keys_listing, List.mem_map, ExtTreeMap.mem_keys, OrdMap.mem_iff_exists]
  constructor
  · rintro ⟨⟨key, entry⟩, hpair, rfl⟩
    exact ⟨entry, h.mem_listing_iff.mp hpair⟩
  · rintro ⟨entry, hentry⟩
    exact ⟨(key, entry), h.mem_listing_iff.mpr hentry, rfl⟩

end Agrees

/-- Whatever operations a map went through, at whatever times: no expectation failed; the index has
every key once, in the bucket of its expiry, and no empty bucket; the map fits its capacity. From there
an insertion that fails changes nothing and one that succeeds lasts for at most `ttl`, an eviction takes
exactly the expired entries by expiry, and no operation loses another entry. -/
theorem run_sound (ttl : Duration) (capacity : ℕ) (ops : List (Op K V)) :
    ∃ m : TimedSizedMap K V, (new ttl capacity).run ops = .ok m ∧
      (m.byExpiry.values.flatten.Perm m.entries.keys ∧ (∀ bucket ∈ m.byExpiry.values, bucket ≠ []) ∧
        ∀ (key : K) (entry : Entry V), m.entries[key]? = some entry →
          ∃ bucket, m.byExpiry[entry.expiresAt]? = some bucket ∧ key ∈ bucket) ∧
      m.entries.size ≤ capacity ∧
      (∀ now key entry, ∃ m' result, m.insertEntry now key entry = .ok (m', result) ∧
        (∀ error, result = .error error → m' = m) ∧
        ∀ entry', m'.entries[key]? = some entry' →
          m.entries[key]? = some entry' ∨ entry'.expiresAt ≤ now + ttl) ∧
      (∀ now key value, ∃ m' result, m.insert now key value = .ok (m', result) ∧
        (∀ error, result = .error error → m' = m) ∧
        ∀ entry', m'.entries[key]? = some entry' →
          m.entries[key]? = some entry' ∨ entry'.expiresAt ≤ now + ttl) ∧
      (∃ listed, m.iterByExpiry = .ok listed ∧
        (listed.Pairwise fun first second => first.2.expiresAt ≤ second.2.expiresAt) ∧
        ∀ now, ∃ m', m.evictExpired now = .ok (m',
            (listed.filter (·.2.expiresAt < now)).map fun pair => (pair.1, pair.2.value)) ∧
          m'.iterByExpiry = .ok (listed.filter (now ≤ ·.2.expiresAt))) ∧
      ∀ op : Op K V, ∃ m', op.apply m = .ok m' ∧ m.Keeps op m' := by
  obtain ⟨m, hrun, hsound, (httl : m.ttl = ttl), (hcapacity : m.capacity = capacity)⟩ :=
    (sound_new ttl capacity).run ops
  have hagrees := hsound.consistent.agrees
  -- an insertion is one of an entry with the expiry of the map
  have hinsertEntry (now : Timestamp) (key : K) (entry : Entry V) :
      ∃ m' result, m.insertEntry now key entry = .ok (m', result) ∧
        (∀ error, result = .error error → m' = m) ∧
        ∀ entry', m'.entries[key]? = some entry' →
          m.entries[key]? = some entry' ∨ entry'.expiresAt ≤ now + ttl := by
    obtain ⟨m', result, hinsert, hinsertion⟩ := hagrees.insertEntry now key entry
    obtain ⟨-, -, -, -, herror, hexpiry⟩ := hsound.insertion hinsertion (.insertEntry now key entry) rfl
    exact ⟨m', result, hinsert, herror, httl ▸ hexpiry⟩
  refine ⟨m, hrun, ⟨hagrees.perm_keys, fun bucket hbucket => ?_, fun key entry hentry => ?_⟩,
    hcapacity ▸ hsound.consistent.sized, hinsertEntry, fun now key value => hinsertEntry now key _,
    ⟨m.listing, hagrees.iterByExpiry_eq_ok, hagrees.sorted_listing, fun now => ?_⟩, fun op => ?_⟩
  · obtain ⟨expiresAt, hget⟩ := OrdMap.mem_values_iff.mp hbucket
    exact hsound.nonempty expiresAt bucket hget
  · exact (hagrees.indexed_iff key _).mpr ⟨entry, hentry, rfl⟩
  · refine ⟨m.keepLive now, ?_, ?_⟩
    · rw [hagrees.evictExpired_eq_ok, expired]
      simp [Entry.isLive, isExpired]
    · rw [(hagrees.keepLive now).iterByExpiry_eq_ok, hagrees.listing_keepLive]
      refine congrArg Except.ok (List.filter_congr fun pair _ => ?_)
      exact Bool.eq_iff_iff.mpr (isLive_iff.trans decide_eq_true_iff.symm)
  · obtain ⟨m', happly, -, -, -, hkeeps⟩ := hsound.op op
    exact ⟨m', happly, hkeeps⟩

/-- An expired entry makes room under its own key, and a later call may come with an earlier time. -/
theorem run_sound_nat :
    ∃ m : TimedSizedMap ℕ ℕ,
      (new 10 1).run [.insert 5 1 100, .insert 16 1 101, .getValueMut 3 1 (· + 1)] = .ok m ∧
        m.entries.size ≤ 1 := by
  obtain ⟨m, hrun, -, hsize, -⟩ :=
    run_sound 10 1 [.insert 5 1 100, .insert 16 1 101, .getValueMut 3 1 (· + 1)]
  exact ⟨m, hrun, hsize⟩

/-! ## Snapshots -/

/-- The keys of the entries of one expiry, as a bucket of the index. -/
def bucketOf (entries : List (K × Entry V)) (expiresAt : Timestamp) : Option (List K) :=
  let keys := (entries.filter (·.2.expiresAt = expiresAt)).map Prod.fst
  if keys.isEmpty then none else some keys

/-- The map has the entries of the list, indexed in their order. -/
structure Lists (m : TimedSizedMap K V) (entries : List (K × Entry V)) : Prop where
  nodup : (entries.map Prod.fst).Nodup
  mem_iff : ∀ key entry, (key, entry) ∈ entries ↔ m.entries[key]? = some entry
  index : ∀ expiresAt : Timestamp, m.byExpiry[expiresAt]? = bucketOf entries expiresAt

omit [Ord K] [TransOrd K] [DecidableEq K] [LawfulEqOrd K] in
theorem bucketOf_eq_some {entries : List (K × Entry V)} {t : Timestamp} {bucket : List K} :
    bucketOf entries t = some bucket ↔
      (entries.filter (·.2.expiresAt = t)).map Prod.fst = bucket ∧ bucket ≠ [] := by
  rw [bucketOf]
  split
  case isTrue hempty =>
    rw [List.isEmpty_iff.mp hempty]
    simp [eq_comm]
  case isFalse hnonempty =>
    rw [Option.some.injEq, and_iff_left_of_imp]
    rintro rfl hnil
    exact hnonempty (List.isEmpty_iff.mpr hnil)

omit [Ord K] [TransOrd K] [DecidableEq K] [LawfulEqOrd K] in
theorem getD_bucketOf (entries : List (K × Entry V)) (t : Timestamp) :
    (bucketOf entries t).getD [] = (entries.filter (·.2.expiresAt = t)).map Prod.fst := by
  rw [bucketOf]
  split
  case isTrue hempty => exact (List.isEmpty_iff.mp hempty).symm
  case isFalse => rfl

omit [DecidableEq K] [LawfulEqOrd K] in
theorem Sound.lists (h : m.Sound) : m.Lists m.listing := by
  have hagrees := h.consistent.agrees
  refine ⟨?_, fun key entry => hagrees.mem_listing_iff, fun t => ?_⟩
  · rw [hagrees.keys_listing]
    exact hagrees.nodup_keys
  · rw [bucketOf, hagrees.filter_listing]
    cases hbucket : m.byExpiry[t]? with
    | none => rfl
    | some bucket =>
        rw [Option.getD_some, hagrees.keys_bucketEntries hbucket, if_neg]
        simpa using h.nonempty t bucket hbucket

namespace Lists

variable {entries : List (K × Entry V)}

omit [DecidableEq K] [LawfulEqOrd K] in
theorem agrees (h : m.Lists entries) : m.Agrees := by
  refine ⟨fun key t => ?_, fun t bucket hbucket => ?_⟩
  · simp only [Indexed, h.index, bucketOf_eq_some]
    constructor
    · rintro ⟨_, ⟨rfl, -⟩, hkey⟩
      obtain ⟨⟨key, entry⟩, hpair, rfl⟩ := List.mem_map.mp hkey
      rw [List.mem_filter, decide_eq_true_eq] at hpair
      exact ⟨entry, (h.mem_iff key entry).mp hpair.1, hpair.2⟩
    · rintro ⟨entry, hentry, rfl⟩
      have hkey : key ∈ (entries.filter (·.2.expiresAt = entry.expiresAt)).map Prod.fst := by
        refine List.mem_map.mpr ⟨(key, entry), List.mem_filter.mpr ⟨?_, decide_eq_true rfl⟩, rfl⟩
        exact (h.mem_iff key entry).mpr hentry
      exact ⟨_, ⟨rfl, List.ne_nil_of_mem hkey⟩, hkey⟩
  · rw [h.index, bucketOf_eq_some] at hbucket
    rw [← hbucket.1]
    exact h.nodup.sublist (List.filter_sublist.map _)

omit [DecidableEq K] [LawfulEqOrd K] in
/-- The listing of a map with the entries of a list is the list sorted by expiry, where entries of one
expiry keep their order. -/
theorem listing_eq (h : m.Lists entries) :
    m.listing = entries.mergeSort fun first second => first.2.expiresAt ≤ second.2.expiresAt := by
  refine eq_mergeSort h.agrees.sorted_listing fun t => ?_
  have hsame : ∀ l : List (K × Entry V), (∀ pair ∈ l, pair ∈ entries) →
      m.bucketEntries (l.map Prod.fst) = l := by
    intro l hl
    rw [bucketEntries, List.filterMap_map]
    refine (List.filterMap_congr fun pair hpair => ?_).trans List.filterMap_some
    have hentry := (h.mem_iff pair.1 pair.2).mp (hl pair hpair)
    simp [hentry]
  rw [h.agrees.filter_listing, h.index, getD_bucketOf]
  exact hsame _ fun pair hpair => (List.mem_filter.mp hpair).1

omit [DecidableEq K] in
theorem unique (h : m.Lists entries) (h' : m'.Lists entries) (httl : m.ttl = m'.ttl)
    (hcapacity : m.capacity = m'.capacity) : m = m' := by
  have hentries : m.entries = m'.entries := by
    refine ExtTreeMap.ext_getElem? fun key => Option.ext fun entry => ?_
    rw [← h.mem_iff, ← h'.mem_iff]
  have hindex : m.byExpiry = m'.byExpiry :=
    ExtTreeMap.ext_getElem? fun t => (h.index t).trans (h'.index t).symm
  cases m
  cases m'
  simp only at httl hcapacity hentries hindex
  rw [httl, hcapacity, hentries, hindex]

theorem insertNew (h : m.Lists entries) (hkey : key ∉ entries.map Prod.fst) :
    (m.insertNew key entry).Lists (entries ++ [(key, entry)]) := by
  refine ⟨?_, fun other entry' => ?_, fun t => ?_⟩
  · rw [List.map_append]
    refine List.nodup_append.mpr ⟨h.nodup, List.nodup_singleton _, ?_⟩
    rintro other hother _ hsingle rfl
    have heq : other = key := by simpa using hsingle
    exact hkey (heq ▸ hother)
  · rw [TimedSizedMap.insertNew, OrdMap.getElem?_insert_eq, List.mem_append, h.mem_iff]
    by_cases heq : key = other
    · subst heq
      have hnone : m.entries[key]? ≠ some entry' := fun hget =>
        hkey (List.mem_map.mpr ⟨(key, entry'), (h.mem_iff _ _).mpr hget, rfl⟩)
      simp [hnone, eq_comm]
    · simp [heq, Ne.symm heq]
  · rw [TimedSizedMap.insertNew, enqueueByExpiry, OrdMap.getElem?_insert_eq, h.index, h.index,
      getD_bucketOf, bucketOf, bucketOf, List.filter_append, List.map_append]
    by_cases heq : entry.expiresAt = t
    · simp [heq]
    · have hskip : [(key, entry)].filter (·.2.expiresAt = t) = [] := by simp [heq]
      rw [hskip, List.map_nil, List.append_nil, if_neg heq]

end Lists

omit [DecidableEq K] in
/-- Entries with new keys, each different from the others, join those of the map in their order. -/
theorem exists_takeOver_eq_ok {m : TimedSizedMap K V} {done rest : List (K × Entry V)}
    (h : m.Lists done) (hnodup : ((done ++ rest).map Prod.fst).Nodup) :
    ∃ m', rest.foldlM takeOver m = .ok m' ∧ m'.Lists (done ++ rest) ∧ m'.ttl = m.ttl ∧
      m'.capacity = m.capacity := by
  classical
  induction rest generalizing done m with
  | nil =>
      rw [List.append_nil]
      exact ⟨m, rfl, h, rfl, rfl⟩
  | cons pair rest ih =>
      obtain ⟨key, entry⟩ := pair
      have hkey : key ∉ done.map Prod.fst := by
        rw [List.map_append, List.nodup_append] at hnodup
        exact fun hmem => hnodup.2.2 key hmem key (by simp) rfl
      have hfresh : key ∉ m.entries := by
        intro hmem
        obtain ⟨old, hold⟩ := OrdMap.mem_iff_exists.mp hmem
        exact hkey (List.mem_map.mpr ⟨(key, old), (h.mem_iff key old).mpr hold, rfl⟩)
      rw [List.append_cons] at hnodup ⊢
      obtain ⟨m', hrest, hlists, httl, hcapacity⟩ := ih (h.insertNew hkey) hnodup
      refine ⟨m', ?_, hlists, httl, hcapacity⟩
      exact bind_eq_ok.mpr ⟨_, bind_eq_ok.mpr ⟨⟨⟩, check_eq_ok.mpr hfresh, rfl⟩, hrest⟩

omit [DecidableEq K] in
/-- A list without a key twice is taken over entry by entry. -/
theorem exists_fromOrderedEntries_eq_ok (ttl : Duration) (capacity : ℕ) {entries : List (K × Entry V)}
    (hnodup : (entries.map Prod.fst).Nodup) :
    ∃ m, fromOrderedEntries ttl capacity entries = .ok m ∧ m.Lists entries ∧ m.ttl = ttl ∧
      m.capacity = capacity := by
  have hempty : (new ttl capacity : TimedSizedMap K V).Lists [] := by
    refine ⟨List.nodup_nil, ?_, ?_⟩
    · simp [new]
    · simp [new, bucketOf]
  exact exists_takeOver_eq_ok hempty hnodup

/-- The snapshot of a map that went through any operations rebuilds it in every field, and a list
without a key twice is a snapshot of the map that it builds, up to a stable sort by expiry. -/
theorem fromOrderedEntries_roundTrip (ttl : Duration) (capacity : ℕ) :
    (∀ ops : List (Op K V), ∃ m listed, (new ttl capacity).run ops = .ok m ∧
      m.iterByExpiry = .ok listed ∧ fromOrderedEntries m.ttl m.capacity listed = .ok m) ∧
    ∀ entries : List (K × Entry V), (entries.map Prod.fst).Nodup →
      ∃ m, fromOrderedEntries ttl capacity entries = .ok m ∧
        m.iterByExpiry = .ok (entries.mergeSort fun first second =>
          first.2.expiresAt ≤ second.2.expiresAt) := by
  constructor
  · intro ops
    obtain ⟨m, hrun, hsound, -⟩ := (sound_new ttl capacity).run ops
    have hagrees := hsound.consistent.agrees
    refine ⟨m, m.listing, hrun, hagrees.iterByExpiry_eq_ok, ?_⟩
    obtain ⟨m', hm', hlists, httl, hcapacity⟩ :=
      exists_fromOrderedEntries_eq_ok m.ttl m.capacity hsound.lists.nodup
    rw [hm', hlists.unique hsound.lists httl hcapacity]
  · intro entries hnodup
    obtain ⟨m, hm, hlists, -⟩ := exists_fromOrderedEntries_eq_ok ttl capacity hnodup
    refine ⟨m, hm, ?_⟩
    rw [hlists.agrees.iterByExpiry_eq_ok, hlists.listing_eq]

/-- Two entries of one expiry stay in their order, after an earlier one. -/
theorem fromOrderedEntries_roundTrip_nat :
    ∃ m : TimedSizedMap ℕ ℕ, fromOrderedEntries 10 5 [(2, ⟨20, 9⟩), (1, ⟨10, 9⟩), (3, ⟨30, 4⟩)] = .ok m ∧
      m.iterByExpiry = .ok [(3, ⟨30, 4⟩), (2, ⟨20, 9⟩), (1, ⟨10, 9⟩)] := by
  obtain ⟨m, hm, hlisted⟩ := (fromOrderedEntries_roundTrip (K := ℕ) (V := ℕ) 10 5).2
    [(2, ⟨20, 9⟩), (1, ⟨10, 9⟩), (3, ⟨30, 4⟩)] (by decide)
  refine ⟨m, hm, hlisted.trans ?_⟩
  simp [List.mergeSort, List.MergeSort.Internal.splitInTwo]

end TimedSizedMap

end Cksol
