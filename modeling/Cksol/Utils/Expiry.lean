import Cksol.Utils.TimedSizedMap

/-! # The expiry index of a timed map

The entries of a `TimedSizedMap` are indexed by their expiry, in buckets. While the index agrees with the
entries, no operation runs into the expectations of the source, an eviction removes exactly the expired
entries, and the map never exceeds its capacity.
-/

namespace Cksol

open Std

namespace OrdMap

variable {K V : Type} [Ord K] [TransOrd K]

/-- Of all entries only that of one key counts. -/
theorem flatMap_toList_ite {W : Type} [LawfulEqOrd K] [DecidableEq K] (m : OrdMap K V) (k : K)
    (f : V → List W) :
    (m.toList.flatMap fun entry => if entry.1 = k then f entry.2 else []) =
      ((m[k]?).map f).getD [] := by
  have hfilter : m.toList.filter (·.1 = k) = ((m[k]?).map fun v => (k, v)).toList := by
    have htoList := ExtTreeMap.toList_filter (t := m) (f := fun a _ => decide (a = k))
    rw [← htoList]
    refine toList_eq_of_sorted ?_ fun a v => ?_
    · cases m[k]? <;> simp
    · rw [ExtTreeMap.getElem?_filter', Option.mem_toList, Option.map_eq_some_iff,
        Option.filter_eq_some_iff]
      by_cases heq : a = k
      · subst heq
        simp
      · simp [heq, Ne.symm heq]
  have hflat (l : List (K × V)) : (l.flatMap fun entry => if entry.1 = k then f entry.2 else []) =
      (l.filter (·.1 = k)).flatMap fun entry => f entry.2 := by
    induction l with
    | nil => rfl
    | cons entry l ih => by_cases h : entry.1 = k <;> simp [h, ih]
  rw [hflat, hfilter]
  cases m[k]? <;> simp

end OrdMap

namespace TimedSizedMap

variable {K V : Type} [Ord K] [TransOrd K] {m : TimedSizedMap K V} {now : Timestamp} {key : K}
  {other : K}

/-- The key is in the bucket of the expiry. -/
def Indexed (m : TimedSizedMap K V) (key : K) (expiresAt : Timestamp) : Prop :=
  ∃ bucket, m.byExpiry[expiresAt]? = some bucket ∧ key ∈ bucket

/-- The index agrees with the entries. -/
structure Agrees (m : TimedSizedMap K V) : Prop where
  /-- A key is indexed under the expiry of its entry, and nowhere else. -/
  indexed_iff : ∀ key expiresAt, m.Indexed key expiresAt ↔
    ∃ entry, m.entries[key]? = some entry ∧ entry.expiresAt = expiresAt
  nodup : ∀ (expiresAt : Timestamp) (bucket : List K),
    m.byExpiry[expiresAt]? = some bucket → bucket.Nodup

/-- The index agrees with the entries, which fit the capacity. -/
structure Consistent (m : TimedSizedMap K V) : Prop extends agrees : Agrees m where
  sized : m.entries.size ≤ m.capacity

theorem consistent_new (ttl : Duration) (capacity : ℕ) :
    (TimedSizedMap.new ttl capacity : TimedSizedMap K V).Consistent where
  indexed_iff key expiresAt := by simp [new, Indexed]
  nodup expiresAt bucket h := by simp [new] at h
  sized := by simp [new]

theorem isLive_iff {entry : Entry V} : entry.isLive now ↔ now ≤ entry.expiresAt := by
  simp [Entry.isLive, isExpired]

/-! ## The entries by expiry -/

/-- The entries of the keys of a bucket, in the order of the bucket. -/
def bucketEntries (m : TimedSizedMap K V) (bucket : List K) : List (K × Entry V) :=
  bucket.filterMap fun key => (m.entries[key]?).map fun entry => (key, entry)

/-- The entries in the order of the index. -/
def listing (m : TimedSizedMap K V) : List (K × Entry V) :=
  m.byExpiry.toList.flatMap fun indexed => m.bucketEntries indexed.2

theorem mem_bucketEntries {bucket : List K} {entry : Entry V} :
    (key, entry) ∈ m.bucketEntries bucket ↔ key ∈ bucket ∧ m.entries[key]? = some entry := by
  simp only [bucketEntries, List.mem_filterMap, Option.map_eq_some_iff]
  constructor
  · rintro ⟨key', hkey', entry', hentry', heq⟩
    obtain ⟨rfl, rfl⟩ := Prod.mk.inj heq
    exact ⟨hkey', hentry'⟩
  · rintro ⟨hkey, hentry⟩
    exact ⟨key, hkey, entry, hentry, rfl⟩

namespace Agrees

variable {expiresAt : Timestamp} {bucket : List K} {entry : Entry V}

theorem mem_bucket_iff (h : m.Agrees) (hbucket : m.byExpiry[expiresAt]? = some bucket)
    (key : K) : key ∈ bucket ↔ ∃ entry, m.entries[key]? = some entry ∧ entry.expiresAt = expiresAt := by
  rw [← h.indexed_iff, Indexed, hbucket]
  simp

/-- Every key of a bucket has an entry with the expiry of the bucket. -/
theorem exists_entry (h : m.Agrees) (hbucket : m.byExpiry[expiresAt]? = some bucket)
    (hkey : key ∈ bucket) : ∃ entry, m.entries[key]? = some entry ∧ entry.expiresAt = expiresAt :=
  (h.mem_bucket_iff hbucket key).mp hkey

theorem mem_listing_iff (h : m.Agrees) : (key, entry) ∈ m.listing ↔ m.entries[key]? = some entry := by
  simp only [listing, List.mem_flatMap, mem_bucketEntries]
  constructor
  · rintro ⟨_, -, -, hentry⟩
    exact hentry
  · intro hentry
    obtain ⟨bucket, hbucket, hkey⟩ := (h.indexed_iff key _).mpr ⟨entry, hentry, rfl⟩
    exact ⟨(entry.expiresAt, bucket), OrdMap.mem_toList_iff.mpr hbucket, hkey, hentry⟩

theorem keys_bucketEntries (h : m.Agrees) (hbucket : m.byExpiry[expiresAt]? = some bucket) :
    (m.bucketEntries bucket).map Prod.fst = bucket := by
  rw [bucketEntries, List.map_filterMap]
  refine (List.filterMap_congr fun key hkey => ?_).trans List.filterMap_some
  obtain ⟨entry, hentry, -⟩ := h.exists_entry hbucket hkey
  simp [hentry]

theorem keys_listing (h : m.Agrees) : m.listing.map Prod.fst = m.byExpiry.values.flatten := by
  rw [listing, List.map_flatMap, OrdMap.values, ← List.flatMap_def]
  refine List.flatMap_congr fun indexed hindexed => ?_
  exact h.keys_bucketEntries (OrdMap.mem_toList_iff.mp hindexed)

theorem expiresAt_of_mem (h : m.Agrees) {indexed : Timestamp × List K}
    (hindexed : indexed ∈ m.byExpiry.toList) {pair : K × Entry V}
    (hpair : pair ∈ m.bucketEntries indexed.2) : pair.2.expiresAt = indexed.1 := by
  obtain ⟨hkey, hentry⟩ := mem_bucketEntries.mp hpair
  obtain ⟨entry, hentry', hexpiry⟩ := h.exists_entry (OrdMap.mem_toList_iff.mp hindexed) hkey
  rw [hentry] at hentry'
  rw [Option.some.inj hentry', hexpiry]

/-- The listing is ordered by expiry. -/
theorem sorted_listing (h : m.Agrees) :
    m.listing.Pairwise fun first second => first.2.expiresAt ≤ second.2.expiresAt := by
  rw [listing, List.pairwise_flatMap]
  constructor
  · intro indexed hindexed
    refine List.pairwise_of_forall_mem_list fun a ha b hb => Nat.le_of_eq ?_
    exact (h.expiresAt_of_mem hindexed ha).trans (h.expiresAt_of_mem hindexed hb).symm
  · refine List.Pairwise.imp_of_mem ?_ ExtTreeMap.ordered_keys_toList
    intro first second hfirst hsecond hlt a ha b hb
    rw [h.expiresAt_of_mem hfirst ha, h.expiresAt_of_mem hsecond hb]
    exact Nat.le_of_lt (Nat.compare_eq_lt.mp hlt)

/-- No key is indexed twice. -/
theorem nodup_keys (h : m.Agrees) : m.byExpiry.values.flatten.Nodup := by
  rw [OrdMap.values, List.nodup_flatten]
  constructor
  · intro bucket hbucket
    obtain ⟨⟨t, _⟩, ht, rfl⟩ := List.mem_map.mp hbucket
    exact h.nodup t _ (OrdMap.mem_toList_iff.mp ht)
  · rw [List.pairwise_map]
    refine List.Pairwise.imp_of_mem ?_ ExtTreeMap.ordered_keys_toList
    rintro ⟨t, bucket⟩ ⟨t', bucket'⟩ ht ht' hlt key hkey hkey'
    obtain ⟨entry, hentry, rfl⟩ := h.exists_entry (OrdMap.mem_toList_iff.mp ht) hkey
    obtain ⟨entry', hentry', rfl⟩ := h.exists_entry (OrdMap.mem_toList_iff.mp ht') hkey'
    rw [hentry] at hentry'
    obtain rfl := Option.some.inj hentry'
    exact Nat.lt_irrefl _ (Nat.compare_eq_lt.mp hlt)

/-- The entries of one expiry are those of its bucket. -/
theorem filter_listing (h : m.Agrees) (t : Timestamp) :
    m.listing.filter (·.2.expiresAt = t) = m.bucketEntries ((m.byExpiry[t]?).getD []) := by
  have hbuckets (indexed : Timestamp × List K) (hindexed : indexed ∈ m.byExpiry.toList) :
      (m.bucketEntries indexed.2).filter (·.2.expiresAt = t) =
        if indexed.1 = t then m.bucketEntries indexed.2 else [] := by
    split
    case isTrue heq =>
      refine List.filter_eq_self.mpr fun pair hpair => ?_
      exact decide_eq_true ((h.expiresAt_of_mem hindexed hpair).trans heq)
    case isFalse hne =>
      refine List.filter_eq_nil_iff.mpr fun pair hpair heq => ?_
      exact hne ((h.expiresAt_of_mem hindexed hpair).symm.trans (of_decide_eq_true heq))
  rw [listing, List.filter_flatMap, List.flatMap_congr hbuckets, OrdMap.flatMap_toList_ite]
  cases m.byExpiry[t]? <;> rfl

end Agrees

/-! ## Evictions -/

/-- The map without the entries that have outlived their time. -/
def keepLive (m : TimedSizedMap K V) (now : Timestamp) : TimedSizedMap K V :=
  { m with
    entries := m.entries.filter fun _ entry => entry.isLive now
    byExpiry := m.byExpiry.filter fun expiresAt _ => !isExpired expiresAt now }

/-- The entries that have outlived their time, in the order of the index. -/
def expired (m : TimedSizedMap K V) (now : Timestamp) : List (K × V) :=
  (m.listing.filter fun pair => !pair.2.isLive now).map fun pair => (pair.1, pair.2.value)

/-- The map without the bucket of an expiry and the entries that it indexes. -/
def dropBucket (m : TimedSizedMap K V) (expiresAt : Timestamp) (bucket : List K) :
    TimedSizedMap K V :=
  { m with entries := m.entries.eraseAll bucket, byExpiry := m.byExpiry.erase expiresAt }

theorem bucketEntries_congr {m' : TimedSizedMap K V} {bucket : List K}
    (h : ∀ key ∈ bucket, m.entries[key]? = m'.entries[key]?) :
    m.bucketEntries bucket = m'.bucketEntries bucket :=
  List.filterMap_congr fun key hkey => by rw [h key hkey]

variable [LawfulEqOrd K]

/-- A bucket of distinct keys with entries is removed from the entries. -/
theorem evictBucket_eq_ok {bucket : List K} (evicted : List (K × V)) (hnodup : bucket.Nodup)
    (hpresent : ∀ key ∈ bucket, key ∈ m.entries) :
    m.evictBucket evicted bucket = .ok ({ m with entries := m.entries.eraseAll bucket },
      evicted ++ (m.bucketEntries bucket).map fun pair => (pair.1, pair.2.value)) := by
  classical
  induction bucket generalizing m evicted with
  | nil => simp [evictBucket, bucketEntries, OrdMap.eraseAll, pure, Except.pure]
  | cons key bucket ih =>
      rw [List.nodup_cons] at hnodup
      have hne (other : K) (hother : other ∈ bucket) : key ≠ other := fun heq => hnodup.1 (heq ▸ hother)
      obtain ⟨entry, hentry⟩ := OrdMap.mem_iff_exists.mp (hpresent key List.mem_cons_self)
      have hrest := ih (m := { m with entries := m.entries.erase key })
        (evicted ++ [(key, entry.value)]) hnodup.2 fun other hother =>
          OrdMap.mem_erase_iff.mpr ⟨hne other hother, hpresent other (List.mem_cons_of_mem _ hother)⟩
      have hsame : ({ m with entries := m.entries.erase key } : TimedSizedMap K V).bucketEntries bucket =
          m.bucketEntries bucket :=
        bucketEntries_congr fun other hother => by
          rw [OrdMap.getElem?_erase_eq, if_neg (hne other hother)]
      rw [hsame] at hrest
      rw [evictBucket, List.foldlM_cons]
      show (orPanic m.entries[key]? _ >>= _) >>= _ = _
      rw [hentry]
      refine hrest.trans ?_
      simp [bucketEntries, hentry, OrdMap.eraseAll_cons]

namespace Agrees

variable {expiresAt : Timestamp} {bucket : List K}

theorem dropBucket (h : m.Agrees) (hbucket : m.byExpiry[expiresAt]? = some bucket) :
    (m.dropBucket expiresAt bucket).Agrees where
  indexed_iff key other := by
    classical
    have hmem := h.mem_bucket_iff hbucket key
    have hiff := h.indexed_iff key other
    simp only [Indexed, TimedSizedMap.dropBucket, OrdMap.getElem?_erase_eq,
      OrdMap.getElem?_eraseAll] at hiff ⊢
    by_cases hother : expiresAt = other
    · subst hother
      by_cases hkey : key ∈ bucket
      · simp [hkey]
      · simp only [if_pos, if_neg hkey, reduceCtorEq, false_and, exists_false, false_iff]
        exact fun hentry => hkey (hmem.mpr hentry)
    · rw [if_neg hother, hiff]
      by_cases hkey : key ∈ bucket
      · -- the entry of a key of the bucket has the expiry of the bucket
        obtain ⟨entry, hentry, hexpiry⟩ := hmem.mp hkey
        simp [hkey, hentry, hexpiry, hother]
      · rw [if_neg hkey]
  nodup other bucket' hget := by
    rw [TimedSizedMap.dropBucket, OrdMap.getElem?_erase_eq] at hget
    split at hget
    · cases hget
    · exact h.nodup other bucket' hget

/-- Without its first bucket the index lists the rest. -/
theorem listing_cons (h : m.Agrees) {buckets : List (Timestamp × List K)}
    (hindex : m.byExpiry.toList = (expiresAt, bucket) :: buckets) :
    (m.dropBucket expiresAt bucket).byExpiry.toList = buckets ∧
      m.listing = m.bucketEntries bucket ++ (m.dropBucket expiresAt bucket).listing := by
  classical
  have hsorted : ((expiresAt, bucket) :: buckets).Pairwise fun a b => a.1 < b.1 := by
    rw [← hindex]
    exact ExtTreeMap.ordered_keys_toList.imp fun hlt => Nat.compare_eq_lt.mp hlt
  rw [List.pairwise_cons] at hsorted
  have hbucket : m.byExpiry[expiresAt]? = some bucket :=
    OrdMap.mem_toList_iff.mp (hindex ▸ List.mem_cons_self)
  have hrest : (m.dropBucket expiresAt bucket).byExpiry.toList = buckets := by
    rw [TimedSizedMap.dropBucket, OrdMap.toList_erase, hindex, List.filter_cons_of_neg (by simp)]
    refine List.filter_eq_self.mpr fun indexed hlater => ?_
    exact decide_eq_true (Nat.ne_of_gt (hsorted.1 indexed hlater))
  refine ⟨hrest, ?_⟩
  rw [listing, listing, hrest, hindex, List.flatMap_cons]
  congr 1
  refine List.flatMap_congr fun indexed hlater => bucketEntries_congr fun key hkey => ?_
  -- a key of a later bucket has a later expiry
  have hnot : key ∉ bucket := by
    intro hmem
    obtain ⟨entry, hentry, rfl⟩ := h.exists_entry hbucket hmem
    obtain ⟨entry', hentry', hexpiry⟩ := h.exists_entry
      (OrdMap.mem_toList_iff.mp (hindex ▸ List.mem_cons_of_mem _ hlater)) hkey
    rw [hentry] at hentry'
    obtain rfl := Option.some.inj hentry'
    exact Nat.ne_of_gt (hsorted.1 indexed hlater) hexpiry.symm
  rw [TimedSizedMap.dropBucket, OrdMap.getElem?_eraseAll, if_neg hnot]

theorem keepLive_dropBucket (h : m.Agrees) (hbucket : m.byExpiry[expiresAt]? = some bucket)
    (hexpired : isExpired expiresAt now) :
    (m.dropBucket expiresAt bucket).keepLive now = m.keepLive now := by
  classical
  have hentries : (m.entries.eraseAll bucket).filter (fun _ entry => entry.isLive now) =
      m.entries.filter fun _ entry => entry.isLive now := by
    refine ExtTreeMap.ext_getElem? fun key => ?_
    rw [ExtTreeMap.getElem?_filter', ExtTreeMap.getElem?_filter', OrdMap.getElem?_eraseAll]
    split
    case isTrue hkey =>
      obtain ⟨entry, hentry, rfl⟩ := h.exists_entry hbucket hkey
      simp [hentry, Option.filter_some, Entry.isLive, hexpired]
    case isFalse => rfl
  have hindex : (m.byExpiry.erase expiresAt).filter (fun t _ => !isExpired t now) =
      m.byExpiry.filter fun t _ => !isExpired t now := by
    refine ExtTreeMap.ext_getElem? fun t => ?_
    rw [ExtTreeMap.getElem?_filter', ExtTreeMap.getElem?_filter', OrdMap.getElem?_erase_eq]
    split
    case isTrue heq =>
      subst heq
      cases m.byExpiry[expiresAt]? <;> simp [Option.filter_some, hexpired]
    case isFalse => rfl
  rw [TimedSizedMap.dropBucket, keepLive, keepLive, hentries, hindex]

/-- Before the first expiry there is nothing to evict. -/
theorem keepLive_eq_self (h : m.Agrees) (hlive : ∀ t ∈ m.byExpiry, ¬ isExpired t now) :
    m.keepLive now = m ∧ m.expired now = [] := by
  have hentry {key : K} {entry : Entry V} (hget : m.entries[key]? = some entry) :
      entry.isLive now = true := by
    obtain ⟨bucket, hbucket, -⟩ := (h.indexed_iff key _).mpr ⟨entry, hget, rfl⟩
    simpa [Entry.isLive] using hlive _ (OrdMap.mem_iff_exists.mpr ⟨bucket, hbucket⟩)
  have hentries : m.entries.filter (fun _ entry => entry.isLive now) = m.entries := by
    refine ExtTreeMap.ext_getElem? fun key => ?_
    rw [ExtTreeMap.getElem?_filter']
    cases hget : m.entries[key]? with
    | none => rfl
    | some entry => rw [Option.filter_some, if_pos (hentry hget)]
  have hindex : m.byExpiry.filter (fun t _ => !isExpired t now) = m.byExpiry := by
    refine ExtTreeMap.ext_getElem? fun t => ?_
    rw [ExtTreeMap.getElem?_filter']
    cases hget : m.byExpiry[t]? with
    | none => rfl
    | some bucket =>
        have ht := hlive t (OrdMap.mem_iff_exists.mpr ⟨bucket, hget⟩)
        simp [Option.filter_some, ht]
  refine ⟨by rw [keepLive, hentries, hindex], ?_⟩
  rw [expired, List.map_eq_nil_iff, List.filter_eq_nil_iff]
  rintro ⟨key, entry⟩ hpair
  simp [hentry (h.mem_listing_iff.mp hpair)]

/-- The loop over the index takes the expired entries, bucket by bucket, and stops at the first bucket
that is not expired. -/
theorem evictLoop_eq_ok (h : m.Agrees) {buckets : List (Timestamp × List K)}
    (hindex : m.byExpiry.toList = buckets) (evicted : List (K × V)) :
    evictLoop now buckets m evicted = .ok (m.keepLive now, evicted ++ m.expired now) := by
  induction buckets generalizing m evicted with
  | nil =>
      have hempty : m.byExpiry = ∅ := ExtTreeMap.toList_eq_nil_iff.mp hindex
      obtain ⟨hsame, hnone⟩ : m.keepLive now = m ∧ m.expired now = [] :=
        h.keepLive_eq_self (by simp [hempty])
      rw [evictLoop, hsame, hnone, List.append_nil]
  | cons first buckets ih =>
      obtain ⟨expiresAt, bucket⟩ := first
      have hbucket : m.byExpiry[expiresAt]? = some bucket :=
        OrdMap.mem_toList_iff.mp (hindex ▸ List.mem_cons_self)
      rw [evictLoop]
      split
      case isTrue hexpired =>
        have hpresent (key : K) (hkey : key ∈ bucket) : key ∈ m.entries := by
          obtain ⟨entry, hentry, -⟩ := h.exists_entry hbucket hkey
          exact OrdMap.mem_iff_exists.mpr ⟨entry, hentry⟩
        obtain ⟨hrest, hlisting⟩ := h.listing_cons hindex
        have hall : (m.bucketEntries bucket).filter (fun pair => !pair.2.isLive now) =
            m.bucketEntries bucket := by
          refine List.filter_eq_self.mpr fun pair hpair => ?_
          have hexpiry := h.expiresAt_of_mem (hindex ▸ List.mem_cons_self) hpair
          simp [Entry.isLive, hexpiry, hexpired]
        have htaken : m.expired now =
            ((m.bucketEntries bucket).map fun pair => (pair.1, pair.2.value)) ++
              (m.dropBucket expiresAt bucket).expired now := by
          rw [expired, hlisting, List.filter_append, List.map_append, hall, expired]
        rw [evictBucket_eq_ok (m := { m with byExpiry := m.byExpiry.erase expiresAt }) evicted
            (h.nodup _ _ hbucket) hpresent,
          htaken, ← h.keepLive_dropBucket hbucket hexpired, ← List.append_assoc]
        exact ih (h.dropBucket hbucket) hrest _
      case isFalse hfirst =>
        obtain ⟨hsame, hnone⟩ : m.keepLive now = m ∧ m.expired now = [] := by
          refine h.keepLive_eq_self fun t ht hexpired => hfirst ?_
          -- the first bucket has the earliest expiry
          obtain ⟨bucket', hbucket'⟩ := OrdMap.mem_iff_exists.mp ht
          have hmem := OrdMap.mem_toList_iff.mpr hbucket'
          have hsorted := ExtTreeMap.ordered_keys_toList (t := m.byExpiry)
          rw [hindex] at hmem hsorted
          simp only [isExpired, decide_eq_true_eq] at hexpired ⊢
          rcases List.mem_cons.mp hmem with heq | hlater
          · exact (Prod.mk.inj heq).1 ▸ hexpired
          · have hlt := Nat.compare_eq_lt.mp ((List.pairwise_cons.mp hsorted).1 _ hlater)
            exact Nat.lt_trans hlt hexpired
        rw [hsame, hnone, List.append_nil]

/-- An eviction returns the expired entries in the order of their expiry, and keeps the others. -/
theorem evictExpired_eq_ok (h : m.Agrees) (now : Timestamp) :
    m.evictExpired now = .ok (m.keepLive now, m.expired now) := by
  rw [TimedSizedMap.evictExpired, h.evictLoop_eq_ok rfl, List.nil_append]

theorem keepLive (h : m.Agrees) (now : Timestamp) : (m.keepLive now).Agrees where
  indexed_iff key expiresAt := by
    have hiff := h.indexed_iff key expiresAt
    simp only [Indexed, TimedSizedMap.keepLive, ExtTreeMap.getElem?_filter',
      Option.filter_eq_some_iff] at hiff ⊢
    constructor
    · rintro ⟨bucket, ⟨hbucket, hlive⟩, hkey⟩
      obtain ⟨entry, hentry, rfl⟩ := hiff.mp ⟨bucket, hbucket, hkey⟩
      exact ⟨entry, ⟨hentry, hlive⟩, rfl⟩
    · rintro ⟨entry, ⟨hentry, hlive⟩, rfl⟩
      obtain ⟨bucket, hbucket, hkey⟩ := hiff.mpr ⟨entry, hentry, rfl⟩
      exact ⟨bucket, ⟨hbucket, hlive⟩, hkey⟩
  nodup expiresAt bucket hget := by
    rw [TimedSizedMap.keepLive, ExtTreeMap.getElem?_filter', Option.filter_eq_some_iff] at hget
    exact h.nodup expiresAt bucket hget.1

end Agrees

theorem Consistent.keepLive (h : m.Consistent) (now : Timestamp) : (m.keepLive now).Consistent :=
  ⟨h.agrees.keepLive now, Nat.le_trans ExtTreeMap.size_filter_le_size h.sized⟩

/-- An eviction leaves exactly the live entries. -/
theorem Consistent.evictExpired (h : m.Consistent) (now : Timestamp) :
    ∃ m' evicted, m.evictExpired now = .ok (m', evicted) ∧ m'.Consistent ∧ m'.ttl = m.ttl ∧
      m'.capacity = m.capacity ∧
      ∀ key : K, m'.entries[key]? = m.entries[key]?.filter fun entry => entry.isLive now := by
  exact ⟨m.keepLive now, m.expired now, h.agrees.evictExpired_eq_ok now, h.keepLive now, rfl, rfl,
    fun key => ExtTreeMap.getElem?_filter'⟩

/-! ## Insertions -/

/-- The map with the entry under a new key. -/
def insertNew (m : TimedSizedMap K V) (key : K) (entry : Entry V) : TimedSizedMap K V :=
  { m.enqueueByExpiry key entry.expiresAt with entries := m.entries.insert key entry }

omit [TransOrd K] [LawfulEqOrd K] in
theorem indexed_enqueueByExpiry {expiresAt expiresAt' : Timestamp} :
    (m.enqueueByExpiry key expiresAt).Indexed other expiresAt' ↔
      m.Indexed other expiresAt' ∨ other = key ∧ expiresAt = expiresAt' := by
  simp only [Indexed, enqueueByExpiry, OrdMap.getElem?_insert_eq]
  by_cases heq : expiresAt = expiresAt'
  · subst heq
    cases hbucket : m.byExpiry[expiresAt]? <;> simp
  · simp [heq]

/-- A new key is indexed under its expiry and added to the entries. -/
theorem Agrees.insertNew (h : m.Agrees) {entry : Entry V} (hnew : m.entries[key]? = none) :
    (m.insertNew key entry).Agrees := by
  classical
  have hself (expiresAt : Timestamp) : ¬ m.Indexed key expiresAt := by
    intro hindexed
    obtain ⟨old, hold, -⟩ := (h.indexed_iff key expiresAt).mp hindexed
    rw [hnew] at hold
    cases hold
  refine ⟨fun other expiresAt => ?_, fun expiresAt bucket hget => ?_⟩
  · refine indexed_enqueueByExpiry.trans ?_
    rw [h.indexed_iff, TimedSizedMap.insertNew, OrdMap.getElem?_insert_eq]
    by_cases hkey : key = other
    · subst hkey
      simp [hnew]
    · simp [hkey, Ne.symm hkey]
  · rw [TimedSizedMap.insertNew, enqueueByExpiry, OrdMap.getElem?_insert_eq] at hget
    split at hget
    case isTrue heq =>
      obtain rfl := Option.some.inj hget
      cases hbucket : m.byExpiry[entry.expiresAt]? with
      | none => exact List.nodup_singleton key
      | some bucket =>
          refine List.nodup_append.mpr ⟨h.nodup _ _ hbucket, List.nodup_singleton key, ?_⟩
          rintro other hother _ hmem rfl
          exact hself _ ⟨bucket, hbucket, List.mem_singleton.mp hmem ▸ hother⟩
    case isFalse => exact h.nodup _ _ hget

/-- A key without a live entry is gone after the eviction. -/
theorem getElem?_keepLive_of_get (h : ¬ (m.get now key).isSome) :
    (m.keepLive now).entries[key]? = none := by
  rw [keepLive, ExtTreeMap.getElem?_filter']
  exact Option.map_eq_none_iff.mp (Option.not_isSome_iff_eq_none.mp h)

theorem mem_of_mem_keepLive (h : other ∈ (m.keepLive now).entries) : other ∈ m.entries := by
  obtain ⟨entry, hentry⟩ := OrdMap.mem_iff_exists.mp h
  rw [keepLive, ExtTreeMap.getElem?_filter', Option.filter_eq_some_iff] at hentry
  exact OrdMap.mem_iff_exists.mpr ⟨entry, hentry.1⟩

/-- The ways an insertion ends: nothing happens with an expired entry, a live key and a map full of live
entries are errors, and otherwise the expired entries make room for the new one. -/
inductive Insertion (m : TimedSizedMap K V) (now : Timestamp) (key : K) (entry : Entry V) :
    TimedSizedMap K V → Except (InsertError K V) (List (K × V)) → Prop
  | expired (hexpired : ¬ entry.isLive now) : m.Insertion now key entry m (.ok [])
  | present (hlive : entry.isLive now) (hpresent : (m.get now key).isSome) :
      m.Insertion now key entry m (.error (.alreadyPresent key entry.value))
  | full (hlive : entry.isLive now) (hnew : (m.keepLive now).entries[key]? = none)
      (hfull : m.capacity ≤ (m.keepLive now).entries.size) :
      m.Insertion now key entry (m.keepLive now) (.error (.atCapacity key entry.value))
  | admitted (hlive : entry.isLive now) (hnew : (m.keepLive now).entries[key]? = none)
      (hroom : (m.keepLive now).entries.size < m.capacity) :
      m.Insertion now key entry
        ((m.keepLive now).insertNew key { entry with expiresAt := min entry.expiresAt (m.expiry now) })
        (.ok (m.expired now))

/-- An insertion does not run into an expectation. -/
theorem Agrees.insertEntry (h : m.Agrees) (now : Timestamp) (key : K) (entry : Entry V) :
    ∃ m' result, m.insertEntry now key entry = .ok (m', result) ∧
      m.Insertion now key entry m' result := by
  rw [TimedSizedMap.insertEntry, h.evictExpired_eq_ok]
  by_cases hlive : entry.isLive now
  · rw [if_neg (by simp [hlive])]
    by_cases hpresent : (m.get now key).isSome
    · rw [if_pos hpresent]
      exact ⟨m, _, rfl, .present hlive hpresent⟩
    · have hnew := getElem?_keepLive_of_get hpresent
      rw [if_neg hpresent]
      by_cases hfull : (m.keepLive now).entries.size ≥ m.capacity
      · refine ⟨m.keepLive now, .error (.atCapacity key entry.value), ?_, .full hlive hnew hfull⟩
        show (if (m.keepLive now).entries.size ≥ m.capacity then _ else _ : Except _ _) = _
        rw [if_pos hfull]
        rfl
      · refine ⟨_, .ok (m.expired now), ?_, .admitted hlive hnew (Nat.lt_of_not_ge hfull)⟩
        show (if (m.keepLive now).entries.size ≥ m.capacity then _ else _ : Except _ _) = _
        rw [if_neg hfull]
        rfl
  · rw [if_pos (by simp [hlive])]
    exact ⟨m, _, rfl, .expired hlive⟩

/-- What an insertion leaves: it adds no other key, and an entry that was not rejected for want of
space is live. -/
structure Inserted (m : TimedSizedMap K V) (now : Timestamp) (key : K) (m' : TimedSizedMap K V)
    (result : Except (InsertError K V) (List (K × V))) : Prop where
  consistent : m'.Consistent
  capacity : m'.capacity = m.capacity
  keys : ∀ other ∈ m'.entries, other = key ∨ other ∈ m.entries
  live : (∀ rejected value, result ≠ .error (.atCapacity rejected value)) →
    (m'.getEntry now key).isSome

theorem Consistent.insertNew (h : m.Consistent) {entry : Entry V} (hnew : m.entries[key]? = none)
    (hsize : m.entries.size < m.capacity) : (m.insertNew key entry).Consistent :=
  ⟨h.agrees.insertNew hnew, Nat.le_trans ExtTreeMap.size_insert_le hsize⟩

/-- An insertion within the range of times does not run into an expectation. -/
theorem Consistent.insert (h : m.Consistent) (hnow : now ≤ u64Max) (key : K) (value : V) :
    ∃ m' result, m.insert now key value = .ok (m', result) ∧ m.Inserted now key m' result := by
  classical
  have hexpiry : now ≤ m.expiry now := by
    unfold expiry Timestamp.saturatingAdd
    exact Nat.le_min.mpr ⟨Nat.le_add_right _ _, hnow⟩
  have hlive : Entry.isLive (⟨value, m.expiry now⟩ : Entry V) now := isLive_iff.mpr hexpiry
  obtain ⟨m', result, hinsert, hcase⟩ := h.agrees.insertEntry now key ⟨value, m.expiry now⟩
  refine ⟨m', result, hinsert, ?_⟩
  cases hcase with
  | expired hexpired => exact absurd hlive hexpired
  | present _ hpresent =>
      refine ⟨h, rfl, fun other hother => .inr hother, fun _ => ?_⟩
      simpa [get] using hpresent
  | full =>
      refine ⟨h.keepLive now, rfl, fun other hother => .inr (mem_of_mem_keepLive hother), ?_⟩
      exact fun hrejected => absurd rfl (hrejected key value)
  | admitted _ hnew hroom =>
      refine ⟨(h.keepLive now).insertNew hnew hroom, rfl, fun other hother => ?_, fun _ => ?_⟩
      · exact (OrdMap.mem_insert_iff.mp hother).imp Eq.symm mem_of_mem_keepLive
      · rw [getEntry, TimedSizedMap.insertNew, OrdMap.getElem?_insert_eq, if_pos rfl, Nat.min_self,
          Option.filter_some, if_pos hlive]
        rfl

/-! ## Removals and changes of values -/

omit [TransOrd K] [LawfulEqOrd K] in
/-- A key is taken out of its bucket, and an empty bucket is dropped. -/
theorem indexed_filter [DecidableEq K] {expiresAt expiresAt' : Timestamp} {bucket : List K}
    (hbucket : m.byExpiry[expiresAt]? = some bucket)
    (hunique : ∀ t, m.Indexed key t → t = expiresAt) :
    (∃ bucket', (if (bucket.filter (· ≠ key)).isEmpty then m.byExpiry.erase expiresAt
        else m.byExpiry.insert expiresAt (bucket.filter (· ≠ key)))[expiresAt']? = some bucket' ∧
      other ∈ bucket') ↔ other ≠ key ∧ m.Indexed other expiresAt' := by
  by_cases heq : expiresAt = expiresAt'
  · subst heq
    have hiff : other ≠ key ∧ m.Indexed other expiresAt ↔ other ∈ bucket.filter (· ≠ key) := by
      simp [Indexed, hbucket, and_comm]
    rw [hiff]
    split
    case isTrue hempty =>
      rw [List.isEmpty_iff.mp hempty, OrdMap.getElem?_erase_eq]
      simp
    case isFalse =>
      rw [OrdMap.getElem?_insert_eq]
      simp
  · have hsame : (if (bucket.filter (· ≠ key)).isEmpty then m.byExpiry.erase expiresAt
        else m.byExpiry.insert expiresAt (bucket.filter (· ≠ key)))[expiresAt']? =
          m.byExpiry[expiresAt']? := by
      split
      · rw [OrdMap.getElem?_erase_eq, if_neg heq]
      · rw [OrdMap.getElem?_insert_eq, if_neg heq]
    rw [hsame]
    refine (and_iff_right_of_imp ?_).symm
    rintro hindexed rfl
    exact heq (hunique _ hindexed).symm

/-- A removal takes out the entry of the key and leaves no empty bucket behind. -/
theorem Agrees.remove [DecidableEq K] (h : m.Agrees) (key : K) :
    ∃ m', m.remove key = .ok m' ∧ m'.Agrees ∧ m'.ttl = m.ttl ∧ m'.capacity = m.capacity ∧
      m'.entries = m.entries.erase key ∧
      ∀ (expiresAt : Timestamp) (bucket : List K), m'.byExpiry[expiresAt]? = some bucket →
        bucket ≠ [] ∨ m.byExpiry[expiresAt]? = some bucket := by
  unfold TimedSizedMap.remove
  split
  case h_1 hnone =>
    refine ⟨m, rfl, h, rfl, rfl, ?_, fun _ _ hget => .inr hget⟩
    refine ExtTreeMap.ext_getElem? fun other => ?_
    rw [OrdMap.getElem?_erase_eq]
    split
    case isTrue heq => rw [← heq, hnone]
    case isFalse => rfl
  case h_2 entry hentry =>
    obtain ⟨bucket, hbucket, hmem⟩ := (h.indexed_iff key _).mpr ⟨entry, hentry, rfl⟩
    have hunique (t : Timestamp) (hindexed : m.Indexed key t) : t = entry.expiresAt := by
      obtain ⟨entry', hentry', rfl⟩ := (h.indexed_iff key t).mp hindexed
      rw [hentry] at hentry'
      rw [Option.some.inj hentry']
    -- what a bucket of the new index is
    have hget (t : Timestamp) (bucket' : List K)
        (hget : (if (bucket.filter (· ≠ key)).isEmpty then m.byExpiry.erase entry.expiresAt
          else m.byExpiry.insert entry.expiresAt (bucket.filter (· ≠ key)))[t]? = some bucket') :
        bucket' = bucket.filter (· ≠ key) ∧ bucket' ≠ [] ∨ m.byExpiry[t]? = some bucket' := by
      split at hget
      · exact .inr (OrdMap.getElem?_of_erase hget)
      case isFalse hnonempty =>
        rw [OrdMap.getElem?_insert_eq] at hget
        split at hget
        · obtain rfl := Option.some.inj hget
          exact .inl ⟨rfl, fun hnil => hnonempty (List.isEmpty_iff.mpr hnil)⟩
        · exact .inr hget
    rw [hbucket]
    refine ⟨_, rfl, ⟨fun other expiresAt => ?_, fun t bucket' ht => ?_⟩, rfl, rfl, rfl,
      fun t bucket' ht => (hget t bucket' ht).imp_left And.right⟩
    · refine (indexed_filter hbucket hunique).trans ?_
      rw [h.indexed_iff, OrdMap.getElem?_erase_eq]
      by_cases hkey : key = other
      · simp [hkey]
      · simp [hkey, Ne.symm hkey]
    · rcases hget t bucket' ht with ⟨rfl, -⟩ | hold
      · exact (h.nodup _ _ hbucket).filter _
      · exact h.nodup _ _ hold

/-- A removal leaves everything but the entry of the key. -/
theorem Consistent.remove [DecidableEq K] (h : m.Consistent) (key : K) :
    ∃ m', m.remove key = .ok m' ∧ m'.Consistent ∧ m'.capacity = m.capacity ∧
      ∀ other : K, m'.entries[other]? = if key = other then none else m.entries[other]? := by
  obtain ⟨m', hremove, hagrees, -, hcapacity, hentries, -⟩ := h.agrees.remove key
  refine ⟨m', hremove, ⟨hagrees, ?_⟩, hcapacity, fun other => ?_⟩
  · rw [hentries, hcapacity]
    exact Nat.le_trans ExtTreeMap.size_erase_le h.sized
  · rw [hentries, OrdMap.getElem?_erase_eq]

theorem getElem?_modifyValue [DecidableEq K] (m : TimedSizedMap K V) (now : Timestamp) (key : K)
    (f : V → V) (other : K) :
    (m.modifyValue now key f).entries[other]? =
      (m.entries[other]?).map fun entry =>
        if key = other ∧ entry.isLive now then { entry with value := f entry.value } else entry := by
  rw [modifyValue, getEntry]
  cases hold : m.entries[key]? with
  | none =>
      rw [Option.filter_none]
      by_cases hkey : key = other
      · simp [← hkey, hold]
      · simp [hkey]
  | some old =>
      rw [Option.filter_some]
      by_cases hkey : key = other
      · subst hkey
        by_cases hlive : old.isLive now <;> simp [hlive, hold]
      · by_cases hlive : old.isLive now <;> simp [hlive, hkey, OrdMap.getElem?_insert_eq]

omit [LawfulEqOrd K] in
theorem byExpiry_modifyValue (m : TimedSizedMap K V) (now : Timestamp) (key : K) (f : V → V) :
    (m.modifyValue now key f).byExpiry = m.byExpiry ∧ (m.modifyValue now key f).ttl = m.ttl ∧
      (m.modifyValue now key f).capacity = m.capacity := by
  unfold modifyValue
  split <;> exact ⟨rfl, rfl, rfl⟩

theorem Agrees.modifyValue (h : m.Agrees) (now : Timestamp) (key : K) (f : V → V) :
    (m.modifyValue now key f).Agrees := by
  classical
  have hindex := (byExpiry_modifyValue m now key f).1
  refine ⟨fun other expiresAt => ?_, fun expiresAt bucket hget => ?_⟩
  · rw [Indexed, hindex]
    refine (h.indexed_iff other expiresAt).trans ?_
    rw [getElem?_modifyValue]
    cases m.entries[other]? with
    | none => simp
    | some entry => by_cases hlive : key = other ∧ entry.isLive now <;> simp [hlive]
  · rw [hindex] at hget
    exact h.nodup expiresAt bucket hget

theorem mem_modifyValue_iff {f : V → V} :
    other ∈ (m.modifyValue now key f).entries ↔ other ∈ m.entries := by
  classical
  rw [OrdMap.mem_iff_exists, OrdMap.mem_iff_exists, getElem?_modifyValue]
  cases m.entries[other]? <;> simp

/-- A change of a live value leaves the keys and the expiries. -/
theorem Consistent.modifyValue (h : m.Consistent) (now : Timestamp) (key : K) (f : V → V) :
    (m.modifyValue now key f).Consistent ∧ (m.modifyValue now key f).capacity = m.capacity ∧
      ∀ other : K, other ∈ (m.modifyValue now key f).entries ↔ other ∈ m.entries := by
  have hcapacity := (byExpiry_modifyValue m now key f).2.2
  refine ⟨⟨h.agrees.modifyValue now key f, ?_⟩, hcapacity, fun other => mem_modifyValue_iff⟩
  have hkeys : (m.modifyValue now key f).entries.keys.Perm m.entries.keys := by
    refine (List.perm_ext_iff_of_nodup (OrdMap.nodup_keys _) (OrdMap.nodup_keys _)).mpr fun other => ?_
    rw [ExtTreeMap.mem_keys, ExtTreeMap.mem_keys, mem_modifyValue_iff]
  rw [hcapacity, ← ExtTreeMap.length_keys, hkeys.length_eq, ExtTreeMap.length_keys]
  exact h.sized

end TimedSizedMap

end Cksol
