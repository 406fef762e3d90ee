import Mathlib.Data.List.Induction
import Mathlib.Data.List.TakeWhile
import Mathlib.Order.Bounds.Basic
import Cksol.State.Watchlist
import Cksol.Utils.TimedRuns

/-! # The scan schedule of a registration

What the watchlist is for: a table of registrations, each with the time it was made at and the scans
recorded for it. The slots of a registration are fixed by its time; the next scan is the first slot
after the last one, so that scans made only when they are due never outnumber the slots.
-/

namespace Cksol

open Std

/-! ## The slots -/

/-- A slot of the schedule, as an offset from its start: one of the burst, or a multiple of the gap
after it, within a window. -/
def IsScanSlot (slot : Duration) : Prop :=
  (slot ∈ burstScanSlots ∨
    ∃ gaps : ℕ, 1 ≤ gaps ∧ slot = Duration.fromSecs 1_800 + steadyScanGap * gaps) ∧
      slot ≤ watchWindow

theorem length_scanSlots : scanSlots.length = 33 := by
  decide

theorem scanSlots_eq : scanSlots = burstScanSlots ++ (List.range 23).map fun gaps =>
    Duration.fromSecs 1_800 + steadyScanGap * (gaps + 1) := by
  decide

theorem mem_scanSlots_iff {slot : Duration} : slot ∈ scanSlots ↔ IsScanSlot slot := by
  have hburst : ∀ slot ∈ burstScanSlots, slot ≤ watchWindow := by decide
  rw [scanSlots_eq, List.mem_append, List.mem_map, IsScanSlot, or_and_right]
  refine or_congr ⟨fun h => ⟨h, hburst slot h⟩, And.left⟩ ?_
  have hsteady (gaps : ℕ) : Duration.fromSecs 1_800 + steadyScanGap * (gaps + 1) ≤ watchWindow ↔
      gaps < 23 := by
    show 1_800 * 1_000_000_000 + 3_600 * 1 * 1_000_000_000 * (gaps + 1) ≤
      3_600 * 24 * 1_000_000_000 ↔ _
    omega
  constructor
  · rintro ⟨gaps, hgaps, rfl⟩
    exact ⟨⟨gaps + 1, Nat.le_add_left 1 gaps, rfl⟩, (hsteady gaps).mpr (List.mem_range.mp hgaps)⟩
  · rintro ⟨⟨gaps, hgaps, rfl⟩, hle⟩
    obtain ⟨gaps, rfl⟩ := Nat.exists_eq_add_of_le' hgaps
    exact ⟨gaps, List.mem_range.mpr ((hsteady gaps).mp hle), rfl⟩

theorem sorted_scanSlots : scanSlots.Pairwise (· ≤ ·) := by
  decide

/-- The times of the slots of a schedule that starts at the given time. -/
def slotTimes (scheduledFrom : Timestamp) : List Timestamp :=
  scanSlots.map scheduledFrom.saturatingAdd

theorem saturatingAdd_mono (t : Timestamp) {d d' : Duration} (h : d ≤ d') :
    t.saturatingAdd d ≤ t.saturatingAdd d' :=
  Nat.le_min.mpr ⟨Nat.le_trans (Nat.min_le_left _ _) (Nat.add_le_add_left h t), Nat.min_le_right _ _⟩

theorem sorted_slotTimes (scheduledFrom : Timestamp) : (slotTimes scheduledFrom).Pairwise (· ≤ ·) := by
  rw [slotTimes, List.pairwise_map]
  exact sorted_scanSlots.imp fun h => saturatingAdd_mono scheduledFrom h

/-- The window does not end before the last slot. -/
theorem le_validUntil {scheduledFrom slotAt : Timestamp} (h : slotAt ∈ slotTimes scheduledFrom) :
    slotAt ≤ scheduledFrom.saturatingAdd watchWindow := by
  obtain ⟨slot, hslot, rfl⟩ := List.mem_map.mp h
  exact saturatingAdd_mono scheduledFrom (mem_scanSlots_iff.mp hslot).2

theorem saturatingAdd_zero {t : Timestamp} (h : t ≤ u64Max) : t.saturatingAdd 0 = t :=
  Nat.min_eq_left h

/-! ## Registrations -/

/-- A registration of an account and the times of its scans. -/
structure Registration where
  account : Account
  address : Address
  registeredAt : Timestamp
  scans : List Timestamp

namespace Registration

variable {r : Registration}

def validUntil (r : Registration) : Timestamp :=
  r.registeredAt.saturatingAdd watchWindow

/-- Whether the window of the registration is open. -/
def isOpen (r : Registration) (now : Timestamp) : Bool :=
  now ≤ r.validUntil

/-- The entry of the watchlist. -/
def entry (r : Registration) : TimedSizedMap.Entry ScanProgress where
  value :=
    { account := r.account
      address := r.address
      scheduledFrom := r.registeredAt
      scanCount := min r.scans.length (2 ^ 32 - 1)
      lastScannedAt := r.scans.getLast? }
  expiresAt := r.validUntil

/-- When the next scan is due. -/
def nextScanAt (r : Registration) : Option Timestamp :=
  r.entry.value.nextScanAt r.validUntil

/-- The slots of the schedule that are left after a scan. -/
def slotsAfter (r : Registration) (last : Timestamp) : Set Timestamp :=
  {slotAt | last < slotAt ∧ slotAt ≤ r.validUntil ∧
    ∃ slot, IsScanSlot slot ∧ slotAt = r.registeredAt.saturatingAdd slot}

theorem isLive_entry (r : Registration) (now : Timestamp) : r.entry.isLive now = r.isOpen now := by
  rw [Bool.eq_iff_iff, TimedSizedMap.isLive_iff, isOpen, decide_eq_true_iff]
  rfl

/-- A recorded scan is one more, and the last. -/
theorem entry_scan (r : Registration) (now : Timestamp) :
    entry { r with scans := r.scans ++ [now] } =
      { r.entry with
        value := { r.entry.value with
          scanCount := min (r.entry.value.scanCount + 1) (2 ^ 32 - 1)
          lastScannedAt := some now } } := by
  have hcount : min (r.scans ++ [now]).length (2 ^ 32 - 1) =
      min (min r.scans.length (2 ^ 32 - 1) + 1) (2 ^ 32 - 1) := by
    rw [List.length_append, List.length_singleton]
    omega
  simp only [entry, hcount, List.getLast?_concat]
  rfl

theorem mem_slotsAfter_iff {last slotAt : Timestamp} :
    slotAt ∈ r.slotsAfter last ↔ slotAt ∈ slotTimes r.registeredAt ∧ last < slotAt := by
  rw [slotsAfter, Set.mem_ofPred_eq, slotTimes, List.mem_map]
  constructor
  · rintro ⟨hlast, -, slot, hslot, rfl⟩
    exact ⟨⟨slot, mem_scanSlots_iff.mpr hslot, rfl⟩, hlast⟩
  · rintro ⟨⟨slot, hslot, rfl⟩, hlast⟩
    exact ⟨hlast, saturatingAdd_mono _ (mem_scanSlots_iff.mp hslot).2, slot,
      mem_scanSlots_iff.mp hslot, rfl⟩

/-- No slot is past the end of the window. -/
theorem nextScanAt_eq (r : Registration) :
    r.nextScanAt = match r.scans.getLast? with
      | none => (slotTimes r.registeredAt).head?
      | some last => (slotTimes r.registeredAt).find? (· > last) := by
  have htake : (slotTimes r.registeredAt).takeWhile (· ≤ r.validUntil) = slotTimes r.registeredAt :=
    List.takeWhile_eq_self_iff.mpr fun slotAt hslot => decide_eq_true (le_validUntil hslot)
  rw [nextScanAt, ScanProgress.nextScanAt]
  show (match r.scans.getLast? with
    | none => ((slotTimes r.registeredAt).takeWhile (· ≤ r.validUntil)).head?
    | some last => ((slotTimes r.registeredAt).takeWhile (· ≤ r.validUntil)).find? (· > last)) = _
  rw [htake]

/-- Before any scan the next one is due at once. -/
theorem nextScanAt_of_unscanned (hscans : r.scans = []) (hu64 : r.registeredAt ≤ u64Max) :
    r.nextScanAt = some r.registeredAt := by
  rw [nextScanAt_eq, hscans]
  show some (r.registeredAt.saturatingAdd 0) = _
  rw [saturatingAdd_zero hu64]

/-- After a scan the next one is due at the first slot that is left, if there is one. -/
theorem nextScanAt_of_scanned {last : Timestamp} (hlast : r.scans.getLast? = some last) :
    (∀ slotAt, r.nextScanAt = some slotAt → IsLeast (r.slotsAfter last) slotAt) ∧
      (r.nextScanAt = none → r.slotsAfter last = ∅) := by
  rw [nextScanAt_eq, hlast]
  dsimp only
  constructor
  · intro slotAt hfind
    rw [List.find?_eq_some_iff_append] at hfind
    obtain ⟨hafter, before, rest, hslots, hbefore⟩ := hfind
    have hsorted := sorted_slotTimes r.registeredAt
    refine ⟨mem_slotsAfter_iff.mpr ⟨by simp [hslots], of_decide_eq_true hafter⟩, fun other hother => ?_⟩
    obtain ⟨hmem, hlt⟩ := mem_slotsAfter_iff.mp hother
    rw [hslots] at hmem hsorted
    rcases List.mem_append.mp hmem with hbefore' | hrest
    · -- the slots before the one that was found are not after the scan
      have hnot := hbefore other hbefore'
      simp [hlt] at hnot
    · rcases List.mem_cons.mp hrest with rfl | hrest
      · exact Nat.le_refl _
      · exact (List.pairwise_cons.mp (List.pairwise_append.mp hsorted).2.1).1 other hrest
  · intro hnone
    refine Set.eq_empty_iff_forall_notMem.mpr fun slotAt hslot => ?_
    obtain ⟨hmem, hlt⟩ := mem_slotsAfter_iff.mp hslot
    have hnot := List.find?_eq_none.mp hnone slotAt hmem
    simp [hlt] at hnot

/-- The scans do not outnumber the slots up to the last of them. -/
def Budgeted (r : Registration) : Prop :=
  ∀ last, r.scans.getLast? = some last →
    r.scans.length ≤ (slotTimes r.registeredAt).countP (· ≤ last)

theorem Budgeted.length_le (h : r.Budgeted) : r.scans.length ≤ 33 := by
  cases hlast : r.scans.getLast? with
  | none =>
      rw [List.getLast?_eq_none_iff.mp hlast]
      exact Nat.zero_le 33
  | some last =>
      calc r.scans.length ≤ (slotTimes r.registeredAt).countP (· ≤ last) := h last hlast
        _ ≤ (slotTimes r.registeredAt).length := List.countP_le_length
        _ = 33 := by rw [slotTimes, List.length_map, length_scanSlots]

/-- The slot that is due is one that no scan before counts. -/
theorem countP_slotTimes_lt {scheduledFrom last now slotAt : Timestamp}
    (hslot : slotAt ∈ slotTimes scheduledFrom) (hlast : last < slotAt) (hnow : slotAt ≤ now) :
    (slotTimes scheduledFrom).countP (· ≤ last) < (slotTimes scheduledFrom).countP (· ≤ now) := by
  obtain ⟨before, after, hslots⟩ := List.append_of_mem hslot
  have hmono (l : List Timestamp) : l.countP (· ≤ last) ≤ l.countP (· ≤ now) := by
    refine List.countP_mono_left fun t _ ht => ?_
    exact decide_eq_true
      (Nat.le_trans (of_decide_eq_true ht) (Nat.le_of_lt (Nat.lt_of_lt_of_le hlast hnow)))
  have hbefore := hmono before
  have hafter := hmono after
  rw [hslots, List.countP_append, List.countP_append, List.countP_cons_of_neg (by simpa using hlast),
    List.countP_cons_of_pos (by simpa using hnow)]
  omega

/-- A scan that is due keeps to the budget. -/
theorem Budgeted.scan (h : r.Budgeted) (hu64 : r.registeredAt ≤ u64Max) {now slotAt : Timestamp}
    (hnext : r.nextScanAt = some slotAt) (hdue : slotAt ≤ now) :
    Budgeted { r with scans := r.scans ++ [now] } := by
  intro last hlast
  rw [List.getLast?_concat] at hlast
  obtain rfl := Option.some.inj hlast
  show (r.scans ++ [now]).length ≤ _
  rw [List.length_append, List.length_singleton]
  cases hprev : r.scans.getLast? with
  | none =>
      have hscans := List.getLast?_eq_none_iff.mp hprev
      rw [nextScanAt_of_unscanned hscans hu64, Option.some.injEq] at hnext
      rw [hscans]
      refine List.countP_pos_iff.mpr ⟨r.registeredAt.saturatingAdd 0, ?_, ?_⟩
      · exact List.mem_map_of_mem (by decide)
      · rw [saturatingAdd_zero hu64, hnext]
        exact decide_eq_true hdue
  | some prev =>
      obtain ⟨hmem, hlt⟩ :=
        mem_slotsAfter_iff.mp ((nextScanAt_of_scanned hprev).1 slotAt hnext).1
      exact Nat.lt_of_le_of_lt (h prev hprev) (countP_slotTimes_lt hmem hlt hdue)

end Registration

/-! ## The table of registrations -/

abbrev Registrations := OrdMap AccountKey Registration

namespace Watchlist

variable {key : AccountKey} {ops : List Op}

/-- The operations of a watchlist; a time is a `u64`. -/
inductive Op where
  | register (now : UInt64) (account : Account) (address : Address)
  | recordScan (now : UInt64) (account : Account)
  | evictExpired (now : UInt64)
  | remove (account : Account)

/-- The watchlist after the operation. -/
def Op.apply (watchlist : Watchlist) : Op → Except Panic Watchlist
  | .register now account address => (watchlist.register now.toNat account address).map Prod.fst
  | .recordScan now account => .ok (watchlist.recordScan now.toNat account)
  | .evictExpired now => (watchlist.evictExpired now.toNat).map Prod.fst
  | .remove account => watchlist.remove account

def run (watchlist : Watchlist) (ops : List Op) : Except Panic Watchlist :=
  ops.foldlM Op.apply watchlist

/-- What the operation does to the table: a registration is made where none is open and there is room
among the open ones, a scan is added to an open registration, and closed ones are dropped. -/
def Op.onTable (table : Registrations) : Op → Registrations
  | .register now account address =>
      let stillOpen := table.filter fun _ r => r.isOpen now.toNat
      if account.key ∈ stillOpen ∨ stillOpen.size ≥ maxWatchedAddresses then table
      else stillOpen.insert account.key ⟨account, address, now.toNat, []⟩
  | .recordScan now account =>
      table.map fun key r =>
        if account.key = key ∧ r.isOpen now.toNat then { r with scans := r.scans ++ [now.toNat] } else r
  | .evictExpired now => table.filter fun _ r => r.isOpen now.toNat
  | .remove account => table.erase account.key

/-- The table after operations one after the other. -/
def table (ops : List Op) : Registrations :=
  ops.foldl Op.onTable ∅

/-- The watchlist holds the entries of the registrations. -/
structure Shows (watchlist : Watchlist) (table : Registrations) : Prop where
  sound : watchlist.entries.Sound
  ttl : watchlist.entries.ttl = watchWindow
  capacity : watchlist.entries.capacity = maxWatchedAddresses
  entries : watchlist.entries.entries = table.map fun _ r => r.entry

theorem shows_default : default.Shows ∅ where
  sound := TimedSizedMap.sound_new _ _
  ttl := rfl
  capacity := rfl
  entries := by
    refine ExtTreeMap.ext_getElem? fun key => ?_
    rw [ExtTreeMap.getElem?_map]
    simp [default, TimedSizedMap.new]

theorem filter_map_entry (table : Registrations) (now : Timestamp) :
    (table.map fun _ r => r.entry).filter (fun _ entry => entry.isLive now) =
      (table.filter fun _ r => r.isOpen now).map fun _ r => r.entry := by
  refine ExtTreeMap.ext_getElem? fun key => ?_
  rw [ExtTreeMap.getElem?_filter', ExtTreeMap.getElem?_map, ExtTreeMap.getElem?_map,
    ExtTreeMap.getElem?_filter']
  cases table[key]? with
  | none => rfl
  | some r =>
      rw [Option.map_some, Option.filter_some, Option.filter_some, Registration.isLive_entry]
      split <;> rfl

namespace Shows

variable {watchlist : Watchlist} {table : Registrations}

theorem getElem?_entries (h : watchlist.Shows table) (key : AccountKey) :
    watchlist.entries.entries[key]? = table[key]?.map Registration.entry := by
  rw [h.entries, ExtTreeMap.getElem?_map]

/-- The live registration of an account is the open one of the table. -/
theorem get_eq (h : watchlist.Shows table) (now : Timestamp) (account : Account) :
    watchlist.get now account =
      (table[account.key]?.filter fun r => r.isOpen now).map fun r => watched account r.entry := by
  rw [Watchlist.get, TimedSizedMap.getEntry, h.getElem?_entries]
  cases table[account.key]? with
  | none => rfl
  | some r =>
      rw [Option.map_some, Option.filter_some, Option.filter_some, Registration.isLive_entry]
      split <;> rfl

theorem keepLive (h : watchlist.Shows table) (now : Timestamp) :
    Shows ⟨watchlist.entries.keepLive now⟩ (table.filter fun _ r => r.isOpen now) where
  sound := h.sound.keepLive now
  ttl := h.ttl
  capacity := h.capacity
  entries := by
    rw [← filter_map_entry, ← h.entries]
    rfl

theorem size_eq (h : watchlist.Shows table) : watchlist.entries.entries.size = table.size := by
  rw [h.entries, ← ExtTreeMap.length_toList, ExtTreeMap.toList_map, List.length_map,
    ExtTreeMap.length_toList]

theorem evictExpired (h : watchlist.Shows table) (now : Timestamp) :
    ∃ watchlist' count, watchlist.evictExpired now = .ok (watchlist', count) ∧
      watchlist'.Shows (table.filter fun _ r => r.isOpen now) := by
  refine ⟨⟨watchlist.entries.keepLive now⟩, (watchlist.entries.expired now).length, ?_, h.keepLive now⟩
  rw [Watchlist.evictExpired, h.sound.consistent.agrees.evictExpired_eq_ok]
  rfl

theorem remove (h : watchlist.Shows table) (account : Account) :
    ∃ watchlist', watchlist.remove account = .ok watchlist' ∧
      watchlist'.Shows (table.erase account.key) := by
  obtain ⟨entries, hremove, hsound, httl, hcapacity, -⟩ := h.sound.op (.remove account.key)
  obtain ⟨entries', hremove', -, -, -, herase, -⟩ :=
    h.sound.consistent.agrees.remove account.key
  obtain rfl := Except.ok.inj (hremove.symm.trans hremove')
  refine ⟨⟨entries⟩, ?_, hsound, httl.trans h.ttl, hcapacity.trans h.capacity, ?_⟩
  · rw [Watchlist.remove, hremove']
    rfl
  · refine ExtTreeMap.ext_getElem? fun key => ?_
    rw [herase, h.entries, ExtTreeMap.getElem?_map, OrdMap.getElem?_erase_eq,
      OrdMap.getElem?_erase_eq, ExtTreeMap.getElem?_map]
    split <;> rfl

theorem recordScan (h : watchlist.Shows table) (now : Timestamp) (account : Account) :
    (watchlist.recordScan now account).Shows (table.map fun key r =>
      if account.key = key ∧ r.isOpen now then { r with scans := r.scans ++ [now] } else r) := by
  obtain ⟨entries, hmodify, hsound, httl, hcapacity, -⟩ := h.sound.op (.getValueMut now account.key
    fun progress => { progress with
      scanCount := min (progress.scanCount + 1) (2 ^ 32 - 1)
      lastScannedAt := some now })
  obtain rfl := Except.ok.inj hmodify
  refine ⟨hsound, httl.trans h.ttl, hcapacity.trans h.capacity, ?_⟩
  refine ExtTreeMap.ext_getElem? fun key => ?_
  rw [Watchlist.recordScan, TimedSizedMap.getElem?_modifyValue, h.getElem?_entries,
    ExtTreeMap.getElem?_map, ExtTreeMap.getElem?_map]
  cases table[key]? with
  | none => rfl
  | some r =>
      rw [Option.map_some, Option.map_some, Option.map_some, Registration.isLive_entry]
      by_cases hscan : account.key = key ∧ r.isOpen now
      · rw [if_pos hscan, if_pos hscan, Option.map_some, r.entry_scan]
      · rw [if_neg hscan, if_neg hscan, Option.map_some]

theorem mem_filter_iff (h : watchlist.Shows table) (now : Timestamp) (account : Account) :
    account.key ∈ table.filter (fun _ r => r.isOpen now) ↔ (watchlist.get now account).isSome := by
  rw [OrdMap.mem_iff_exists, h.get_eq, Option.isSome_map, Option.isSome_iff_exists,
    ExtTreeMap.getElem?_filter']

/-- A new registration is its own entry, made with the whole window. -/
theorem insertNew (h : watchlist.Shows table) {now : Timestamp} {account : Account} {address : Address}
    (hnew : watchlist.entries.entries[account.key]? = none)
    (hroom : watchlist.entries.entries.size < watchlist.entries.capacity) :
    Shows ⟨watchlist.entries.insertNew account.key (Registration.entry ⟨account, address, now, []⟩)⟩
      (table.insert account.key ⟨account, address, now, []⟩) where
  sound := h.sound.insertNew hnew hroom
  ttl := h.ttl
  capacity := h.capacity
  entries := by
    refine ExtTreeMap.ext_getElem? fun key => ?_
    rw [TimedSizedMap.insertNew, ExtTreeMap.getElem?_map, OrdMap.getElem?_insert_eq,
      OrdMap.getElem?_insert_eq, h.getElem?_entries]
    split <;> rfl

theorem expiry_eq (h : watchlist.Shows table) (now : Timestamp) (account : Account)
    (address : Address) :
    watchlist.entries.expiry now = Registration.validUntil ⟨account, address, now, []⟩ := by
  rw [TimedSizedMap.expiry, h.ttl]
  rfl

/-- An account without an open registration is not watched. -/
theorem get_eq_none {now : Timestamp} {account : Account}
    (hnew : (watchlist.entries.keepLive now).entries[account.key]? = none) :
    watchlist.get now account = none := by
  rw [TimedSizedMap.keepLive, ExtTreeMap.getElem?_filter'] at hnew
  rw [Watchlist.get, TimedSizedMap.getEntry, hnew]
  rfl

/-- A registration is open when it is made, as the time is a `u64`. -/
theorem isLive_made (account : Account) (address : Address) (now : UInt64) :
    (Registration.entry ⟨account, address, now.toNat, []⟩).isLive now.toNat :=
  TimedSizedMap.isLive_iff.mpr
    (Nat.le_min.mpr ⟨Nat.le_add_right _ _, Nat.le_sub_one_of_lt now.toNat_lt⟩)

/-- A registration is made, or the open one of the account is returned as it is. -/
theorem register (h : watchlist.Shows table) (now : UInt64) (account : Account) (address : Address) :
    ∃ watchlist' result, watchlist.register now.toNat account address = .ok (watchlist', result) ∧
      watchlist'.Shows (Op.onTable table (.register now account address)) ∧
      ∀ watched, watchlist.get now.toNat account = some watched →
        watchlist' = watchlist ∧ result = .ok watched := by
  let made : Registration := ⟨account, address, now.toNat, []⟩
  have hexpiry : watchlist.entries.expiry now.toNat = made.validUntil := h.expiry_eq _ _ _
  have hlive : made.entry.isLive now.toNat := isLive_made _ _ now
  obtain ⟨entries, result, hinsert, hcase⟩ :=
    h.sound.consistent.agrees.insertEntry now.toNat account.key made.entry
  have hregister : watchlist.entries.insert now.toNat account.key
      (.unscanned account address now.toNat) = .ok (entries, result) := by
    rw [TimedSizedMap.insert, hexpiry]
    exact hinsert
  have hopen := h.keepLive now.toNat
  rw [Watchlist.register, hregister]
  cases hcase with
  -- the window of a new registration is open
  | expired hexpired => exact absurd hlive hexpired
  | present _ hpresent =>
      have hget : (watchlist.get now.toNat account).isSome := by
        rw [Watchlist.get, Option.isSome_map]
        simpa [TimedSizedMap.get] using hpresent
      obtain ⟨watched, hwatched⟩ := Option.isSome_iff_exists.mp hget
      refine ⟨watchlist, .ok watched, ?_, ?_, ?_⟩
      · show (orPanic (watchlist.get now.toNat account) _ >>= _) = _
        rw [hwatched]
        rfl
      · rw [Op.onTable, if_pos (.inl ((h.mem_filter_iff _ _).mpr hget))]
        exact h
      · intro watched' hwatched'
        rw [hwatched, Option.some.injEq] at hwatched'
        exact ⟨rfl, by rw [hwatched']⟩
  -- a full watchlist has no expired registration left to evict
  | full _ hnew hfull =>
      refine ⟨watchlist, .error .full, ?_, ?_, ?_⟩
      · rw [h.sound.keepLive_eq_self hfull]
        rfl
      · rw [hopen.size_eq, h.capacity] at hfull
        rw [Op.onTable, if_pos (.inr hfull)]
        exact h
      · intro watched hwatched
        rw [get_eq_none hnew] at hwatched
        cases hwatched
  | admitted _ hnew hroom =>
      -- the expiry of the entry is that of the map, so clamping does nothing
      have hentry : ({ made.entry with
          expiresAt := min made.entry.expiresAt (watchlist.entries.expiry now.toNat) } :
            TimedSizedMap.Entry ScanProgress) = made.entry := by
        rw [hexpiry]
        exact congrArg (TimedSizedMap.Entry.mk _) (Nat.min_self _)
      rw [hentry]
      refine ⟨⟨(watchlist.entries.keepLive now.toNat).insertNew account.key made.entry⟩,
        .ok (watched account made.entry), ?_, ?_, ?_⟩
      · show (orPanic (Watchlist.get ⟨_⟩ now.toNat account) _ >>= _) = _
        rw [Watchlist.get, TimedSizedMap.getEntry, TimedSizedMap.insertNew, OrdMap.getElem?_insert_eq,
          if_pos rfl, Option.filter_some, if_pos hlive]
        rfl
      · have hsome := (h.mem_filter_iff now.toNat account).not
        rw [get_eq_none hnew] at hsome
        rw [Op.onTable, if_neg]
        · exact hopen.insertNew hnew hroom
        · rw [hopen.size_eq, h.capacity] at hroom
          exact not_or.mpr ⟨hsome.mpr (by simp), Nat.not_le_of_lt hroom⟩
      · intro watched hwatched
        rw [get_eq_none hnew] at hwatched
        cases hwatched

/-- Every operation succeeds, and does to the watchlist what it does to the table. -/
theorem op (h : watchlist.Shows table) (op : Op) :
    ∃ watchlist', op.apply watchlist = .ok watchlist' ∧ watchlist'.Shows (op.onTable table) := by
  cases op with
  | register now account address =>
      obtain ⟨watchlist', result, hregister, hshows, -⟩ := h.register now account address
      refine ⟨watchlist', ?_, hshows⟩
      rw [Op.apply, hregister]
      rfl
  | recordScan now account => exact ⟨_, rfl, h.recordScan now.toNat account⟩
  | evictExpired now =>
      obtain ⟨watchlist', count, hevict, hshows⟩ := h.evictExpired now.toNat
      refine ⟨watchlist', ?_, hshows⟩
      rw [Op.apply, hevict]
      rfl
  | remove account => exact h.remove account

theorem run (h : watchlist.Shows table) (ops : List Op) :
    ∃ watchlist', watchlist.run ops = .ok watchlist' ∧
      watchlist'.Shows (ops.foldl Op.onTable table) := by
  induction ops generalizing watchlist table with
  | nil => exact ⟨watchlist, rfl, h⟩
  | cons op ops ih =>
      obtain ⟨watchlist₁, happly, hshows⟩ := h.op op
      obtain ⟨watchlist', hrun, hshows'⟩ := ih hshows
      refine ⟨watchlist', ?_, hshows'⟩
      rw [Watchlist.run, List.foldlM_cons, happly]
      exact hrun

/-- The accounts that are due are those with an open registration whose next slot has come. -/
theorem due (h : watchlist.Shows table) (now : Timestamp) :
    ∃ due, watchlist.due now = .ok due ∧ ∀ x, x ∈ due ↔ ∃ (key : AccountKey) (r : Registration),
      table[key]? = some r ∧ r.isOpen now ∧ (∃ slotAt, r.nextScanAt = some slotAt ∧ slotAt ≤ now) ∧
        x = watched r.account r.entry := by
  have hagrees := h.sound.consistent.agrees
  refine ⟨_, by rw [Watchlist.due, Watchlist.live, hagrees.iterByExpiry_eq_ok]; rfl, fun x => ?_⟩
  simp only [List.mem_filter, List.mem_map, Option.any_eq_true, decide_eq_true_eq]
  constructor
  · rintro ⟨⟨⟨key, entry⟩, ⟨hentry, hlive⟩, rfl⟩, slotAt, hnext, hdue⟩
    have hget := hagrees.mem_listing_iff.mp hentry
    rw [h.getElem?_entries, Option.map_eq_some_iff] at hget
    obtain ⟨r, hr, rfl⟩ := hget
    exact ⟨key, r, hr, r.isLive_entry now ▸ hlive, ⟨slotAt, hnext, hdue⟩, rfl⟩
  · rintro ⟨key, r, hr, hopen, ⟨slotAt, hnext, hdue⟩, rfl⟩
    refine ⟨⟨(key, r.entry), ⟨hagrees.mem_listing_iff.mpr ?_, ?_⟩, rfl⟩, slotAt, hnext, hdue⟩
    · rw [h.getElem?_entries, hr]
      rfl
    · exact (r.isLive_entry now).trans hopen

end Shows

/-! ## What an operation does to a registration -/

theorem getElem?_onTable {table : Registrations} {op : Op} {r : Registration}
    (h : (op.onTable table)[key]? = some r) :
    table[key]? = some r ∨
    (∃ now account address, op = .register now account address ∧ account.key = key ∧
      r = ⟨account, address, now.toNat, []⟩) ∨
    ∃ now account r', op = .recordScan now account ∧ account.key = key ∧ table[key]? = some r' ∧
      r'.isOpen now.toNat ∧ r = { r' with scans := r'.scans ++ [now.toNat] } := by
  cases op with
  | register now account address =>
      rw [Op.onTable] at h
      split at h
      · exact .inl h
      · rw [OrdMap.getElem?_insert_eq] at h
        split at h
        case isTrue hkey =>
          exact .inr (.inl ⟨now, account, address, rfl, hkey, (Option.some.inj h).symm⟩)
        case isFalse =>
          rw [ExtTreeMap.getElem?_filter', Option.filter_eq_some_iff] at h
          exact .inl h.1
  | recordScan now account =>
      rw [Op.onTable, ExtTreeMap.getElem?_map, Option.map_eq_some_iff] at h
      obtain ⟨r', hr', rfl⟩ := h
      split
      case isTrue hscan => exact .inr (.inr ⟨now, account, r', rfl, hscan.1, hr', hscan.2, rfl⟩)
      case isFalse => exact .inl hr'
  | evictExpired now =>
      rw [Op.onTable, ExtTreeMap.getElem?_filter', Option.filter_eq_some_iff] at h
      exact .inl h.1
  | remove account => exact .inl (OrdMap.getElem?_of_erase h)

theorem table_concat (ops : List Op) (op : Op) : table (ops ++ [op]) = op.onTable (table ops) := by
  rw [table, table, List.foldl_concat]

/-- A registration is found under the key of its account, and was made at a `u64` time. -/
theorem keyed_table {r : Registration} (h : (table ops)[key]? = some r) :
    r.account.key = key ∧ r.registeredAt ≤ u64Max := by
  induction ops using List.reverseRecOn generalizing r with
  | nil => simp [table] at h
  | append_singleton ops op ih =>
      rw [table_concat] at h
      rcases getElem?_onTable h with hold | ⟨now, account, address, -, hkey, rfl⟩ |
        ⟨now, account, r', -, -, hr', -, rfl⟩
      · exact ih hold
      · exact ⟨hkey, Nat.le_sub_one_of_lt now.toNat_lt⟩
      · have hr := ih hr'
        exact hr

/-- Scans are recorded only for accounts that `due` returns. -/
def ScansDue (ops : List Op) : Prop :=
  ∀ before now account after, ops = before ++ .recordScan now account :: after →
    ∃ watchlist due, default.run before = .ok watchlist ∧ watchlist.due now.toNat = .ok due ∧
      ∃ watched ∈ due, watched.account.key = account.key

theorem ScansDue.of_concat {op : Op} (h : ScansDue (ops ++ [op])) : ScansDue ops := by
  rintro before now account after rfl
  exact h before now account (after ++ [op]) (by simp)

/-- When scans are recorded only for accounts that are due, none is beyond the slots. -/
theorem budgeted_table (hdue : ScansDue ops) {r : Registration} (h : (table ops)[key]? = some r) :
    r.Budgeted := by
  induction ops using List.reverseRecOn generalizing r with
  | nil => simp [table] at h
  | append_singleton ops op ih =>
      rw [table_concat] at h
      rcases getElem?_onTable h with hold | ⟨now, account, address, -, -, rfl⟩ |
        ⟨now, account, r', rfl, hkey, hr', hopen, rfl⟩
      · exact ih hdue.of_concat hold
      · intro last hlast
        cases hlast
      · obtain ⟨watchlist, due, hrun, hwatchlist, x, hx, hxkey⟩ := hdue ops now account [] rfl
        obtain ⟨watchlist', hrun', hshows⟩ := shows_default.run ops
        obtain rfl := Except.ok.inj (hrun.symm.trans hrun')
        obtain ⟨due', hdue', hmem⟩ := hshows.due now.toNat
        obtain rfl := Except.ok.inj (hwatchlist.symm.trans hdue')
        obtain ⟨key', r'', hr'', -, ⟨slotAt, hnext, hslot⟩, rfl⟩ := (hmem x).mp hx
        -- the account that is due is the one scanned
        obtain rfl : key' = key := (keyed_table hr'').1.symm.trans (hxkey.trans hkey)
        obtain rfl := Option.some.inj (hr''.symm.trans hr')
        exact (ih hdue.of_concat hr').scan (keyed_table hr').2 hnext hslot

/-- A scan recorded at a time leaves no slot that is due then. -/
theorem Shows.not_due_of_recordScan {watchlist : Watchlist} {table : Registrations}
    (h : watchlist.Shows table)
    (hkeyed : ∀ (key : AccountKey) (r : Registration), table[key]? = some r → r.account.key = key)
    (now : Timestamp) (account : Account) :
    ∃ due, (watchlist.recordScan now account).due now = .ok due ∧
      ∀ x ∈ due, x.account.key ≠ account.key := by
  obtain ⟨due, hdue, hmem⟩ := (h.recordScan now account).due now
  refine ⟨due, hdue, fun x hx hkey => ?_⟩
  obtain ⟨key, r, hr, hopen, ⟨slotAt, hnext, hslot⟩, rfl⟩ := (hmem x).mp hx
  rw [ExtTreeMap.getElem?_map, Option.map_eq_some_iff] at hr
  obtain ⟨r', hr', rfl⟩ := hr
  by_cases hscan : account.key = key ∧ r'.isOpen now
  · rw [if_pos hscan] at hnext
    have hafter := (Registration.nextScanAt_of_scanned List.getLast?_concat).1 slotAt hnext
    exact Nat.not_le_of_lt hafter.1.1 hslot
  · rw [if_neg hscan] at hopen hkey
    exact hscan ⟨hkey.symm.trans (hkeyed key r' hr'), hopen⟩

/-- Whatever operations a watchlist goes through, at whatever times: it holds the registrations of the
table; the next scan of a registration is due at once before the first, and then at the least slot after
the last that the window covers; a scan makes its account not due; registering an account again changes
nothing; and when scans are recorded only for accounts that are due, there are at most as many of them
as slots. -/
theorem scanSchedule (ops : List Op) :
    ∃ watchlist, default.run ops = .ok watchlist ∧
      (∀ now account, watchlist.get now account =
        ((table ops)[account.key]?.filter fun r => r.isOpen now).map fun r =>
          watched account r.entry) ∧
      (∀ (key : AccountKey) (r : Registration), (table ops)[key]? = some r →
        (r.scans = [] → r.nextScanAt = some r.registeredAt) ∧
        ∀ last, r.scans.getLast? = some last →
          (∀ slotAt, r.nextScanAt = some slotAt → IsLeast (r.slotsAfter last) slotAt) ∧
          (r.nextScanAt = none → r.slotsAfter last = ∅)) ∧
      (∀ now account, ∃ due, (watchlist.recordScan now account).due now = .ok due ∧
        ∀ x ∈ due, x.account.key ≠ account.key) ∧
      (∀ (now : UInt64) account address watched, watchlist.get now.toNat account = some watched →
        watchlist.register now.toNat account address = .ok (watchlist, .ok watched)) ∧
      (ScansDue ops → ∀ (key : AccountKey) (entry : TimedSizedMap.Entry ScanProgress),
        watchlist.entries.entries[key]? = some entry → entry.value.scanCount ≤ 33) := by
  obtain ⟨watchlist, hrun, hshows⟩ := shows_default.run ops
  refine ⟨watchlist, hrun, hshows.get_eq, fun key r hr => ⟨fun hscans => ?_, fun last hlast => ?_⟩,
    fun now account => ?_, fun now account address watched hget => ?_, fun hdue key entry hentry => ?_⟩
  · exact Registration.nextScanAt_of_unscanned hscans (keyed_table hr).2
  · exact Registration.nextScanAt_of_scanned hlast
  · exact hshows.not_due_of_recordScan (fun key r hr => (keyed_table hr).1) now account
  · obtain ⟨watchlist', result, hregister, -, hsame⟩ := hshows.register now account address
    obtain ⟨rfl, rfl⟩ := hsame watched hget
    exact hregister
  · rw [hshows.getElem?_entries, Option.map_eq_some_iff] at hentry
    obtain ⟨r, hr, rfl⟩ := hentry
    exact Nat.le_trans (Nat.min_le_left _ _) (budgeted_table hdue hr).length_le

/-- An account that is registered and then scanned, which is due at once. -/
def scannedOnce : List Op :=
  [.register 5 ⟨.single 9, none⟩ 11, .recordScan 5 ⟨.single 9, none⟩]

theorem scanSchedule_scannedOnce :
    ScansDue scannedOnce ∧ ∃ watchlist, default.run scannedOnce = .ok watchlist ∧
      ∀ (key : AccountKey) (entry : TimedSizedMap.Entry ScanProgress),
        watchlist.entries.entries[key]? = some entry → entry.value.scanCount ≤ 33 := by
  have hdue : ScansDue scannedOnce := by
    intro before now account after h
    -- the scan is the second operation
    obtain ⟨rfl, rfl, rfl⟩ : before = [.register 5 ⟨.single 9, none⟩ 11] ∧ now = 5 ∧
        account = ⟨.single 9, none⟩ := by
      rcases before with - | ⟨first, - | ⟨second, before⟩⟩
      · cases h
      · simp only [scannedOnce, List.cons_append, List.nil_append, List.cons.injEq,
          Op.recordScan.injEq] at h
        obtain ⟨rfl, ⟨rfl, rfl⟩, -⟩ := h
        exact ⟨rfl, rfl, rfl⟩
      · simp [scannedOnce] at h
    have hrun : ((default.run [.register 5 ⟨.single 9, none⟩ 11]).toOption.any fun watchlist =>
        (watchlist.due (5 : UInt64).toNat).toOption.any fun due =>
          due.any fun x => x.account.key = Account.key ⟨.single 9, none⟩) = true := by
      decide +kernel
    obtain ⟨watchlist, hwatchlist, hrun⟩ := (Option.any_eq_true _ _).mp hrun
    obtain ⟨due, hdue, hrun⟩ := (Option.any_eq_true _ _).mp hrun
    obtain ⟨x, hx, hkey⟩ := List.any_eq_true.mp hrun
    exact ⟨watchlist, due, toOption_eq_some.mp hwatchlist, toOption_eq_some.mp hdue, x, hx,
      of_decide_eq_true hkey⟩
  obtain ⟨watchlist, hrun, -, -, -, -, hcount⟩ := scanSchedule scannedOnce
  exact ⟨hdue, watchlist, hrun, hcount hdue⟩

end Watchlist

end Cksol
