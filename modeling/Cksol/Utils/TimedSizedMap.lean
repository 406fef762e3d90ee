import Cksol.Common.OrdMap
import Cksol.Common.Fallible

/-! # `utils/timed_sized_map`

A map of at most `capacity` entries that live for at most `ttl`. Times and durations are nanoseconds;
additions saturate at the end of the `u64` range and Lean's natural subtraction saturates at zero.
-/

namespace Cksol

open Std

abbrev Timestamp := ℕ

/-- A length of time in nanoseconds. -/
abbrev Duration := ℕ

def Duration.fromSecs (secs : ℕ) : Duration := secs * 1_000_000_000

def Duration.fromMins (mins : ℕ) : Duration := Duration.fromSecs (60 * mins)

def Duration.fromHours (hours : ℕ) : Duration := Duration.fromSecs (3_600 * hours)

def u64Max : ℕ := 2 ^ 64 - 1

/-- `Timestamp::saturating_add`. -/
def Timestamp.saturatingAdd (t : Timestamp) (duration : Duration) : Timestamp :=
  min (t + duration) u64Max

/-- Whether an entry expiring at `expiresAt` has outlived its time at `now`. -/
def isExpired (expiresAt now : Timestamp) : Bool :=
  now > expiresAt

/-- A value, with the time from which it counts as absent. -/
structure TimedSizedMap.Entry (V : Type) where
  value : V
  expiresAt : Timestamp
deriving DecidableEq

def TimedSizedMap.Entry.isLive {V : Type} (entry : TimedSizedMap.Entry V) (now : Timestamp) : Bool :=
  !isExpired entry.expiresAt now

/-- A map of bounded size whose entries expire, with the keys of each expiry. -/
structure TimedSizedMap (K V : Type) [Ord K] where
  ttl : Duration
  capacity : ℕ
  entries : OrdMap K (TimedSizedMap.Entry V)
  byExpiry : OrdMap Timestamp (List K)

namespace TimedSizedMap

/-- Why an insertion did not admit a new entry; the rejected key and value are handed back. -/
inductive InsertError (K V : Type) where
  | alreadyPresent (key : K) (value : V)
  | atCapacity (key : K) (value : V)
deriving DecidableEq

/-- The `BUG` expectations of the map. -/
inductive Inconsistent where
  | indexedKeyWithoutEntry
  | entryWithoutBucket
deriving DecidableEq

/-- The panic of `from_ordered_entries` on entries that are no snapshot of a map. -/
inductive DuplicateKey where
  | duplicateKey
deriving DecidableEq

variable {K V : Type} [Ord K]

def new (ttl : Duration) (capacity : ℕ) : TimedSizedMap K V :=
  { ttl, capacity, entries := ∅, byExpiry := ∅ }

/-- The time from which an entry made now counts as absent. -/
def expiry (m : TimedSizedMap K V) (now : Timestamp) : Timestamp :=
  Timestamp.saturatingAdd now m.ttl

variable [TransOrd K]

def getEntry (m : TimedSizedMap K V) (now : Timestamp) (key : K) : Option (Entry V) :=
  (m.entries[key]?).filter fun entry => entry.isLive now

def get (m : TimedSizedMap K V) (now : Timestamp) (key : K) : Option V :=
  (m.getEntry now key).map Entry.value

/-- `get_value_mut`: changes the live value under `key`, if any, and never its expiry. -/
def modifyValue (m : TimedSizedMap K V) (now : Timestamp) (key : K) (f : V → V) :
    TimedSizedMap K V :=
  match m.getEntry now key with
  | none => m
  | some entry => { m with entries := m.entries.insert key { entry with value := f entry.value } }

/-- Removes the entries of one bucket, collecting them in order. -/
def evictBucket (m : TimedSizedMap K V) (evicted : List (K × V)) (bucket : List K) :
    Except Inconsistent (TimedSizedMap K V × List (K × V)) :=
  bucket.foldlM (fun (m, evicted) key => do
    let entry ← orPanic m.entries[key]? .indexedKeyWithoutEntry
    return ({ m with entries := m.entries.erase key }, evicted ++ [(key, entry.value)]))
    (m, evicted)

/-- The `while` loop of `evict_expired` over the buckets by ascending expiry. -/
def evictLoop (now : Timestamp) :
    List (Timestamp × List K) → TimedSizedMap K V → List (K × V) →
      Except Inconsistent (TimedSizedMap K V × List (K × V))
  | [], m, evicted => .ok (m, evicted)
  | (expiresAt, bucket) :: buckets, m, evicted =>
      if isExpired expiresAt now then do
        let (m, evicted) ←
          evictBucket { m with byExpiry := m.byExpiry.erase expiresAt } evicted bucket
        evictLoop now buckets m evicted
      else .ok (m, evicted)

/-- Removes and returns every entry that has outlived its time. -/
def evictExpired (m : TimedSizedMap K V) (now : Timestamp) :
    Except Inconsistent (TimedSizedMap K V × List (K × V)) :=
  evictLoop now m.byExpiry.toList m []

/-- The key is put at the end of the bucket of its expiry. -/
def enqueueByExpiry (m : TimedSizedMap K V) (key : K) (expiresAt : Timestamp) : TimedSizedMap K V :=
  { m with byExpiry := m.byExpiry.insert expiresAt ((m.byExpiry[expiresAt]?).getD [] ++ [key]) }

/-- Inserts an entry with its own expiry, clamped to `ttl` from `now`. The map is returned in every
case: a rejected insertion may already have evicted expired entries. -/
def insertEntry (m : TimedSizedMap K V) (now : Timestamp) (key : K) (entry : Entry V) :
    Except Inconsistent (TimedSizedMap K V × Except (InsertError K V) (List (K × V))) :=
  if !entry.isLive now then .ok (m, .ok [])
  else if (m.get now key).isSome then .ok (m, .error (.alreadyPresent key entry.value))
  else do
    let (m, evicted) ← m.evictExpired now
    if m.entries.size ≥ m.capacity then
      return (m, .error (.atCapacity key entry.value))
    let entry := { entry with expiresAt := min entry.expiresAt (m.expiry now) }
    let m := m.enqueueByExpiry key entry.expiresAt
    return ({ m with entries := m.entries.insert key entry }, .ok evicted)

def insert (m : TimedSizedMap K V) (now : Timestamp) (key : K) (value : V) :
    Except Inconsistent (TimedSizedMap K V × Except (InsertError K V) (List (K × V))) :=
  m.insertEntry now key { value, expiresAt := m.expiry now }

/-- Removes the entry under `key`, live or expired. -/
def remove [DecidableEq K] (m : TimedSizedMap K V) (key : K) :
    Except Inconsistent (TimedSizedMap K V) :=
  match m.entries[key]? with
  | none => .ok m
  | some entry => do
      let bucket ← orPanic m.byExpiry[entry.expiresAt]? .entryWithoutBucket
      let bucket := bucket.filter (· ≠ key)
      return { m with
        entries := m.entries.erase key
        byExpiry := if bucket.isEmpty then m.byExpiry.erase entry.expiresAt
          else m.byExpiry.insert entry.expiresAt bucket }

/-- Every entry, live or expired, by ascending expiry and insertion order within an expiry. -/
def iterByExpiry (m : TimedSizedMap K V) : Except Inconsistent (List (K × Entry V)) :=
  m.byExpiry.values.flatten.mapM fun key => do
    let entry ← orPanic m.entries[key]? .indexedKeyWithoutEntry
    return (key, entry)

/-- One iteration of `fromOrderedEntries`. -/
def takeOver (m : TimedSizedMap K V) (pair : K × Entry V) :
    Except DuplicateKey (TimedSizedMap K V) := do
  let m := m.enqueueByExpiry pair.1 pair.2.expiresAt
  check (pair.1 ∉ m.entries) .duplicateKey
  return { m with entries := m.entries.insert pair.1 pair.2 }

/-- Rebuilds a map verbatim from the entries of `iterByExpiry`: nothing is clamped, evicted or checked
against the capacity. -/
def fromOrderedEntries (ttl : Duration) (capacity : ℕ) (entries : List (K × Entry V)) :
    Except DuplicateKey (TimedSizedMap K V) :=
  entries.foldlM takeOver (new ttl capacity)

end TimedSizedMap

end Cksol
