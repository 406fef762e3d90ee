import Cksol.Common.Fallible
import Cksol.State.Panic

/-! # `state/watchlist`

The deposit addresses registered for the automatic deposit flow, each watched for a window and
scanned at the slots of a fixed schedule.
-/

namespace Cksol

def watchWindow : Duration := Duration.fromHours 24

def maxWatchedAddresses : ℕ := 1_000

/-- The slots of the first scans, measured from the start of the schedule. -/
def burstScanSlots : List Duration :=
  [0, 60, 120, 240, 360, 600, 900, 1_200, 1_500, 1_800].map Duration.fromSecs

def steadyScanGap : Duration := Duration.fromHours 1

/-- The slots of the schedule up to the length of a window. -/
def scanSlots : List Duration :=
  -- the source chains an unbounded range; its 24th slot is already past the window
  (burstScanSlots ++ (List.range 24).map fun gaps =>
    Duration.fromSecs 1_800 + steadyScanGap * (gaps + 1)).takeWhile (· ≤ watchWindow)

/-- The progress of a registration; the account is the one it was made with. -/
structure ScanProgress where
  account : Account
  address : Address
  scheduledFrom : Timestamp
  scanCount : ℕ
  lastScannedAt : Option Timestamp

namespace ScanProgress

def unscanned (account : Account) (address : Address) (scheduledFrom : Timestamp) : ScanProgress :=
  { account, address, scheduledFrom, scanCount := 0, lastScannedAt := none }

/-- The first slot before any scan, the first slot after the last scan otherwise, unless no slot is
left before the end of the window. -/
def nextScanAt (progress : ScanProgress) (validUntil : Timestamp) : Option Timestamp :=
  let slots := (scanSlots.map progress.scheduledFrom.saturatingAdd).takeWhile (· ≤ validUntil)
  match progress.lastScannedAt with
  | none => slots.head?
  | some lastScannedAt => slots.find? (· > lastScannedAt)

end ScanProgress

/-- A registration, as callers see it. -/
structure WatchedAddress where
  account : Account
  address : Address
  validUntil : Timestamp
  scanCount : ℕ
  lastScannedAt : Option Timestamp
  nextScanAt : Option Timestamp

/-- The accounts whose addresses are scanned for deposits. -/
structure Watchlist where
  entries : TimedSizedMap AccountKey ScanProgress

/-- `WatchlistFull`. -/
inductive WatchlistFull where
  | full

namespace Watchlist

def default : Watchlist :=
  ⟨TimedSizedMap.new watchWindow maxWatchedAddresses⟩

/-- What callers see of an entry. -/
def watched (account : Account) (entry : TimedSizedMap.Entry ScanProgress) : WatchedAddress where
  account
  address := entry.value.address
  validUntil := entry.expiresAt
  scanCount := entry.value.scanCount
  lastScannedAt := entry.value.lastScannedAt
  nextScanAt := entry.value.nextScanAt entry.expiresAt

/-- The live registration of the account, if any. -/
def get (watchlist : Watchlist) (now : Timestamp) (account : Account) : Option WatchedAddress :=
  (watchlist.entries.getEntry now account.key).map (watched account)

/-- Registers the deposit address of the account, or returns its live registration as it is. -/
def register (watchlist : Watchlist) (now : Timestamp) (account : Account) (address : Address) :
    Except Panic (Watchlist × Except WatchlistFull WatchedAddress) := do
  let (entries, result) ← (watchlist.entries.insert now account.key
    (.unscanned account address now)).mapError .watchlistInconsistent
  let watchlist : Watchlist := ⟨entries⟩
  match result with
  | .error (.atCapacity ..) => return (watchlist, .error .full)
  | .ok _ | .error (.alreadyPresent ..) =>
      let watched ← orPanic (watchlist.get now account) .registrationNotLive
      return (watchlist, .ok watched)

def remove (watchlist : Watchlist) (account : Account) : Except Panic Watchlist := do
  let entries ← (watchlist.entries.remove account.key).mapError .watchlistInconsistent
  return ⟨entries⟩

/-- The registrations whose window is open, by its end. -/
def live (watchlist : Watchlist) (now : Timestamp) : Except Panic (List WatchedAddress) := do
  let entries ← watchlist.entries.iterByExpiry.mapError .watchlistInconsistent
  return (entries.filter fun (_, entry) => entry.isLive now).map fun (_, entry) =>
    watched entry.value.account entry

/-- The live registrations whose next scan is due. -/
def due (watchlist : Watchlist) (now : Timestamp) : Except Panic (List WatchedAddress) := do
  let live ← watchlist.live now
  return live.filter fun watched => watched.nextScanAt.any (· ≤ now)

/-- Records a scan of the account's deposit address, if the account is still watched. -/
def recordScan (watchlist : Watchlist) (now : Timestamp) (account : Account) : Watchlist :=
  ⟨watchlist.entries.modifyValue now account.key fun progress =>
    { progress with
      -- the count is a `u32` and saturates
      scanCount := min (progress.scanCount + 1) (2 ^ 32 - 1)
      lastScannedAt := some now }⟩

/-- Removes the registrations whose window has closed and returns how many there were. -/
def evictExpired (watchlist : Watchlist) (now : Timestamp) : Except Panic (Watchlist × ℕ) := do
  let (entries, evicted) ← (watchlist.entries.evictExpired now).mapError .watchlistInconsistent
  return (⟨entries⟩, evicted.length)

/-- Nothing is removed from the empty watchlist. -/
theorem remove_default (account : Account) : default.remove account = .ok default := rfl

end Watchlist

end Cksol
