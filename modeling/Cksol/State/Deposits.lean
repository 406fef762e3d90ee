import Cksol.State.Sweeps
import Cksol.State.Watchlist

/-! # `state/deposits`

The deposits grouped by their progress towards a ckSOL mint, with the indexes that keep every account
to one deposit in flight.
-/

namespace Cksol

open Std

/-- A deposit together with the sweep transaction submitted to move it to the main account. -/
structure SweptDeposit where
  deposit : QueuedDeposit
  signature : Signature
deriving DecidableEq

/-- A swept deposit whose sweep was credited and whose ckSOL mint is not confirmed yet. -/
structure PendingMint where
  deposit : SweptDeposit
  amountToMint : Lamport
  createdAtTime : Timestamp
deriving DecidableEq

namespace PendingMint

def account (pending : PendingMint) : Account := pending.deposit.deposit.account

def sweepSignature (pending : PendingMint) : Signature := pending.deposit.signature

end PendingMint

/-- Why a deposit waits for an operator. -/
inductive QuarantineCause where
  | sweepUnreadable
  | mintUnresolved (amountToMint : Lamport) (createdAtTime : Timestamp)
deriving DecidableEq

/-- A deposit that the minter no longer processes. -/
structure QuarantinedDeposit where
  deposit : SweptDeposit
  cause : QuarantineCause
deriving DecidableEq

/-- A swept deposit whose ckSOL mint landed on the ledger. -/
structure MintedSweep where
  deposit : SweptDeposit
  mintedAmount : Lamport
  mintBlockIndex : LedgerMintIndex
deriving DecidableEq

/-- What `deposit_sol_status` answers. -/
inductive DepositSolStatus where
  | notFound
  | queued (sweepableAmount : Lamport)
  | swept (signature : Signature)
  | finalized (signature : Signature)
  | minted (blockIndex : LedgerMintIndex) (mintedAmount : Lamport)
  | dropped (signature : Signature)
  | quarantined (signature : Signature)
deriving DecidableEq

/-- The deposit that reserves its account. -/
inductive InFlightDeposit where
  | processing (depositId : DepositSolId)
  | quarantined (depositId : DepositSolId)
deriving DecidableEq

/-- The deposits by stage, with the indexes over them. -/
structure Deposits where
  nextId : DepositSolId
  queued : OrdMap DepositSolId QueuedDeposit
  swept : Sweeps
  finalized : Sweeps
  pendingMints : OrdMap DepositSolId PendingMint
  minted : OrdMap DepositSolId MintedSweep
  dropped : OrdMap DepositSolId SweptDeposit
  quarantined : OrdMap DepositSolId QuarantinedDeposit
  inFlightIds : OrdMap AccountKey DepositSolId
  latestIds : OrdMap AccountKey DepositSolId
  queuedAtById : OrdMap DepositSolId Timestamp
  watchlist : Watchlist

namespace Deposits

variable {signature : Signature} {depositId : DepositSolId}

def default : Deposits where
  nextId := 0
  queued := ∅
  swept := .empty
  finalized := .empty
  pendingMints := ∅
  minted := ∅
  dropped := ∅
  quarantined := ∅
  inFlightIds := ∅
  latestIds := ∅
  queuedAtById := ∅
  watchlist := .default

def inFlightId (deposits : Deposits) (account : Account) : Option DepositSolId :=
  deposits.inFlightIds[account.key]?

def latestId (deposits : Deposits) (account : Account) : Option DepositSolId :=
  deposits.latestIds[account.key]?

/-- The stages are looked up in the order in which a deposit passes them. -/
def status (deposits : Deposits) (depositId : DepositSolId) : DepositSolStatus :=
  match deposits.queued[depositId]? with
  | some deposit => .queued deposit.sweepableAmount
  | none =>
  match deposits.swept.deposit depositId with
  | some (signature, _) => .swept signature
  | none =>
  match deposits.finalized.deposit depositId with
  | some (signature, _) => .finalized signature
  | none =>
  match deposits.pendingMints[depositId]? with
  | some pending => .finalized pending.sweepSignature
  | none =>
  match deposits.minted[depositId]? with
  | some minted => .minted minted.mintBlockIndex minted.mintedAmount
  | none =>
  match deposits.dropped[depositId]? with
  | some dropped => .dropped dropped.signature
  | none =>
  match deposits.quarantined[depositId]? with
  | some quarantined => .quarantined quarantined.deposit.signature
  | none => .notFound

/-- The deposit of the account that is in flight; it panics on a deposit that must have released its
account. -/
def inFlight (deposits : Deposits) (account : Account) : Except Panic (Option InFlightDeposit) :=
  match deposits.inFlightId account with
  | none => .ok none
  | some depositId =>
      match deposits.status depositId with
      | .queued .. | .swept .. | .finalized .. => .ok (some (.processing depositId))
      | .quarantined .. => .ok (some (.quarantined depositId))
      | .dropped .. | .minted .. | .notFound => .error (.inFlightDepositReleased depositId account)

/-! ## Transitions -/

/-- A queued deposit takes the next id, reserves its account and ends the watch. -/
def queue (deposits : Deposits) (depositId : DepositSolId) (deposit : QueuedDeposit)
    (queuedAt : Timestamp) : Except Panic Deposits := do
  check (depositId = deposits.nextId) (.queuedOutOfSequence depositId deposits.nextId)
  check (deposits.inFlightIds[deposit.account.key]? = none) (.accountAlreadyInFlight deposit.account)
  let watchlist ← deposits.watchlist.remove deposit.account
  return { deposits with
    inFlightIds := deposits.inFlightIds.insert deposit.account.key depositId
    latestIds := deposits.latestIds.insert deposit.account.key depositId
    watchlist
    queued := deposits.queued.insert depositId deposit
    queuedAtById := deposits.queuedAtById.insert depositId queuedAt
    nextId := deposits.nextId + 1 }

/-- Takes the given deposits out of the queue. -/
def takeQueued (queued : OrdMap DepositSolId QueuedDeposit) (depositIds : List DepositSolId) :
    Except Panic (OrdMap DepositSolId QueuedDeposit × List (DepositSolId × QueuedDeposit)) :=
  depositIds.foldlM
    (fun (queued, taken) depositId => do
      let deposit ← orPanic queued[depositId]? (.sweepOfUnknownDeposit depositId)
      return (queued.erase depositId, taken ++ [(depositId, deposit)]))
    (queued, [])

/-- Moves the queued deposits to the sweep submitted with the message and signature, and returns the
amount the sweep transfers to the main account. -/
def sweep [SolanaSdk] (deposits : Deposits) (depositIds : List DepositSolId)
    (minterAddress : Address) (message : Message) (signature : Signature) :
    Except Panic (Deposits × Lamport) := do
  check (depositIds ≠ []) (.sweepOfNoDeposits signature)
  let (queued, taken) ← takeQueued deposits.queued depositIds
  let recovered ← Sweep.recover taken minterAddress message
  match recovered with
  | .error (.unexpectedMessage planned submitted) =>
      throw (.unexpectedSweepMessage signature planned submitted)
  | .ok sweep =>
      let swept ← deposits.swept.insert signature sweep
      return ({ deposits with queued, swept }, sweep.expectedReceived)

/-- Only the deposit that reserves an account releases it. -/
def releaseInFlight (deposits : Deposits) (depositId : DepositSolId) (account : Account) :
    Except Panic Deposits := do
  check (deposits.inFlightIds[account.key]? = some depositId)
    (.notTheInFlightDeposit depositId account)
  return { deposits with inFlightIds := deposits.inFlightIds.erase account.key }

/-- Drops every deposit of the given swept sweep and releases their accounts. -/
def dropSwept (deposits : Deposits) (signature : Signature) : Except Panic Deposits := do
  let (sweep, swept) ← orPanic (deposits.swept.remove signature) (.dropOfSweepNotSwept signature)
  sweep.deposits.toList.foldlM
    (fun deposits (depositId, deposit) => do
      let deposits ← deposits.releaseInFlight depositId deposit.account
      return { deposits with
        queuedAtById := deposits.queuedAtById.erase depositId
        dropped := deposits.dropped.insert depositId ⟨deposit, signature⟩ })
    { deposits with swept }

/-- Moves every deposit of the given finalized sweep to the quarantine, keeping their accounts in
flight. -/
def quarantineSweep (deposits : Deposits) (signature : Signature) : Except Panic Deposits := do
  let (sweep, finalized) ← orPanic (deposits.finalized.remove signature)
    (.quarantineOfSweepNotFinalized signature)
  return { deposits with
    finalized
    quarantined := deposits.quarantined.insertAll
      (sweep.deposits.toList.map fun entry => (entry.1, ⟨⟨entry.2, signature⟩, .sweepUnreadable⟩))
    queuedAtById := deposits.queuedAtById.eraseAll sweep.deposits.keys }

/-- A sweep that succeeded waits to be settled. -/
def finalizeSwept (deposits : Deposits) (signature : Signature) : Except Panic Deposits := do
  let (sweep, swept) ← orPanic (deposits.swept.remove signature)
    (.finalizeOfSweepNotSwept signature)
  let finalized ← deposits.finalized.insert signature sweep
  return { deposits with swept, finalized }

/-- The pending mint of one credited deposit. -/
def creditDeposit (sweep : Sweep) (signature : Signature) (timestamp : Timestamp)
    (pendingMints : OrdMap DepositSolId PendingMint) (mint : CreditedDeposit) :
    Except Panic (OrdMap DepositSolId PendingMint) := do
  let deposit ← orPanic sweep.deposits[mint.depositId]?
    (.creditOfForeignDeposit mint.depositId signature)
  check (mint.amountToMint ≤ deposit.sweepableAmount)
    (.mintBeyondSweepableAmount mint.amountToMint mint.depositId deposit.sweepableAmount)
  check (mint.depositId ∉ pendingMints) (.creditOfDepositTwice mint.depositId signature)
  return pendingMints.insert mint.depositId ⟨⟨deposit, signature⟩, mint.amountToMint, timestamp⟩

/-- Moves every deposit of the given finalized sweep to the pending mints, each with the amount its
mint carries, and returns the credited sweep. -/
def creditSweep (deposits : Deposits) (signature : Signature) (mints : List CreditedDeposit)
    (timestamp : Timestamp) : Except Panic (Deposits × Sweep) := do
  let (sweep, finalized) ← orPanic (deposits.finalized.remove signature)
    (.creditOfSweepNotFinalized signature)
  check (mints.length = sweep.depositCount)
    (.creditWithWrongMintCount signature mints.length sweep.depositCount)
  let pendingMints ← mints.foldlM (creditDeposit sweep signature timestamp) deposits.pendingMints
  return ({ deposits with finalized, pendingMints }, sweep)

/-- A minted deposit is done, and its account is free again. -/
def mint (deposits : Deposits) (depositId : DepositSolId) (mintBlockIndex : LedgerMintIndex) :
    Except Panic Deposits := do
  let pending ← orPanic deposits.pendingMints[depositId]? (.mintWithoutPendingMint depositId)
  let deposits := { deposits with pendingMints := deposits.pendingMints.erase depositId }
  let deposits ← deposits.releaseInFlight depositId pending.account
  return { deposits with
    queuedAtById := deposits.queuedAtById.erase depositId
    minted := deposits.minted.insert depositId
      ⟨pending.deposit, pending.amountToMint, mintBlockIndex⟩ }

/-- The account of a quarantined deposit stays reserved. -/
def quarantinePendingMint (deposits : Deposits) (depositId : DepositSolId) :
    Except Panic Deposits := do
  let pending ← orPanic deposits.pendingMints[depositId]? (.quarantineWithoutPendingMint depositId)
  return { deposits with
    pendingMints := deposits.pendingMints.erase depositId
    queuedAtById := deposits.queuedAtById.erase depositId
    quarantined := deposits.quarantined.insert depositId
      ⟨pending.deposit, .mintUnresolved pending.amountToMint pending.createdAtTime⟩ }

/-! ## What each transition does -/

variable {deposits deposits' : Deposits}

/-- The deposits taken are those of the ids, in their order, each id given once. -/
theorem takeQueued_eq_ok {queued queued' : OrdMap DepositSolId QueuedDeposit}
    {depositIds : List DepositSolId} {taken : List (DepositSolId × QueuedDeposit)}
    (h : takeQueued queued depositIds = .ok (queued', taken)) :
    depositIds.Nodup ∧ taken.map Prod.fst = depositIds ∧
      (∀ entry ∈ taken, queued[entry.1]? = some entry.2) ∧
      queued' = queued.eraseAll depositIds := by
  refine foldlM_invariant
    (P := fun done (result : OrdMap DepositSolId QueuedDeposit × List (DepositSolId × QueuedDeposit)) =>
      done.Nodup ∧ result.2.map Prod.fst = done ∧
      (∀ entry ∈ result.2, queued[entry.1]? = some entry.2) ∧
      result.1 = queued.eraseAll done) ?_ ?_ h
  · exact ⟨List.nodup_nil, rfl, by simp, rfl⟩
  · rintro done ⟨queued₁, taken₁⟩ id ⟨queued₂, taken₂⟩ ⟨hnodup, hids, hget, hqueued⟩ hstep
    simp only [bind_eq_ok, orPanic_eq_ok, pure_eq_ok, Prod.mk.injEq] at hstep hids hget hqueued ⊢
    obtain ⟨deposit, hdeposit, rfl, rfl⟩ := hstep
    rw [hqueued, OrdMap.getElem?_eraseAll] at hdeposit
    split at hdeposit
    · cases hdeposit
    case isFalse hnew =>
      refine ⟨?_, ?_, ?_, ?_⟩
      · refine List.nodup_append.mpr ⟨hnodup, List.nodup_singleton _, ?_⟩
        rintro a ha b hb rfl
        obtain rfl : a = id := List.mem_singleton.mp hb
        exact hnew ha
      · rw [List.map_append, hids]
        rfl
      · intro entry hentry
        rcases List.mem_append.mp hentry with hentry | hentry
        · exact hget entry hentry
        · rw [List.mem_singleton.mp hentry]
          exact hdeposit
      · rw [hqueued, OrdMap.eraseAll_append]
        rfl

theorem queue_eq_ok {deposit : QueuedDeposit} {queuedAt : Timestamp}
    (h : deposits.queue depositId deposit queuedAt = .ok deposits') :
    depositId = deposits.nextId ∧ deposits.inFlightIds[deposit.account.key]? = none ∧
      ∃ watchlist, deposits.watchlist.remove deposit.account = .ok watchlist ∧
        deposits' = { deposits with
          inFlightIds := deposits.inFlightIds.insert deposit.account.key depositId
          latestIds := deposits.latestIds.insert deposit.account.key depositId
          watchlist
          queued := deposits.queued.insert depositId deposit
          queuedAtById := deposits.queuedAtById.insert depositId queuedAt
          nextId := deposits.nextId + 1 } := by
  simp only [queue, bind_eq_ok, check_eq_ok, pure_eq_ok] at h
  obtain ⟨-, rfl, -, hfree, watchlist, hwatchlist, rfl⟩ := h
  exact ⟨rfl, hfree, watchlist, hwatchlist, rfl⟩

/-- A recorded sweep is the plan of deposits that were queued, and the plan builds its message. -/
theorem sweep_eq_ok [SolanaSdk] {depositIds : List DepositSolId} {minterAddress : Address}
    {message : Message} {amount : Lamport}
    (h : deposits.sweep depositIds minterAddress message signature = .ok (deposits', amount)) :
    ∃ taken sweep,
      depositIds.Nodup ∧ taken.map Prod.fst = depositIds ∧
      (∀ entry ∈ taken, deposits.queued[entry.1]? = some entry.2) ∧
      Sweep.plan taken minterAddress = .ok sweep ∧
      message = sweep.sweepMessage message.recentBlockhash ∧
      deposits.swept.bySignature[signature]? = none ∧
      deposits' = { deposits with
        queued := deposits.queued.eraseAll depositIds
        swept := ⟨deposits.swept.bySignature.insert signature sweep⟩ } := by
  simp only [Deposits.sweep, bind_eq_ok, check_eq_ok] at h
  obtain ⟨-, -, ⟨queued, taken⟩, htaken, recovered, hrecovered, h⟩ := h
  obtain ⟨hnodup, hids, hget, rfl⟩ := takeQueued_eq_ok htaken
  split at h
  · cases h
  case h_2 sweep =>
    simp only [bind_eq_ok, pure_eq_ok, Prod.mk.injEq] at h
    obtain ⟨swept, hswept, rfl, -⟩ := h
    obtain ⟨hplan, hmessage⟩ := Sweep.recover_eq_ok hrecovered
    obtain ⟨hsignature, -, rfl⟩ := Sweeps.insert_eq_ok hswept
    exact ⟨taken, sweep, hnodup, hids, hget, hplan, hmessage, hsignature, rfl⟩

/-- What dropping a sweep does to the indexes. -/
theorem dropSwept_eq_ok (h : deposits.dropSwept signature = .ok deposits') :
    ∃ sweep, deposits.swept.bySignature[signature]? = some sweep ∧
      (∀ entry ∈ sweep.deposits.toList,
        deposits.inFlightIds[entry.2.account.key]? = some entry.1) ∧
      deposits' = { deposits with
        swept := ⟨deposits.swept.bySignature.erase signature⟩
        inFlightIds := deposits.inFlightIds.eraseAll
          (sweep.deposits.toList.map fun entry => entry.2.account.key)
        queuedAtById := deposits.queuedAtById.eraseAll (sweep.deposits.toList.map Prod.fst)
        dropped := deposits.dropped.insertAll
          (sweep.deposits.toList.map fun entry => (entry.1, ⟨entry.2, signature⟩)) } := by
  simp only [dropSwept, bind_eq_ok, orPanic_eq_ok] at h
  obtain ⟨⟨sweep, swept⟩, hremove, h⟩ := h
  obtain ⟨hsweep, rfl⟩ := Sweeps.remove_eq_some hremove
  refine ⟨sweep, hsweep, foldlM_invariant (P := fun done result =>
    (∀ entry ∈ done, deposits.inFlightIds[entry.2.account.key]? = some entry.1) ∧
      result = { deposits with
        swept := ⟨deposits.swept.bySignature.erase signature⟩
        inFlightIds := deposits.inFlightIds.eraseAll (done.map fun entry => entry.2.account.key)
        queuedAtById := deposits.queuedAtById.eraseAll (done.map Prod.fst)
        dropped := deposits.dropped.insertAll
          (done.map fun entry => (entry.1, ⟨entry.2, signature⟩)) }) ?_ ?_ h⟩
  · exact ⟨by simp, rfl⟩
  · rintro done result ⟨id, deposit⟩ result' ⟨hdone, rfl⟩ hstep
    simp only [releaseInFlight, bind_eq_ok, check_eq_ok, pure_eq_ok] at hstep
    obtain ⟨_, ⟨-, hrelease, rfl⟩, rfl⟩ := hstep
    rw [OrdMap.getElem?_eraseAll] at hrelease
    split at hrelease
    · cases hrelease
    · refine ⟨?_, ?_⟩
      · intro entry hentry
        rcases List.mem_append.mp hentry with hentry | hentry
        · exact hdone entry hentry
        · rw [List.mem_singleton.mp hentry]
          exact hrelease
      · simp only [List.map_append, OrdMap.eraseAll_append, OrdMap.insertAll_append]
        rfl

theorem quarantineSweep_eq_ok (h : deposits.quarantineSweep signature = .ok deposits') :
    ∃ sweep, deposits.finalized.bySignature[signature]? = some sweep ∧
      deposits' = { deposits with
        finalized := ⟨deposits.finalized.bySignature.erase signature⟩
        quarantined := deposits.quarantined.insertAll (sweep.deposits.toList.map fun entry =>
          (entry.1, ⟨⟨entry.2, signature⟩, .sweepUnreadable⟩))
        queuedAtById := deposits.queuedAtById.eraseAll sweep.deposits.keys } := by
  simp only [quarantineSweep, bind_eq_ok, orPanic_eq_ok, pure_eq_ok] at h
  obtain ⟨⟨sweep, finalized⟩, hremove, rfl⟩ := h
  obtain ⟨hsweep, rfl⟩ := Sweeps.remove_eq_some hremove
  exact ⟨sweep, hsweep, rfl⟩

theorem finalizeSwept_eq_ok (h : deposits.finalizeSwept signature = .ok deposits') :
    ∃ sweep, deposits.swept.bySignature[signature]? = some sweep ∧
      deposits.finalized.bySignature[signature]? = none ∧
      deposits' = { deposits with
        swept := ⟨deposits.swept.bySignature.erase signature⟩
        finalized := ⟨deposits.finalized.bySignature.insert signature sweep⟩ } := by
  simp only [finalizeSwept, bind_eq_ok, orPanic_eq_ok, pure_eq_ok] at h
  obtain ⟨⟨sweep, swept⟩, hremove, finalized, hinsert, rfl⟩ := h
  obtain ⟨hsweep, rfl⟩ := Sweeps.remove_eq_some hremove
  obtain ⟨hnew, -, rfl⟩ := Sweeps.insert_eq_ok hinsert
  exact ⟨sweep, hsweep, hnew, rfl⟩

/-- What the crediting loop leaves after the mints `done`: one fresh pending mint for each of them. -/
structure Credited (sweep : Sweep) (signature : Signature) (timestamp : Timestamp)
    (pendingMints : OrdMap DepositSolId PendingMint) (done : List CreditedDeposit)
    (pendingMints' : OrdMap DepositSolId PendingMint) : Prop where
  nodup : (done.map CreditedDeposit.depositId).Nodup
  fresh : ∀ mint ∈ done, pendingMints[mint.depositId]? = none
  credited : ∀ mint ∈ done, ∃ deposit, sweep.deposits[mint.depositId]? = some deposit ∧
    mint.amountToMint ≤ deposit.sweepableAmount ∧
    pendingMints'[mint.depositId]? = some ⟨⟨deposit, signature⟩, mint.amountToMint, timestamp⟩
  frame : ∀ id ∉ done.map CreditedDeposit.depositId, pendingMints'[id]? = pendingMints[id]?
  sum : pendingMints'.sumBy (·.amountToMint.toNat) =
    pendingMints.sumBy (·.amountToMint.toNat) + (done.map (·.amountToMint.toNat)).sum

/-- What the loop over the mints of a credit does. -/
theorem credited_of_foldlM {sweep : Sweep} {timestamp : Timestamp}
    {pendingMints pendingMints' : OrdMap DepositSolId PendingMint} {mints : List CreditedDeposit}
    (h : mints.foldlM (creditDeposit sweep signature timestamp) pendingMints = .ok pendingMints') :
    Credited sweep signature timestamp pendingMints mints pendingMints' := by
  refine foldlM_invariant (P := Credited sweep signature timestamp pendingMints) ?_ ?_ h
  · exact ⟨List.nodup_nil, by simp, by simp, fun _ _ => rfl, by simp⟩
  · intro done pending₁ mint pending₂ hdone hstep
    simp only [creditDeposit, bind_eq_ok, orPanic_eq_ok, check_eq_ok, pure_eq_ok] at hstep
    obtain ⟨deposit, hdeposit, -, hamount, -, hpending, rfl⟩ := hstep
    rw [OrdMap.not_mem_iff] at hpending
    -- a deposit that was credited before is pending, which the loop checks
    have hnew : mint.depositId ∉ done.map CreditedDeposit.depositId := by
      intro hmem
      obtain ⟨mint', hmint', heq⟩ := List.mem_map.mp hmem
      obtain ⟨deposit', -, -, hsome⟩ := hdone.credited mint' hmint'
      rw [heq, hpending] at hsome
      cases hsome
    constructor
    · rw [List.map_append, List.nodup_append]
      refine ⟨hdone.nodup, List.nodup_singleton _, ?_⟩
      rintro a ha b hb rfl
      obtain rfl : a = mint.depositId := List.mem_singleton.mp hb
      exact hnew ha
    · intro mint' hmint'
      rcases List.mem_append.mp hmint' with hmint' | hmint'
      · exact hdone.fresh mint' hmint'
      · rw [List.mem_singleton.mp hmint', ← hdone.frame _ hnew]
        exact hpending
    · intro mint' hmint'
      rcases List.mem_append.mp hmint' with hmint' | hmint'
      · obtain ⟨deposit', hdeposit', hle, hsome⟩ := hdone.credited mint' hmint'
        have hne : mint.depositId ≠ mint'.depositId :=
          fun heq => hnew (heq ▸ List.mem_map_of_mem hmint')
        exact ⟨deposit', hdeposit', hle, by rw [OrdMap.getElem?_insert_eq, if_neg hne, hsome]⟩
      · rw [List.mem_singleton.mp hmint']
        exact ⟨deposit, hdeposit, hamount, by rw [OrdMap.getElem?_insert_eq, if_pos rfl]⟩
    · intro id hid
      rw [List.map_append, List.mem_append, not_or] at hid
      have hne : mint.depositId ≠ id := fun heq => hid.2 (List.mem_singleton.mpr heq.symm)
      rw [OrdMap.getElem?_insert_eq, if_neg hne, hdone.frame id hid.1]
    · rw [OrdMap.sumBy_insert hpending, hdone.sum, List.map_append, List.sum_append]
      simp only [List.map_cons, List.map_nil, List.sum_cons, List.sum_nil]
      omega

theorem creditSweep_eq_ok {mints : List CreditedDeposit} {timestamp : Timestamp} {sweep : Sweep}
    (h : deposits.creditSweep signature mints timestamp = .ok (deposits', sweep)) :
    deposits.finalized.bySignature[signature]? = some sweep ∧
      mints.length = sweep.depositCount ∧
      ∃ pendingMints, Credited sweep signature timestamp deposits.pendingMints mints pendingMints ∧
        deposits' = { deposits with
          finalized := ⟨deposits.finalized.bySignature.erase signature⟩
          pendingMints } := by
  simp only [creditSweep, bind_eq_ok, orPanic_eq_ok, check_eq_ok, pure_eq_ok, Prod.mk.injEq] at h
  obtain ⟨⟨sweep, finalized⟩, hremove, -, hlength, pendingMints, hfold, rfl, rfl⟩ := h
  obtain ⟨hsweep, rfl⟩ := Sweeps.remove_eq_some hremove
  exact ⟨hsweep, hlength, pendingMints, credited_of_foldlM hfold, rfl⟩

theorem mint_eq_ok {mintBlockIndex : LedgerMintIndex}
    (h : deposits.mint depositId mintBlockIndex = .ok deposits') :
    ∃ pending, deposits.pendingMints[depositId]? = some pending ∧
      deposits.inFlightIds[pending.account.key]? = some depositId ∧
      deposits' = { deposits with
        pendingMints := deposits.pendingMints.erase depositId
        inFlightIds := deposits.inFlightIds.erase pending.account.key
        queuedAtById := deposits.queuedAtById.erase depositId
        minted := deposits.minted.insert depositId
          ⟨pending.deposit, pending.amountToMint, mintBlockIndex⟩ } := by
  simp only [mint, releaseInFlight, bind_eq_ok, orPanic_eq_ok, check_eq_ok, pure_eq_ok] at h
  obtain ⟨pending, hpending, _, ⟨-, hinFlight, rfl⟩, rfl⟩ := h
  exact ⟨pending, hpending, hinFlight, rfl⟩

theorem quarantinePendingMint_eq_ok (h : deposits.quarantinePendingMint depositId = .ok deposits') :
    ∃ pending, deposits.pendingMints[depositId]? = some pending ∧
      deposits' = { deposits with
        pendingMints := deposits.pendingMints.erase depositId
        queuedAtById := deposits.queuedAtById.erase depositId
        quarantined := deposits.quarantined.insert depositId
          ⟨pending.deposit, .mintUnresolved pending.amountToMint pending.createdAtTime⟩ } := by
  simp only [quarantinePendingMint, bind_eq_ok, orPanic_eq_ok, pure_eq_ok] at h
  obtain ⟨pending, hpending, rfl⟩ := h
  exact ⟨pending, hpending, rfl⟩

end Deposits

end Cksol
