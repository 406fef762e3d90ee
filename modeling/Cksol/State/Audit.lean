import Cksol.State.Transitions

/-! # `state/audit` and `lifecycle`

Every change of the persistent state is an event: it is applied to the state and appended to the log,
and an upgrade rebuilds the state from the log.
-/

namespace Cksol

section

variable [SolanaSdk]

/-- Updates the state to reflect the given state transition. -/
def applyStateTransition (state : State) (payload : EventType) (timestamp : Timestamp) :
    Except Panic State :=
  match payload with
  | .init _ => .error .stateReinitialized
  | .upgrade args => (state.upgrade args).mapError fun _ => .upgradeRejected
  | .acceptedWithdrawalRequest request => state.processAcceptedWithdrawal request timestamp
  | .submittedTransaction signature message signers purpose =>
      state.processTransactionSubmitted signature message signers purpose timestamp
  | .succeededTransaction signature => state.processTransactionSucceeded signature
  | .failedTransaction signature => state.processTransactionFailed signature
  | .expiredTransaction signature => state.processTransactionExpired signature
  | .queuedDeposit depositId deposit => state.processQueuedDeposit depositId deposit timestamp
  | .creditedSweep signature amountReceived mints =>
      state.processCreditedSweep signature amountReceived mints timestamp
  | .quarantinedSweep signature => state.processQuarantinedSweep signature
  | .minterPublicKeyFetched key => state.cacheMinterPublicKey key
  | .mintedSweptDeposit depositId mintBlockIndex =>
      state.processMintedSweptDeposit depositId mintBlockIndex
  | .quarantinedPendingMint depositId => state.processQuarantinedPendingMint depositId
  | .createdWithdrawalTransaction burnIndices nonceAccount nonceValue =>
      state.processTransactionCreated burnIndices nonceAccount nonceValue

/-- The state that the events of a log lead to. -/
def replayEvents : List Event → Except Panic State
  | [] => .error .emptyEventLog
  | ⟨_, .init args⟩ :: events => do
      let state ← (State.tryFrom args).mapError fun _ => .initRejected
      events.foldlM (fun state event => applyStateTransition state event.payload event.timestamp)
        state
  | _ :: _ => .error .firstEventNotInit

end

/-! ## Transient fields

The guards, the active tasks and the watchlist are not recorded by events.
-/

/-- The deposits with another watchlist. -/
def Deposits.withWatchlist (deposits : Deposits) (watchlist : Watchlist) : Deposits :=
  { deposits with watchlist }

namespace State

/-- The fields that events do not record. -/
structure Transient where
  depositSolGuards : List AccountKey
  withdrawalGuards : List AccountKey
  watchlist : Watchlist
  activeTasks : List TaskType

/-- The transient fields of a state just built. -/
def Transient.initial : Transient := ⟨[], [], .default, []⟩

def transient (state : State) : Transient where
  depositSolGuards := state.pendingDepositSolRequestGuards
  withdrawalGuards := state.pendingWithdrawalRequestGuards
  watchlist := state.deposits.watchlist
  activeTasks := state.activeTasks

/-- The state with other transient fields. -/
def withTransient (state : State) (transient : Transient) : State :=
  { state with
    pendingDepositSolRequestGuards := transient.depositSolGuards
    pendingWithdrawalRequestGuards := transient.withdrawalGuards
    deposits := state.deposits.withWatchlist transient.watchlist
    activeTasks := transient.activeTasks }

/-- The part of the state that the log determines. -/
def persistent (state : State) : State :=
  state.withTransient .initial

end State

/-! ## The canister -/

/-- What the canister keeps: the state on the heap and the event log in stable memory. -/
structure Canister where
  state : State
  log : List Event

namespace Canister

/-- A change of the transient fields only. -/
def updateTransient (canister : Canister) (f : State.Transient → State.Transient) : Canister :=
  { canister with state := canister.state.withTransient (f canister.state.transient) }

variable [SolanaSdk]

/-- Records the event in the log and updates the state to reflect the change. -/
def processEvent (canister : Canister) (payload : EventType) (now : Timestamp) :
    Except Panic Canister := do
  let state ← applyStateTransition canister.state payload now
  return ⟨state, canister.log ++ [⟨now, payload⟩]⟩

/-- `lifecycle::init`. -/
def init (args : InitArgs) (now : Timestamp) : Except Panic Canister := do
  let state ← (State.tryFrom args).mapError fun _ => .initRejected
  return ⟨state, [⟨now, .init args⟩]⟩

/-- What an installation leaves. -/
theorem exists_of_init {args : InitArgs} {now : Timestamp} {canister : Canister}
    (h : init args now = .ok canister) :
    ∃ addresses pool, DurableNoncePool.new addresses = .ok pool ∧
      (State.initial args pool).validate = .ok ⟨⟩ ∧
      canister = ⟨State.initial args pool, [⟨now, .init args⟩]⟩ := by
  simp only [init, bind_eq_ok, mapError_eq_ok, pure_eq_ok] at h
  obtain ⟨state, hstate, rfl⟩ := h
  obtain ⟨addresses, pool, hpool, hvalid, rfl⟩ := State.exists_of_tryFrom hstate
  exact ⟨addresses, pool, hpool, hvalid, rfl⟩

/-- `lifecycle::post_upgrade`. -/
def postUpgrade (canister : Canister) (args : Option UpgradeArgs) (now : Timestamp) :
    Except Panic Canister := do
  let state ← replayEvents canister.log
  let upgraded : Canister := ⟨state, canister.log⟩
  match args with
  | none => return upgraded
  | some args => upgraded.processEvent (.upgrade args) now

end Canister

end Cksol
