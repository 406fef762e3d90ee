import Cksol.Common.Chunks
import Cksol.Guard

/-! # `deposit`

The `deposit_sol` and `watch_deposit_address` endpoints and the rounds of `sweep_queued_deposits`.
Each function is the code between two awaits.
-/

namespace Cksol

open Std

/-! ## `deposit_sol` -/

/-- The errors that `deposit_sol` returns to its caller. -/
inductive DepositSolError where
  | insufficientCycles (expected received : ℕ)
  | temporarilyUnavailable (reason : String)
  | alreadyProcessing
  | valueTooSmall (balance minimumDepositAmount : Lamport)
  | quarantined (depositId : DepositSolId)
deriving DecidableEq

namespace DepositSolError

def ofGuardError : GuardError → DepositSolError
  | .alreadyProcessing => .alreadyProcessing
  | .tooManyConcurrentRequests => .temporarilyUnavailable "too many concurrent requests"

end DepositSolError

/-- `assert_valid_deposit_owner`. -/
def assertValidDepositOwner (account : Account) (minterId : Principal) : Except Panic PUnit :=
  check (account.owner ≠ .anonymous ∧ account.owner ≠ minterId) (.invalidDepositOwner account)

/-- A `deposit_sol` call that awaits the balance of the deposit address, with the parameters it read
when it started. -/
structure DepositSolCall where
  account : Account
  address : Address
  depositSolFee : ℕ
  minimumDepositAmount : Lamport
deriving DecidableEq

/-- How `deposit_sol` goes on after its checks. -/
inductive DepositSolStart where
  | returns (result : Except DepositSolError DepositSolId)
  | awaitsBalance (canister : Canister) (call : DepositSolCall)

/-- The checks of `deposit_sol` that follow the guard; a value is the deposit already in flight. -/
def checkDepositSol (state : State) (account : Account) (availableCycles : ℕ) :
    Except Panic (Except DepositSolError (Option DepositSolId)) := do
  if availableCycles < state.depositSolRequiredCycles then
    return .error (.insufficientCycles state.depositSolRequiredCycles availableCycles)
  else
    match ← state.deposits.inFlight account with
    | some (.processing depositId) => return .ok (some depositId)
    | some (.quarantined depositId) => return .error (.quarantined depositId)
    | none => return .ok none

section

variable [SolanaSdk]

/-- `deposit_sol` up to the read of the balance. -/
def depositSol (canister : Canister) (minterId : Principal) (account : Account)
    (availableCycles : ℕ) : Except Panic DepositSolStart := do
  assertValidDepositOwner account minterId
  let state := canister.state
  match Guard.new state.pendingDepositSolRequestGuards account with
  | .error error => return .returns (.error (.ofGuardError error))
  | .ok guards =>
      match ← checkDepositSol state account availableCycles with
      | .error error => return .returns (.error error)
      | .ok (some depositId) => return .returns (.ok depositId)
      | .ok none =>
          match state.minterPublicKey with
          | none => return .returns (.error (.temporarilyUnavailable
              "the minter public key is not yet available, try again later"))
          | some masterKey =>
              return .awaitsBalance
                (canister.updateTransient fun transient =>
                  { transient with depositSolGuards := guards })
                { account
                  address := accountAddress masterKey account
                  depositSolFee := state.depositSolFee
                  minimumDepositAmount := state.minimumDepositAmount }

/-- The reply to `getBalance`. -/
inductive BalanceReply where
  | balance (balance : Lamport)
  | error (error : String)
deriving DecidableEq

/-- The reply, if it reports a balance that is not below the minimum. -/
def balanceAboveMinimum (reply : BalanceReply) (minimumDepositAmount : Lamport) :
    Except DepositSolError Lamport :=
  match reply with
  | .error error => .error (.temporarilyUnavailable error)
  | .balance balance =>
      if balance < minimumDepositAmount then .error (.valueTooSmall balance minimumDepositAmount)
      else .ok balance

/-- `charge_rpc_call`, with the cycles that were refunded and those the caller lets the minter
accept. -/
def chargeRpcCall (attachedCycles feeOnSuccess refundedCycles acceptedCycles : ℕ)
    (succeeded : Bool) : Except Panic PUnit :=
  let rpcCost := attachedCycles - refundedCycles
  let fee := if succeeded then feeOnSuccess else 0
  check (acceptedCycles = rpcCost + fee) (.cyclesNotReceived (rpcCost + fee) acceptedCycles)

/-- `queue_deposit`: queues the deposit under the next id. -/
def queueDeposit (canister : Canister) (deposit : QueuedDeposit) (now : Timestamp) :
    Except Panic (Canister × DepositSolId) := do
  let depositId := canister.state.deposits.nextId
  let canister ← canister.processEvent (.queuedDeposit depositId deposit) now
  return (canister, depositId)

/-- `deposit_sol` after the read of the balance. -/
def depositSolBalance (canister : Canister) (call : DepositSolCall) (reply : BalanceReply)
    (refundedCycles acceptedCycles : ℕ) (now : Timestamp) :
    Except Panic (Canister × Except DepositSolError DepositSolId) := do
  let result := balanceAboveMinimum reply call.minimumDepositAmount
  chargeRpcCall getBalanceCycles call.depositSolFee refundedCycles acceptedCycles result.isOk
  match result with
  | .error error => return (canister.dropDepositSolGuard call.account, .error error)
  | .ok balance =>
      let balance ← orPanic (DepositBalance.new balance) .depositBalanceBelowRent
      let (canister, depositId) ← queueDeposit canister ⟨call.account, call.address, balance, none⟩ now
      return (canister.dropDepositSolGuard call.account, .ok depositId)

/-! ## `watch_deposit_address` -/

/-- The errors of `watch_deposit_address`. -/
inductive WatchDepositAddressError where
  | temporarilyUnavailable (reason : String)
  | tooManyWatchedAddresses (latestDepositId : Option DepositSolId)
  | quarantined (depositId : DepositSolId)

/-- A watched address, or the deposit that was found on it. -/
inductive WatchDepositAddressStatus where
  | watching (watched : WatchedAddress)
  | detected (depositId : DepositSolId)

/-- What a caller of `watch_deposit_address` learns, the fee included. -/
structure WatchDepositAddressOk where
  address : Address
  minimumDepositAmount : Lamport
  automaticDepositFee : Lamport
  status : WatchDepositAddressStatus
  latestDepositId : Option DepositSolId

/-- The status part of `watch_deposit_address`, with the watchlist it leaves. -/
def watchStatus (deposits : Deposits) (account : Account) (address : Address) (now : Timestamp) :
    Except Panic (Watchlist × Except WatchDepositAddressError WatchDepositAddressStatus) := do
  match ← deposits.inFlight account with
  | some (.processing depositId) => return (deposits.watchlist, .ok (.detected depositId))
  | some (.quarantined depositId) => return (deposits.watchlist, .error (.quarantined depositId))
  | none =>
      match ← deposits.watchlist.register now account address with
      | (watchlist, .ok watched) => return (watchlist, .ok (.watching watched))
      | (watchlist, .error _) =>
          return (watchlist, .error (.tooManyWatchedAddresses (deposits.latestId account)))

/-- An account with a deposit in flight is not watched. -/
def watchDepositAddress (canister : Canister) (minterId : Principal) (account : Account)
    (now : Timestamp) :
    Except Panic (Canister × Except WatchDepositAddressError WatchDepositAddressOk) := do
  assertValidDepositOwner account minterId
  let state := canister.state
  match state.minterPublicKey, state.automaticDepositFee with
  | none, _ => return (canister, .error (.temporarilyUnavailable
      "the minter public key is not yet available, try again later"))
  | some _, none => return (canister, .error (.temporarilyUnavailable
      "the automatic deposit fee is not configured"))
  | some masterKey, some automaticDepositFee =>
      let address := accountAddress masterKey account
      let (watchlist, status) ← watchStatus state.deposits account address now
      let canister := canister.updateTransient fun transient => { transient with watchlist }
      return (canister, status.map fun status =>
        { address
          minimumDepositAmount := state.minimumDepositAmount
          automaticDepositFee
          status
          latestDepositId := state.deposits.latestId account })

/-! ## `sweep_queued_deposits` -/

/-- `MAX_DEPOSITS_PER_ROUND`. -/
def maxDepositsPerRound : ℕ := maxDepositsPerSweep * maxConcurrentRpcCalls

/-- `SweepRound::take_from_queue`: the batches of the round. -/
def sweepBatches (state : State) : List (List (DepositSolId × QueuedDeposit)) :=
  chunks maxDepositsPerSweep (state.deposits.queued.toList.take maxDepositsPerRound)

/-- `SweepRound::take_from_queue`: whether more deposits are queued than the round takes. -/
def leavesDepositsQueued (state : State) : Bool :=
  (state.deposits.queued.toList.take (maxDepositsPerRound + 1)).length > maxDepositsPerRound

/-- A recent block: its hash dates messages, its height decides when they expire. -/
structure Block where
  blockhash : Hash
  blockHeight : BlockHeight
deriving DecidableEq

/-- A sweep whose signatures were requested. -/
structure PlannedSweep where
  sweep : Sweep
  message : Message
  signers : List Signer
  blockHeight : BlockHeight

/-- The signers of `sign_sweep_transaction`, in the order of the signatures. -/
def sweepSigners (sweep : Sweep) (message : Message) : Except Panic (List Signer) :=
  let accountsByAddress : OrdMap Address Account :=
    OrdMap.insertAll ∅ (sweep.deposits.values.map fun deposit => (deposit.address, deposit.account))
  (SolanaSdk.signerKeys message).mapM fun key => do
    let account ← orPanic accountsByAddress[key]? (.unknownSweepSigner key)
    return .account account

/-- `submit_sweep_transaction` up to the signing; `none` when the transaction is too large. -/
def planSweep (deposits : List (DepositSolId × QueuedDeposit)) (block : Block)
    (sweepDestination : Address) : Except Panic (Option PlannedSweep) := do
  let sweep ← Sweep.plan deposits sweepDestination
  let message := sweep.sweepMessage block.blockhash
  let signers ← sweepSigners sweep message
  match ensureWithinTransactionSize message with
  | .error _ => return none
  | .ok _ => return some ⟨sweep, message, signers, block.blockHeight⟩

/-- The sweeps of a round once the recent block is known. -/
def planSweeps (batches : List (List (DepositSolId × QueuedDeposit))) (block : Block)
    (sweepDestination : Address) : Except Panic (List PlannedSweep) := do
  let planned ← batches.mapM fun batch => planSweep batch block sweepDestination
  return planned.filterMap id

/-- `submit_sweep_transaction` after the signing; the first signature names the transaction, and
`none` stands for a failed signing. -/
def recordSweep (canister : Canister) (planned : PlannedSweep) (reply : Option Signature)
    (now : Timestamp) : Except Panic Canister :=
  match reply with
  | none => .ok canister
  | some signature =>
      canister.processEvent (.submittedTransaction signature planned.message planned.signers
        (.sweepDeposit planned.sweep.deposits.keys planned.blockHeight)) now

/-- `submit_sweep_transaction` after the signing, with the transaction that it passes to
`submit_transaction` once the event is recorded. -/
def submitSweepTransaction (canister : Canister) (planned : PlannedSweep)
    (reply : Option Signature) (now : Timestamp) :
    Except Panic (Canister × List (Signature × Message)) := do
  let canister ← recordSweep canister planned reply now
  return (canister, reply.toList.map fun signature => (signature, planned.message))

end

end Cksol
