import Cksol.Solana.Transfer
import Cksol.State.Deposits
import Cksol.State.Event
import Cksol.State.NoncePool
import Cksol.Utils.InsertionOrderedMap

/-! # `state`

The state of the minter and its transitions. A transition that panics undoes itself, so each is a
function to `Except Panic State`.
-/

namespace Cksol

open Std

/-- A request, with the time at which it was accepted. -/
structure PendingWithdrawalRequest where
  request : WithdrawalRequest
  createdAt : Timestamp
deriving DecidableEq

/-- A withdrawal request that was submitted in a Solana transaction. -/
structure SentWithdrawalRequest where
  request : WithdrawalRequest
  signature : Signature
  createdAt : Timestamp
deriving DecidableEq

/-- The binding of a nonce value to the withdrawal requests of a transaction whose threshold
signature was not yet recorded. -/
structure CreatedWithdrawalTransaction where
  nonceValue : Hash
  burnIndices : List LedgerBurnIndex
deriving DecidableEq

/-- The timers, each of which runs at most one round. -/
inductive TaskType where
  | sweepDeposits
  | mint
  | finalizeTransactions
  | withdrawalProcessing
deriving DecidableEq

/-- A submitted transaction, with what tells whether it can still land. -/
inductive MinterTransaction where
  | sweepDeposit (blockHeight : BlockHeight)
  | withdrawal (message : Message) (nonceAccount : Address) (nonceValue : Hash)
      (submittedAt : Timestamp)
deriving DecidableEq

/-- The outcome of a finalized withdrawal. -/
inductive TxFinalizedStatus where
  | success (transactionId : Signature)
  | failure (transactionId : Signature)
deriving DecidableEq

/-- What `withdraw_sol_status` answers. -/
inductive WithdrawSolStatus where
  | notFound
  | pending
  | txSent (transactionId : Signature)
  | txFinalized (status : TxFinalizedStatus)
deriving DecidableEq

/-- What a replay of the events rebuilds, and the guards and the watchlist, which it does not. -/
structure State where
  minterPublicKey : Option SchnorrPublicKey
  masterKeyName : Ed25519KeyName
  ledgerCanisterId : Principal
  solRpcCanisterId : Principal
  solanaNetwork : SolanaNetwork
  withdrawalFee : Lamport
  minimumWithdrawalAmount : Lamport
  minimumDepositAmount : Lamport
  depositSolRequiredCycles : ℕ
  depositSolFee : ℕ
  automaticDepositFee : Option Lamport
  collectedAutomaticDepositFees : Lamport
  pendingDepositSolRequestGuards : List AccountKey
  pendingWithdrawalRequestGuards : List AccountKey
  deposits : Deposits
  pendingWithdrawalRequests : OrdMap LedgerBurnIndex PendingWithdrawalRequest
  createdWithdrawalRequests : OrdMap LedgerBurnIndex PendingWithdrawalRequest
  sentWithdrawalRequests : OrdMap LedgerBurnIndex SentWithdrawalRequest
  successfulWithdrawalRequests : OrdMap LedgerBurnIndex SentWithdrawalRequest
  failedWithdrawalRequests : OrdMap LedgerBurnIndex SentWithdrawalRequest
  submittedTransactions : InsertionOrderedMap Signature MinterTransaction
  createdWithdrawalTxs : OrdMap Address CreatedWithdrawalTransaction
  succeededTransactions : OrdSet Signature
  failedTransactions : InsertionOrderedMap Signature MinterTransaction
  noncePool : DurableNoncePool
  activeTasks : List TaskType
  balance : Lamport

/-! ## Parameters -/

/-- Why parameters are rejected, with the values that were compared. -/
inductive InvalidStateError where
  | invalidCanisterId (text : String)
  | invalidMinimumDepositAmount
      (minimumDepositAmount maximumSweepFee rentExemptionThreshold : Lamport)
  | minimumDepositAmountLeavesMainAddressBelowRent
      (minimumDepositAmount rentExemptionThreshold feePerSignature : Lamport)
  | invalidMinimumWithdrawalAmount
      (minimumWithdrawalAmount withdrawalFee rentExemptionThreshold : Lamport)
  | depositSolRequiredCyclesTooLow (requiredCycles getBalanceCycles depositSolFee : ℕ)
  | automaticDepositFeeTooHigh (automaticDepositFee maxAutomaticDepositFee : Lamport)
  | invalidNonceAccount (text : String)
  | duplicateNonceAccount (address : Address)
  | nonceAccountIsWithdrawalDestination (address : Address)
deriving DecidableEq

namespace InvalidStateError

def ofNoncePoolError : NoncePoolError → InvalidStateError
  | .duplicateAccount address => .duplicateNonceAccount address

end InvalidStateError

/-- The first text that is not an address is reported. -/
def parseNonceAccounts [SolanaSdk] (addresses : List String) :
    Except InvalidStateError (List Address) :=
  addresses.mapM fun address =>
    (SolanaSdk.addressFromStr address).mapError fun error =>
      .invalidNonceAccount s!"ERROR: failed to parse nonce account {address}: {error}"

namespace State

/-- What a minimal deposit leaves once the fee and the rent are paid for. -/
def maxAutomaticDepositFee (state : State) : Lamport :=
  saturatingSub (saturatingSub (saturatingSub state.minimumDepositAmount rentExemptionThreshold)
    feePerSignature) 1

/-- The parameter constraints; sums of lamports wrap as in the release build. -/
def validate (state : State) : Except InvalidStateError PUnit := do
  check (.anonymous ∉ [state.solRpcCanisterId, state.ledgerCanisterId])
    (.invalidCanisterId "ERROR: anonymous principal is not accepted!")
  check (state.solRpcCanisterId ≠ state.ledgerCanisterId)
    (.invalidCanisterId "ERROR: provided canister IDs are not distinct!")
  let maximumSweepFee := UInt64.ofNat maxSignatures * feePerSignature
  check (maximumSweepFee + rentExemptionThreshold ≤ state.minimumDepositAmount)
    (.invalidMinimumDepositAmount state.minimumDepositAmount maximumSweepFee rentExemptionThreshold)
  check (2 * rentExemptionThreshold + feePerSignature ≤ state.minimumDepositAmount)
    (.minimumDepositAmountLeavesMainAddressBelowRent state.minimumDepositAmount
      rentExemptionThreshold feePerSignature)
  check (state.withdrawalFee + rentExemptionThreshold ≤ state.minimumWithdrawalAmount)
    (.invalidMinimumWithdrawalAmount state.minimumWithdrawalAmount state.withdrawalFee
      rentExemptionThreshold)
  check (getBalanceCycles + state.depositSolFee ≤ state.depositSolRequiredCycles)
    (.depositSolRequiredCyclesTooLow state.depositSolRequiredCycles getBalanceCycles
      state.depositSolFee)
  if let some automaticDepositFee := state.automaticDepositFee then
    check (automaticDepositFee ≤ state.maxAutomaticDepositFee)
      (.automaticDepositFeeTooHigh automaticDepositFee state.maxAutomaticDepositFee)

/-- The state that `State::try_from` builds over a new pool, before it is validated. -/
@[simps]
def initial (args : InitArgs) (noncePool : DurableNoncePool) : State where
  minterPublicKey := none
  masterKeyName := args.masterKeyName
  ledgerCanisterId := args.ledgerCanisterId
  solRpcCanisterId := args.solRpcCanisterId
  solanaNetwork := args.solanaNetwork
  withdrawalFee := args.withdrawalFee
  minimumWithdrawalAmount := args.minimumWithdrawalAmount
  minimumDepositAmount := args.minimumDepositAmount
  depositSolRequiredCycles := args.depositSolRequiredCycles.toNat
  depositSolFee := args.depositSolFee.toNat
  automaticDepositFee := args.automaticDepositFee
  collectedAutomaticDepositFees := 0
  pendingDepositSolRequestGuards := []
  pendingWithdrawalRequestGuards := []
  deposits := .default
  pendingWithdrawalRequests := ∅
  createdWithdrawalRequests := ∅
  sentWithdrawalRequests := ∅
  successfulWithdrawalRequests := ∅
  failedWithdrawalRequests := ∅
  submittedTransactions := .new
  createdWithdrawalTxs := ∅
  succeededTransactions := ∅
  failedTransactions := .new
  noncePool
  activeTasks := []
  balance := 0

/-- `State::try_from`. -/
def tryFrom [SolanaSdk] (args : InitArgs) : Except InvalidStateError State := do
  let addresses ← parseNonceAccounts args.nonceAccounts
  let noncePool ← (DurableNoncePool.new addresses).mapError .ofNoncePoolError
  let state := initial args noncePool
  state.validate
  return state

/-- A state is built over a new pool, and valid. -/
theorem exists_of_tryFrom [SolanaSdk] {args : InitArgs} {state : State} (h : tryFrom args = .ok state) :
    ∃ addresses pool, DurableNoncePool.new addresses = .ok pool ∧ state.validate = .ok ⟨⟩ ∧
      state = initial args pool := by
  simp only [tryFrom, bind_eq_ok, mapError_eq_ok, pure_eq_ok] at h
  obtain ⟨addresses, -, pool, hpool, ⟨⟩, hvalid, rfl⟩ := h
  exact ⟨addresses, pool, hpool, hvalid, rfl⟩

/-- The destinations of the withdrawals that are not finalized. -/
def incompleteDestinations (state : State) : List Address :=
  (state.pendingWithdrawalRequests.values ++ state.createdWithdrawalRequests.values).map
      (·.request.solanaAddress) ++
    state.sentWithdrawalRequests.values.map (·.request.solanaAddress)

/-- An address may only join the nonce pool once no incomplete withdrawal targets it. -/
def ensureNoIncompleteWithdrawalTo (state : State) (nonceAccounts : List Address) :
    Except InvalidStateError PUnit :=
  match nonceAccounts.find? (· ∈ state.incompleteDestinations) with
  | some address => .error (.nonceAccountIsWithdrawalDestination address)
  | none => .ok ⟨⟩

/-- The state with the parameters that the arguments set. -/
def withParameters (state : State) (args : UpgradeArgs) : State :=
  { state with
    solRpcCanisterId := args.solRpcCanisterId.getD state.solRpcCanisterId
    withdrawalFee := args.withdrawalFee.getD state.withdrawalFee
    minimumWithdrawalAmount := args.minimumWithdrawalAmount.getD state.minimumWithdrawalAmount
    minimumDepositAmount := args.minimumDepositAmount.getD state.minimumDepositAmount
    depositSolRequiredCycles :=
      (args.depositSolRequiredCycles.map UInt64.toNat).getD state.depositSolRequiredCycles
    depositSolFee := (args.depositSolFee.map UInt64.toNat).getD state.depositSolFee
    automaticDepositFee := args.automaticDepositFee <|> state.automaticDepositFee }

/-- The nonce pool with the accounts that the arguments add. -/
def extendedNoncePool [SolanaSdk] (state : State) (args : UpgradeArgs) :
    Except InvalidStateError DurableNoncePool :=
  match args.nonceAccountsToAdd with
  | none => .ok state.noncePool
  | some texts => do
      let nonceAccounts ← parseNonceAccounts texts
      state.ensureNoIncompleteWithdrawalTo nonceAccounts
      (state.noncePool.addAccounts nonceAccounts).mapError .ofNoncePoolError

/-- New parameters are validated together with those that stay. -/
def upgrade [SolanaSdk] (state : State) (args : UpgradeArgs) : Except InvalidStateError State := do
  let state := state.withParameters args
  let noncePool ← state.extendedNoncePool args
  let state := { state with noncePool }
  state.validate
  return state

/-- The maps are looked up in the order of the stages. -/
def withdrawalStatus (state : State) (burnIndex : LedgerBurnIndex) : WithdrawSolStatus :=
  if burnIndex ∈ state.pendingWithdrawalRequests ∨ burnIndex ∈ state.createdWithdrawalRequests then
    .pending
  else
  match state.sentWithdrawalRequests[burnIndex]? with
  | some sent => .txSent sent.signature
  | none =>
  match state.successfulWithdrawalRequests[burnIndex]? with
  | some sent => .txFinalized (.success sent.signature)
  | none =>
  match state.failedWithdrawalRequests[burnIndex]? with
  | some sent => .txFinalized (.failure sent.signature)
  | none => .notFound

end State

end Cksol
