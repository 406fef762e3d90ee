import Mathlib.Data.List.Sort
import Cksol.Common.Chunks
import Cksol.Guard
import Cksol.Solana.NonceAccount

/-! # `withdraw`

The `withdraw` endpoint and the rounds of `process_pending_withdrawals`. Each function is the code
between two awaits: it takes the reply to the call that was awaited, and what the task kept across
the await is a parameter.
-/

namespace Cksol

open Std

/-! ## The burn on the ledger -/

/-- The errors of `icrc2_transfer_from`. -/
inductive TransferFromError where
  | badFee (expectedFee : ℕ)
  | badBurn (minBurnAmount : ℕ)
  | insufficientFunds (balance : ℕ)
  | insufficientAllowance (allowance : ℕ)
  | tooOld
  | createdInFuture (ledgerTime : Timestamp)
  | duplicate (duplicateOf : ℕ)
  | temporarilyUnavailable
  | genericError (errorCode : ℕ) (message : String)
deriving DecidableEq

/-- The reply to `icrc2_transfer_from`. -/
inductive BurnReply where
  | blockIndex (blockIndex : ℕ)
  | error (error : TransferFromError)
  | callError (error : String)
deriving DecidableEq

/-- The errors that `withdraw_sol` returns to its caller. -/
inductive WithdrawSolError where
  | alreadyProcessing
  | valueTooSmall (minimumWithdrawalAmount withdrawalAmount : Lamport)
  | malformedAddress (error : String)
  | invalidDestination (reason : String)
  | insufficientFunds (balance : Lamport)
  | insufficientAllowance (allowance : Lamport)
  | temporarilyUnavailable (reason : String)
deriving DecidableEq

namespace WithdrawSolError

def ofGuardError : GuardError → WithdrawSolError
  | .alreadyProcessing => .alreadyProcessing
  | .tooManyConcurrentRequests => .temporarilyUnavailable "too many concurrent requests"

end WithdrawSolError

/-- A natural number of the ledger that has to fit in a `u64`. -/
def toU64 (n : ℕ) (panic : Panic) : Except Panic UInt64 :=
  if n < 2 ^ 64 then .ok (UInt64.ofNat n) else .error panic

/-- A number as `candid::Nat` prints it, with its digits in groups of three. -/
def displayNat (n : ℕ) : String :=
  let groups := (chunks 3 (Nat.toDigits 10 n).reverse).reverse
  "_".intercalate (groups.map fun group => String.ofList group.reverse)

example : displayNat 1234567 = "1_234_567" := by decide +kernel

/-- `parse_burn_transfer_from_error`, with the conversion to the error of `withdraw`. -/
def parseBurnTransferFromError : TransferFromError → Except Panic WithdrawSolError
  | .insufficientFunds balance => do
      let balance ← toU64 balance (.amountBeyondU64 balance)
      return .insufficientFunds balance
  | .insufficientAllowance allowance => do
      let allowance ← toU64 allowance (.amountBeyondU64 allowance)
      return .insufficientAllowance allowance
  | .temporarilyUnavailable =>
      .ok (.temporarilyUnavailable "Ledger is temporarily unavailable")
  | .genericError errorCode message =>
      let errorCode := displayNat errorCode
      .ok (.temporarilyUnavailable
        s!"Ledger returned a generic error: code {errorCode}, message: {message}")
  | .badFee _ | .badBurn _ | .tooOld | .createdInFuture _ | .duplicate _ =>
      .error .unexpectedBurnError

/-- `burn`, once the ledger has replied. -/
def burn : BurnReply → Except Panic (Except WithdrawSolError LedgerBurnIndex)
  | .blockIndex blockIndex => do
      let _ ← toU64 blockIndex (.blockIndexBeyondU64 blockIndex)
      return .ok blockIndex
  | .error error => do
      let error ← parseBurnTransferFromError error
      return .error error
  | .callError error => .ok (.error (.temporarilyUnavailable s!"Failed to burn tokens: {error}"))

/-! ## `withdraw` -/

/-- A `withdraw` call that awaits the reply of the ledger. -/
structure WithdrawCall where
  account : Account
  amountToBurn : Lamport
  solanaAddress : Address
deriving DecidableEq

section

variable [SolanaSdk]

/-- The destination is neither reserved nor a nonce account or the main address of the minter. -/
def validateDestination (state : State) (destination : Address) : Except WithdrawSolError PUnit := do
  let text := SolanaSdk.addressToString destination
  check (destination ∉ SolanaSdk.reservedAccountKeys)
    (.invalidDestination s!"{text} is an account key reserved by the Solana runtime")
  check (¬ state.noncePool.contains destination)
    (.invalidDestination s!"{text} is a durable nonce account of the ckSOL minter")
  let masterKey ← orPanic state.minterPublicKey (.temporarilyUnavailable
    "the minter public key is not yet available, try again later")
  check (destination ≠ minterAddress masterKey)
    (.invalidDestination s!"{text} is the ckSOL minter's main address")

def validateNoncePoolNotEmpty (state : State) : Except WithdrawSolError PUnit :=
  check (¬ state.noncePool.isEmpty) (.temporarilyUnavailable
    "The durable nonce account pool is empty, no withdrawal can be processed")

/-- `withdraw` up to the burn: the checks of the arguments and the guard. -/
def withdraw (canister : Canister) (account : Account) (amountToBurn : Lamport) (address : String) :
    Except WithdrawSolError (Canister × WithdrawCall) := do
  let state := canister.state
  check (state.minimumWithdrawalAmount ≤ amountToBurn)
    (.valueTooSmall state.minimumWithdrawalAmount amountToBurn)
  let solanaAddress ← (SolanaSdk.addressFromStr address).mapError .malformedAddress
  validateDestination state solanaAddress
  validateNoncePoolNotEmpty state
  let guards ← (Guard.new state.pendingWithdrawalRequestGuards account).mapError .ofGuardError
  return (canister.updateTransient fun transient => { transient with withdrawalGuards := guards },
    ⟨account, amountToBurn, solanaAddress⟩)

/-- `withdraw` after the burn: a successful one is recorded with the fee in force now. -/
def withdrawBurned (canister : Canister) (call : WithdrawCall) (reply : BurnReply)
    (now : Timestamp) : Except Panic (Canister × Except WithdrawSolError LedgerBurnIndex) := do
  match ← burn reply with
  | .error error => return (canister.dropWithdrawalGuard call.account, .error error)
  | .ok blockIndex =>
      let amountToTransfer ← orPanic (checkedSub call.amountToBurn canister.state.withdrawalFee)
        .burnedBelowWithdrawalFee
      let canister ← canister.processEvent (.acceptedWithdrawalRequest {
        account := call.account
        solanaAddress := call.solanaAddress
        burnBlockIndex := blockIndex
        burnedAmount := call.amountToBurn
        amountToTransfer }) now
      return (canister.dropWithdrawalGuard call.account, .ok blockIndex)

end

/-! ## Batches of requests -/

/-- `WithdrawalBatches`: the pending requests left to batch and the balance left to pay for them. -/
structure WithdrawalBatches where
  pendingRequests : List PendingWithdrawalRequest
  availableBalance : Lamport

namespace WithdrawalBatches

/-- The loop of `next` with room for `slots` more requests in the batch. -/
def fill (slots : ℕ) (reservedFee : Lamport) (batches : WithdrawalBatches) :
    List WithdrawalRequest × WithdrawalBatches :=
  match slots, batches.pendingRequests with
  | slots + 1, pending :: rest =>
      match (checkedAdd pending.request.amountToTransfer reservedFee).bind
          (checkedSub batches.availableBalance) with
      | some remaining =>
          let filled := fill slots 0 ⟨rest, remaining⟩
          (pending.request :: filled.1, filled.2)
      | none => ([], batches)
  | _, _ => ([], batches)

/-- `Iterator::next` with the iterator that it leaves: the fee of the transaction is paid with the first
request of the batch. -/
def advance (batches : WithdrawalBatches) : Option (List WithdrawalRequest) × WithdrawalBatches :=
  let filled := fill maxWithdrawalsPerNonceTx batchWithdrawalTxFee batches
  (if filled.1.isEmpty then none else some filled.1, filled.2)

/-- The next batch, if there is one. -/
def next (batches : WithdrawalBatches) : Option (List WithdrawalRequest × WithdrawalBatches) :=
  batches.advance.1.map (·, batches.advance.2)

theorem next_eq_some {batches batches' : WithdrawalBatches} {batch : List WithdrawalRequest} :
    batches.next = some (batch, batches') ↔ batch ≠ [] ∧
      fill maxWithdrawalsPerNonceTx batchWithdrawalTxFee batches = (batch, batches') := by
  rw [next, advance]
  generalize fill maxWithdrawalsPerNonceTx batchWithdrawalTxFee batches = filled
  obtain ⟨_ | ⟨request, requests⟩, left⟩ := filled
  · simp only [List.isEmpty_nil, if_true, Option.map_none, reduceCtorEq, Prod.mk.injEq, false_iff]
    rintro ⟨hne, hnil, -⟩
    exact hne hnil.symm
  · simp only [List.isEmpty_cons, Bool.false_eq_true, if_false, Option.map_some, Option.some.injEq,
      Prod.mk.injEq]
    refine ⟨fun ⟨hbatch, hleft⟩ => ⟨?_, hbatch, hleft⟩, And.right⟩
    rw [← hbatch]
    exact List.cons_ne_nil _ _

end WithdrawalBatches

/-- The rent exemption threshold is held back from what batches may spend. -/
def State.withdrawalBatches (state : State) : WithdrawalBatches :=
  ⟨state.pendingWithdrawalRequests.values, saturatingSub state.balance rentExemptionThreshold⟩

/-- Requests that will share a transaction, and the nonce account that they wait for. -/
structure ReservedBatch where
  nonceAccount : Address
  requests : List WithdrawalRequest
deriving DecidableEq

/-- Pairs nonce accounts with batches until either runs out. -/
def reserveBatches : List Address → WithdrawalBatches → List ReservedBatch
  | [], _ => []
  | nonceAccount :: accounts, batches =>
      match batches.next with
      | some (requests, batches) => ⟨nonceAccount, requests⟩ :: reserveBatches accounts batches
      | none => []

/-- The batches that a round tries to create. -/
def State.reservedBatches (state : State) : List ReservedBatch :=
  let maxBatches :=
    min maxConcurrentRpcCalls (maxConcurrentSignatures - state.createdWithdrawalTxs.size)
  reserveBatches (state.noncePool.freeAccounts.take maxBatches) state.withdrawalBatches

/-- Whether a round has something to create and an account for it. -/
def State.canCreateWithdrawalTransaction (state : State) : Bool :=
  0 < state.noncePool.numFreeAccounts && state.withdrawalBatches.next.isSome

def State.hasUnsignedWithdrawalTransaction (state : State) : Bool :=
  !state.createdWithdrawalTxs.isEmpty

/-! ## `process_pending_withdrawals` -/

/-- `read_verified_nonce`; `none` stands for every failed read. -/
def readVerifiedNonce (reply : Option NonceAccountData) (minterAddress : Address) : Option Hash :=
  match reply with
  | some account => if account.authority = minterAddress then some account.nonce else none
  | none => none

/-- A created transaction that is ready to be signed. -/
structure BoundWithdrawal where
  nonceAccount : Address
  burnIndices : List LedgerBurnIndex
  message : Message
deriving DecidableEq

section

variable [SolanaSdk]

/-- `create_transaction`, once the nonce account was read; also returns whether it created one. -/
def createTransaction (canister : Canister) (minterAddress : Address) (batch : ReservedBatch)
    (reply : Option NonceAccountData) (now : Timestamp) : Except Panic (Canister × Bool) :=
  match readVerifiedNonce reply minterAddress with
  | none => .ok (canister, false)
  | some nonceValue =>
      if canister.state.noncePool.hasSeen batch.nonceAccount nonceValue then .ok (canister, false)
      else
        let burnIndices := batch.requests.map WithdrawalRequest.burnBlockIndex
        match buildBatchWithdrawalMessage minterAddress batch.nonceAccount nonceValue
            (State.withdrawalTransfers batch.requests) with
        | .error _ => .ok (canister, false)
        | .ok _ => do
            let canister ← canister.processEvent
              (.createdWithdrawalTransaction burnIndices batch.nonceAccount nonceValue) now
            return (canister, true)

/-- `bound_withdrawal`; `none` when the message is too large. -/
def boundWithdrawal (state : State) (minterAddress nonceAccount : Address)
    (created : CreatedWithdrawalTransaction) : Except Panic (Option BoundWithdrawal) := do
  let requests ← created.burnIndices.mapM state.createdWithdrawalRequest
  match buildBatchWithdrawalMessage minterAddress nonceAccount created.nonceValue
      (State.withdrawalTransfers requests) with
  | .ok message => return some ⟨nonceAccount, created.burnIndices, message⟩
  | .error _ => return none

/-- The order of `sort_by_key` on the smallest burn index, where no index comes first. -/
def createdKeyLe (a b : Address × CreatedWithdrawalTransaction) : Bool :=
  match a.2.burnIndices.min?, b.2.burnIndices.min? with
  | none, _ => true
  | some _, none => false
  | some i, some j => i ≤ j

/-- `bound_withdrawals`: the oldest created transactions, with the messages to sign. -/
def boundWithdrawals (state : State) (minterAddress : Address) :
    Except Panic (List BoundWithdrawal) := do
  let created := (state.createdWithdrawalTxs.toList.insertionSort (createdKeyLe · ·)).take
    maxConcurrentSignatures
  let bound ← created.mapM fun entry => boundWithdrawal state minterAddress entry.1 entry.2
  return bound.filterMap id

/-- `sign_transaction`, once the signer has replied; `none` stands for a failed signing. -/
def signTransaction (canister : Canister) (withdrawal : BoundWithdrawal) (reply : Option Signature)
    (now : Timestamp) : Except Panic Canister :=
  match reply with
  | none => .ok canister
  | some signature =>
      canister.processEvent (.submittedTransaction signature withdrawal.message [.minter]
        (.withdrawal withdrawal.burnIndices)) now

end

end Cksol
