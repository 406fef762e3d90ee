import Cksol.State.Basic

/-! # Transitions of the state

The `process_*` functions, which apply one event each.
-/

namespace Cksol

open Std

namespace State

/-- Caches the key; a different cached key is never overwritten. -/
def cacheMinterPublicKey (state : State) (publicKey : SchnorrPublicKey) : Except Panic State :=
  match state.minterPublicKey with
  | none => .ok { state with minterPublicKey := some publicKey }
  | some cached => if cached = publicKey then .ok state else .error .publicKeyOverwritten

/-! ## Deposits -/

def processQueuedDeposit (state : State) (depositId : DepositSolId) (deposit : QueuedDeposit)
    (queuedAt : Timestamp) : Except Panic State := do
  let deposits ← state.deposits.queue depositId deposit queuedAt
  return { state with deposits }

/-- The fees are collected, and the balance grows by all that was received. -/
def processCreditedSweep (state : State) (signature : Signature) (amountReceived : Lamport)
    (mints : List CreditedDeposit) (timestamp : Timestamp) : Except Panic State := do
  let amountToMint := (mints.map CreditedDeposit.amountToMint).sum
  let (deposits, sweep) ← state.deposits.creditSweep signature mints timestamp
  let depositFees := sweep.depositFees
  check ((checkedAdd amountToMint depositFees).any (· ≤ amountReceived))
    (.creditExceedsReceived signature amountToMint depositFees amountReceived)
  return { state with
    deposits
    collectedAutomaticDepositFees := state.collectedAutomaticDepositFees + depositFees
    balance := state.balance + amountReceived }

def processMintedSweptDeposit (state : State) (depositId : DepositSolId)
    (mintBlockIndex : LedgerMintIndex) : Except Panic State := do
  let deposits ← state.deposits.mint depositId mintBlockIndex
  return { state with deposits }

def processQuarantinedPendingMint (state : State) (depositId : DepositSolId) :
    Except Panic State := do
  let deposits ← state.deposits.quarantinePendingMint depositId
  return { state with deposits }

def processQuarantinedSweep (state : State) (signature : Signature) : Except Panic State := do
  let deposits ← state.deposits.quarantineSweep signature
  return { state with deposits }

/-! ## Withdrawals -/

/-- An index is accepted once. -/
def processAcceptedWithdrawal (state : State) (request : WithdrawalRequest)
    (createdAt : Timestamp) : Except Panic State := do
  check (state.pendingWithdrawalRequests[request.burnBlockIndex]? = none)
    (.withdrawalAlreadyAccepted request.burnBlockIndex)
  return { state with
    pendingWithdrawalRequests :=
      state.pendingWithdrawalRequests.insert request.burnBlockIndex ⟨request, createdAt⟩ }

/-- The request maps and the total while a batch is created. -/
structure Creating where
  pending : OrdMap LedgerBurnIndex PendingWithdrawalRequest
  created : OrdMap LedgerBurnIndex PendingWithdrawalRequest
  total : Lamport

/-- Moves one request from the pending to the created bucket. -/
def createRequest (creating : Creating) (burnIndex : LedgerBurnIndex) : Except Panic Creating := do
  let pending ← orPanic creating.pending[burnIndex]? (.createdForUnknownRequest burnIndex)
  let total ← orPanic (checkedAdd creating.total pending.request.amountToTransfer)
    .createdAmountOverflows
  check (creating.created[burnIndex]? = none) (.createdForCreatedRequest burnIndex)
  return {
    pending := creating.pending.erase burnIndex
    created := creating.created.insert burnIndex pending
    total }

/-- Binds the nonce account to the requests and debits their transfers and the transaction fee. -/
def processTransactionCreated (state : State) (burnIndices : List LedgerBurnIndex)
    (nonceAccount : Address) (nonceValue : Hash) : Except Panic State := do
  let noncePool ← state.noncePool.bind nonceAccount nonceValue
  let creating ← burnIndices.foldlM createRequest
    ⟨state.pendingWithdrawalRequests, state.createdWithdrawalRequests, 0⟩
  let balance ← orPanic (checkedSub state.balance (creating.total + batchWithdrawalTxFee))
    .insufficientBalance
  check (state.createdWithdrawalTxs[nonceAccount]? = none) (.nonceAccountAlreadyCreated nonceAccount)
  return { state with
    noncePool
    pendingWithdrawalRequests := creating.pending
    createdWithdrawalRequests := creating.created
    balance
    createdWithdrawalTxs := state.createdWithdrawalTxs.insert nonceAccount ⟨nonceValue, burnIndices⟩ }

section Message

variable [SolanaSdk]

/-- The requests of a created transaction, in the order of its burn indices. -/
def createdWithdrawalRequest (state : State) (burnIndex : LedgerBurnIndex) :
    Except Panic WithdrawalRequest := do
  let pending ← orPanic state.createdWithdrawalRequests[burnIndex]?
    (.requestNotInCreatedBucket burnIndex)
  return pending.request

def withdrawalTransfers (requests : List WithdrawalRequest) : List (Address × Lamport) :=
  requests.map fun request => (request.solanaAddress, request.amountToTransfer)

/-- Rebuilds the message that the binding determines. -/
def boundWithdrawalMessage (state : State) (nonceAccount : Address)
    (created : CreatedWithdrawalTransaction) : Except Panic Message := do
  let key ← orPanic state.minterPublicKey .publicKeyNotRecorded
  let requests ← created.burnIndices.mapM state.createdWithdrawalRequest
  match buildBatchWithdrawalMessage (minterAddress key) nonceAccount created.nonceValue
      (withdrawalTransfers requests) with
  | .ok message => return message
  | .error _ => throw (.cannotRebuildMessage nonceAccount)

/-- The request maps while a batch is sent. -/
structure Sending where
  created : OrdMap LedgerBurnIndex PendingWithdrawalRequest
  sent : OrdMap LedgerBurnIndex SentWithdrawalRequest

/-- Moves one request from the created to the sent bucket. -/
def sendRequest (signature : Signature) (sending : Sending) (burnIndex : LedgerBurnIndex) :
    Except Panic Sending := do
  let pending ← orPanic sending.created[burnIndex]? (.requestNotInCreatedBucket burnIndex)
  check (sending.sent[burnIndex]? = none) (.sentAlreadySentRequest burnIndex)
  return {
    created := sending.created.erase burnIndex
    sent := sending.sent.insert burnIndex ⟨pending.request, signature, pending.createdAt⟩ }

/-- Sends the transaction bound to the nonce account that the message advances. -/
def sendNonceWithdrawal (state : State) (signature : Signature) (message : Message)
    (signers : List Signer) (burnIndices : List LedgerBurnIndex) (submittedAt : Timestamp) :
    Except Panic (State × MinterTransaction) := do
  let nonceAccount ← orPanic message.advancedNonceAccount (.noAdvanceNonceInstruction signature)
  let created ← orPanic state.createdWithdrawalTxs[nonceAccount]? (.noTransactionCreated nonceAccount)
  let state :=
    { state with createdWithdrawalTxs := state.createdWithdrawalTxs.erase nonceAccount }
  check (burnIndices = created.burnIndices) (.servesOtherRequests signature nonceAccount)
  let bound ← state.boundWithdrawalMessage nonceAccount created
  check (message = bound) (.carriesOtherMessage signature nonceAccount)
  check (signers = [.minter]) (.notSignedByMinterOnly signature)
  let sending ← created.burnIndices.foldlM (sendRequest signature)
    ⟨state.createdWithdrawalRequests, state.sentWithdrawalRequests⟩
  return ({ state with
      createdWithdrawalRequests := sending.created
      sentWithdrawalRequests := sending.sent },
    .withdrawal message nonceAccount created.nonceValue submittedAt)

/-! ## Transactions -/

/-- The `match` on the purpose of a submitted transaction. -/
def submitTransaction (state : State) (signature : Signature) (message : Message)
    (signers : List Signer) (purpose : TransactionPurpose) (timestamp : Timestamp) :
    Except Panic (State × MinterTransaction) :=
  match purpose with
  | .withdrawal burnIndices =>
      state.sendNonceWithdrawal signature message signers burnIndices timestamp
  | .sweepDeposit depositIds blockHeight => do
      let key ← orPanic state.minterPublicKey .publicKeyNotRecorded
      let (deposits, _) ← state.deposits.sweep depositIds (minterAddress key) message signature
      return ({ state with deposits }, .sweepDeposit blockHeight)

/-- A signature with an outcome is not submitted again. -/
def processTransactionSubmitted (state : State) (signature : Signature) (message : Message)
    (signers : List Signer) (purpose : TransactionPurpose) (timestamp : Timestamp) :
    Except Panic State := do
  check (signature ∉ state.succeededTransactions) (.submittedAlreadySucceeded signature)
  check (¬ state.failedTransactions.containsKey signature) (.submittedAlreadyFailed signature)
  let (state, transaction) ← state.submitTransaction signature message signers purpose timestamp
  check (state.submittedTransactions.get signature = none) (.submittedTwice signature)
  return { state with
    submittedTransactions := state.submittedTransactions.insert signature transaction }

end Message

/-- The sent requests served by a transaction, taken out of the sent bucket and put into another. -/
def finishSent (sent finished : OrdMap LedgerBurnIndex SentWithdrawalRequest)
    (signature : Signature) :
    OrdMap LedgerBurnIndex SentWithdrawalRequest × OrdMap LedgerBurnIndex SentWithdrawalRequest :=
  let served := sent.toList.filter fun entry => entry.2.signature = signature
  (sent.eraseAll (served.map Prod.fst), finished.insertAll served)

/-- The `match` on a succeeded transaction. -/
def concludeSucceeded (state : State) (signature : Signature) :
    MinterTransaction → Except Panic State
  | .sweepDeposit _ => do
      let deposits ← state.deposits.finalizeSwept signature
      return { state with deposits }
  | .withdrawal _ nonceAccount _ _ => do
      let noncePool ← state.noncePool.free nonceAccount
      return { state with noncePool }

/-- The `match` on a failed transaction. -/
def concludeFailed (state : State) (signature : Signature) :
    MinterTransaction → Except Panic State
  | .sweepDeposit _ => do
      let deposits ← state.deposits.dropSwept signature
      return { state with deposits }
  | .withdrawal _ nonceAccount _ _ => do
      let noncePool ← state.noncePool.free nonceAccount
      return { state with noncePool }

/-- The requests served by the transaction succeed with it. -/
def processTransactionSucceeded (state : State) (signature : Signature) : Except Panic State := do
  check (¬ state.failedTransactions.containsKey signature) (.succeededAlreadyFailed signature)
  let (transaction, submittedTransactions) ←
    orPanic (state.submittedTransactions.remove signature) (.succeededUnknown signature)
  let state ← { state with submittedTransactions }.concludeSucceeded signature transaction
  check (signature ∉ state.succeededTransactions) (.succeededTwice signature)
  let (sent, successful) :=
    finishSent state.sentWithdrawalRequests state.successfulWithdrawalRequests signature
  return { state with
    succeededTransactions := state.succeededTransactions.insert signature
    sentWithdrawalRequests := sent
    successfulWithdrawalRequests := successful }

/-- The requests served by the transaction fail with it. -/
def processTransactionFailed (state : State) (signature : Signature) : Except Panic State := do
  check (signature ∉ state.succeededTransactions) (.failedAlreadySucceeded signature)
  let (transaction, submittedTransactions) ←
    orPanic (state.submittedTransactions.remove signature) (.failedUnknown signature)
  let state ← { state with submittedTransactions }.concludeFailed signature transaction
  check (state.failedTransactions.get signature = none) (.failedTwice signature)
  let (sent, failed) :=
    finishSent state.sentWithdrawalRequests state.failedWithdrawalRequests signature
  return { state with
    failedTransactions := state.failedTransactions.insert signature transaction
    sentWithdrawalRequests := sent
    failedWithdrawalRequests := failed }

/-- Only sweeps expire, since withdrawals use durable nonces. -/
def processTransactionExpired (state : State) (signature : Signature) : Except Panic State := do
  check (signature ∉ state.succeededTransactions) (.expiredAlreadySucceeded signature)
  check (¬ state.failedTransactions.containsKey signature) (.expiredAlreadyFailed signature)
  let (transaction, submittedTransactions) ←
    orPanic (state.submittedTransactions.remove signature) (.expiredNotSubmitted signature)
  match transaction with
  | .sweepDeposit _ =>
      let deposits ← state.deposits.dropSwept signature
      return { state with submittedTransactions, deposits }
  | .withdrawal .. => throw (.withdrawalCannotExpire signature)

end State

end Cksol
