import Cksol.Withdraw

/-! # `monitor`

The rounds of `finalize_transactions`: submitted sweeps are checked by their signature status,
submitted withdrawals by the value of their nonce account, and finalized sweeps are credited. As in
`withdraw`, each function is the code between two awaits.
-/

namespace Cksol

open Std

/-! ## Sweeps -/

/-- The submitted sweeps with the block height of their blockhash, by signature. -/
def State.blockhashTransactions (state : State) : OrdMap Signature BlockHeight :=
  OrdMap.insertAll ∅ (state.submittedTransactions.iter.filterMap fun entry =>
    match entry.2 with
    | .sweepDeposit blockHeight => some (entry.1, blockHeight)
    | .withdrawal .. => none)

/-- One entry of the reply to `getSignatureStatuses`: whether the transaction is finalized, and the
error it ended with. -/
structure SignatureStatus where
  finalized : Bool
  err : Option String
deriving DecidableEq

/-- The signatures of a status check by what was reported for them. -/
structure TransactionStatuses where
  succeeded : OrdSet Signature
  errored : OrdMap Signature String
  notFound : OrdSet Signature

namespace TransactionStatuses

def empty : TransactionStatuses := ⟨∅, ∅, ∅⟩

/-- One iteration of the loop over the statuses. -/
def record (statuses : TransactionStatuses) (signature : Signature) :
    Option SignatureStatus → TransactionStatuses
  | some ⟨true, some err⟩ => { statuses with errored := statuses.errored.insert signature err }
  | some ⟨true, none⟩ => { statuses with succeeded := statuses.succeeded.insert signature }
  | some ⟨false, _⟩ => statuses
  | none => { statuses with notFound := statuses.notFound.insert signature }

end TransactionStatuses

/-- The signatures of one round of status checks, in batches. -/
def statusBatches (transactions : OrdMap Signature BlockHeight) : List (List Signature) :=
  (chunks maxSignaturesPerStatusCheck transactions.keys).take maxConcurrentRpcCalls

/-- The checked signatures, each with the status it is paired with; `none` stands for a failed call. -/
def checkedStatuses (batches : List (List Signature))
    (replies : List (Option (List (Option SignatureStatus)))) :
    List (Signature × Option SignatureStatus) :=
  (batches.zip replies).flatMap fun entry => entry.1.zip (entry.2.getD [])

/-- `check_transaction_statuses`, once the calls have replied. -/
def checkTransactionStatuses (batches : List (List Signature))
    (replies : List (Option (List (Option SignatureStatus)))) : TransactionStatuses :=
  (checkedStatuses batches replies).foldl (fun statuses entry => statuses.record entry.1 entry.2) .empty

/-- Signatures are checked once at most, whatever the lengths of the replies. -/
theorem sublist_checkedStatuses (batches : List (List Signature))
    (replies : List (Option (List (Option SignatureStatus)))) :
    ((checkedStatuses batches replies).map Prod.fst).Sublist batches.flatten := by
  induction batches generalizing replies with
  | nil => exact List.Sublist.refl _
  | cons batch batches ih =>
      cases replies with
      | nil => exact List.nil_sublist _
      | cons reply replies =>
          have hcons : checkedStatuses (batch :: batches) (reply :: replies) =
              batch.zip (reply.getD []) ++ checkedStatuses batches replies := rfl
          rw [hcons, List.map_append, List.flatten_cons]
          exact (sublist_map_fst_zip _ _).append (ih replies)

/-- A signature is recorded by the status it was paired with. -/
theorem mem_foldl_record (signature : Signature) (entries : List (Signature × Option SignatureStatus))
    (statuses : TransactionStatuses) :
    let result := entries.foldl (fun statuses entry => statuses.record entry.1 entry.2) statuses
    (signature ∈ result.succeeded ↔
      (signature, some ⟨true, none⟩) ∈ entries ∨ signature ∈ statuses.succeeded) ∧
    (signature ∈ result.errored ↔
      (∃ err, (signature, some ⟨true, some err⟩) ∈ entries) ∨ signature ∈ statuses.errored) ∧
    (signature ∈ result.notFound ↔
      (signature, none) ∈ entries ∨ signature ∈ statuses.notFound) := by
  induction entries generalizing statuses with
  | nil => simp
  | cons entry entries ih =>
      obtain ⟨checked, status⟩ := entry
      obtain ⟨hsucceeded, herrored, hnotFound⟩ := ih (statuses.record checked status)
      simp only [List.foldl_cons] at hsucceeded herrored hnotFound ⊢
      rw [hsucceeded, herrored, hnotFound]
      unfold TransactionStatuses.record
      split
      · rw [OrdMap.mem_insert_iff]
        grind
      · rw [OrdSet.mem_insert_iff]
        grind
      · grind
      · rw [OrdSet.mem_insert_iff]
        grind

theorem mem_checkTransactionStatuses {batches : List (List Signature)}
    {replies : List (Option (List (Option SignatureStatus)))} {signature : Signature} :
    (signature ∈ (checkTransactionStatuses batches replies).succeeded ↔
      (signature, some ⟨true, none⟩) ∈ checkedStatuses batches replies) ∧
    (signature ∈ (checkTransactionStatuses batches replies).errored ↔
      ∃ err, (signature, some ⟨true, some err⟩) ∈ checkedStatuses batches replies) ∧
    (signature ∈ (checkTransactionStatuses batches replies).notFound ↔
      (signature, none) ∈ checkedStatuses batches replies) := by
  have hfold := mem_foldl_record signature (checkedStatuses batches replies) .empty
  rw [checkTransactionStatuses]
  simpa [TransactionStatuses.empty] using hfold

/-- Whether the chain is past the last block that could include the transaction. -/
def isBlockhashExpired (transactionBlockHeight currentBlockHeight : BlockHeight) : Bool :=
  maxBlockhashAgeInBlocks < currentBlockHeight - transactionBlockHeight

/-- The transactions that `expire_transactions` drops. -/
def expiredTransactions (notFound : OrdSet Signature) (transactions : OrdMap Signature BlockHeight)
    (currentBlockHeight : Option BlockHeight) : List Signature :=
  match currentBlockHeight with
  | none => []
  | some current => notFound.toList.filter fun signature =>
      transactions[signature]?.any fun height => isBlockhashExpired height current

/-- The events of `check_sweep_transactions`, in their order. -/
def sweepStatusEvents (transactions : OrdMap Signature BlockHeight)
    (currentBlockHeight : Option BlockHeight)
    (replies : List (Option (List (Option SignatureStatus)))) : List EventType :=
  let statuses := checkTransactionStatuses (statusBatches transactions) replies
  statuses.errored.keys.map .failedTransaction ++
    statuses.succeeded.toList.map .succeededTransaction ++
    (expiredTransactions statuses.notFound transactions currentBlockHeight).map .expiredTransaction

/-! ## Withdrawals -/

/-- A submitted withdrawal whose outcome is not known. -/
structure InFlightWithdrawal where
  signature : Signature
  message : Message
  nonceAccount : Address
  nonceValue : Hash
  submittedAt : Timestamp
deriving DecidableEq

/-- The submitted withdrawals, in the order of their submission. -/
def State.inFlightWithdrawals (state : State) : List InFlightWithdrawal :=
  state.submittedTransactions.iter.filterMap fun entry =>
    match entry.2 with
    | .withdrawal message nonceAccount nonceValue submittedAt =>
        some ⟨entry.1, message, nonceAccount, nonceValue, submittedAt⟩
    | .sweepDeposit _ => none

/-- `read_nonce`, once the nonce account was read. -/
def readNonce (state : State) (withdrawal : InFlightWithdrawal)
    (reply : Option NonceAccountData) (minterAddress : Address) : Option NonceRead :=
  (readVerifiedNonce reply minterAddress).map fun value =>
    state.noncePool.classifyRead withdrawal.nonceAccount withdrawal.nonceValue value

/-- The event that `finalize_landed_withdrawal` records for the transaction that was fetched; `none`
stands for a failed fetch and for a transaction that was not found. -/
def landedWithdrawalEvent (withdrawal : InFlightWithdrawal)
    (reply : Option Sweep.FetchedTransaction) : Option EventType :=
  match reply with
  | none => none
  | some fetched =>
      if fetched.message ≠ .legacy withdrawal.message then none
      else match fetched.status with
        | some ⟨none, _, _, _⟩ => some (.succeededTransaction withdrawal.signature)
        | some ⟨some _, _, _, _⟩ => some (.failedTransaction withdrawal.signature)
        | none => none

/-! ## Credits -/

/-- The finalized sweeps that a round of `credit_finalized_sweeps` fetches. -/
def State.sweepsToCredit (state : State) : List (Signature × Sweep) :=
  state.deposits.finalized.bySignature.toList.take maxConcurrentRpcCalls

/-- The event that settles a fetched sweep, if its outcome can be read. -/
def creditEvent [SolanaSdk] (signature : Signature) (sweep : Sweep)
    (reply : Option Sweep.FetchedTransaction) : Option EventType :=
  match reply with
  | none => none
  | some fetched =>
      match sweep.settle fetched with
      | .ok settled => some (.creditedSweep signature settled.amountReceived settled.mints)
      | .error (.unreadable _) => none
      | .error (.mismatch _) => some (.quarantinedSweep signature)

/-- The events of `credit_finalized_sweeps`, in their order. -/
def creditEvents [SolanaSdk] (round : List (Signature × Sweep))
    (replies : List (Option Sweep.FetchedTransaction)) : List EventType :=
  (round.zip replies).filterMap fun entry => creditEvent entry.1.1 entry.1.2 entry.2

end Cksol
