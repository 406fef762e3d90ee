import Cksol.Common.Moves
import Cksol.State.Replay

/-! # What an event does to the state

`Effect state payload timestamp state'` lists, one case per kind of event, what an event that is
applied without a panic has checked and changed. Invariants of the state are proved by cases on it.
-/

namespace Cksol

open Std

namespace State

/-! ## Batches of requests -/

/-- What a pending request moves out of the balance. -/
def transferAmount (pending : PendingWithdrawalRequest) : ℕ :=
  pending.request.amountToTransfer.toNat

/-- The request maps and the total after a batch was created. -/
theorem createRequests_eq_ok {pending created : OrdMap LedgerBurnIndex PendingWithdrawalRequest}
    {burnIndices : List LedgerBurnIndex} {creating : Creating}
    (h : burnIndices.foldlM createRequest ⟨pending, created, 0⟩ = .ok creating) :
    OrdMap.Moved id burnIndices pending creating.pending created creating.created ∧
      creating.total.toNat = (burnIndices.map (pending.weightAt transferAmount)).sum := by
  refine foldlM_invariant (P := fun done (creating : Creating) =>
    OrdMap.Moved id done pending creating.pending created creating.created ∧
      creating.total.toNat = (done.map (pending.weightAt transferAmount)).sum) ?_ ?_ h
  · exact ⟨.nil id pending created, rfl⟩
  · intro done creating index creating' hdone hstep
    obtain ⟨hmoved, htotal⟩ := hdone
    simp only [createRequest, bind_eq_ok, orPanic_eq_ok, check_eq_ok, pure_eq_ok] at hstep
    obtain ⟨request, hrequest, total, hsum, -, hfresh, rfl⟩ := hstep
    refine ⟨hmoved.snoc hrequest hfresh, ?_⟩
    have hget : pending[index]? = some request := by
      rw [← hmoved.source_of_notMem index (hmoved.not_mem_of_present hrequest), hrequest]
    have hweight : pending.weightAt transferAmount index = request.request.amountToTransfer.toNat := by
      rw [OrdMap.weightAt, hget]
      rfl
    rw [checkedAdd_eq_some.mp hsum, htotal, List.map_append, List.sum_append, List.map_singleton,
      List.sum_singleton, hweight]

/-- The sent request made from a created one. -/
def sentAs (signature : Signature) (pending : PendingWithdrawalRequest) : SentWithdrawalRequest :=
  ⟨pending.request, signature, pending.createdAt⟩

/-- The request maps after a batch was sent. -/
theorem sendRequests_eq_ok {signature : Signature}
    {created : OrdMap LedgerBurnIndex PendingWithdrawalRequest}
    {sent : OrdMap LedgerBurnIndex SentWithdrawalRequest} {burnIndices : List LedgerBurnIndex}
    {sending : Sending}
    (h : burnIndices.foldlM (sendRequest signature) ⟨created, sent⟩ = .ok sending) :
    OrdMap.Moved (sentAs signature) burnIndices created sending.created sent sending.sent := by
  refine foldlM_invariant (P := fun done (sending : Sending) =>
    OrdMap.Moved (sentAs signature) done created sending.created sent sending.sent) ?_ ?_ h
  · exact .nil _ created sent
  · intro done sending index sending' hmoved hstep
    simp only [sendRequest, bind_eq_ok, orPanic_eq_ok, check_eq_ok, pure_eq_ok] at hstep
    obtain ⟨request, hrequest, -, hfresh, rfl⟩ := hstep
    exact hmoved.snoc hrequest hfresh

/-- The sent requests that remain are those of other transactions. -/
theorem getElem?_finishSent_fst (sent finished : OrdMap LedgerBurnIndex SentWithdrawalRequest)
    (signature : Signature) (i : LedgerBurnIndex) :
    (finishSent sent finished signature).1[i]? = sent[i]?.filter (·.signature ≠ signature) := by
  rw [finishSent, OrdMap.getElem?_eraseAll]
  cases hi : sent[i]? with
  | none => simp
  | some request =>
      have hmem : i ∈ (sent.toList.filter fun entry => entry.2.signature = signature).map Prod.fst ↔
          request.signature = signature := by
        simp [hi]
      by_cases hsig : request.signature = signature
      · simp [hmem, hsig, Option.filter_some]
      · simp [hmem, hsig, Option.filter_some]

/-- The requests of the transaction join the finished ones. -/
theorem getElem?_finishSent_snd (sent finished : OrdMap LedgerBurnIndex SentWithdrawalRequest)
    (signature : Signature) (i : LedgerBurnIndex) :
    (finishSent sent finished signature).2[i]? =
      (sent[i]?.filter (·.signature = signature)).or finished[i]? := by
  have hnodup : ((sent.toList.filter fun entry => entry.2.signature = signature).map
      Prod.fst).Nodup := by
    refine List.Nodup.sublist (List.filter_sublist.map _) ?_
    rw [ExtTreeMap.map_fst_toList_eq_keys]
    exact OrdMap.nodup_keys sent
  rw [finishSent]
  by_cases hserved : ∃ request, sent[i]? = some request ∧ request.signature = signature
  · obtain ⟨request, hi, hsig⟩ := hserved
    rw [OrdMap.getElem?_insertAll_of_mem finished hnodup (v := request), hi]
    · simp [hsig, Option.filter_some]
    · simp [hi, hsig]
  · rw [OrdMap.getElem?_insertAll_of_notMem]
    · cases hi : sent[i]? with
      | none => simp
      | some request => simp_all [Option.filter_some]
    · simpa using hserved

/-! ## Effects -/

/-- How an upgrade changes the nonce pool. -/
def AddsNonceAccounts [SolanaSdk] (state : State) (args : UpgradeArgs) (pool : DurableNoncePool) :
    Prop :=
  (args.nonceAccountsToAdd = none ∧ pool = state.noncePool) ∨
    ∃ texts addresses, args.nonceAccountsToAdd = some texts ∧
      parseNonceAccounts texts = .ok addresses ∧
      (∀ a ∈ addresses, a ∉ state.incompleteDestinations) ∧
      state.noncePool.addAccounts addresses = .ok pool

/-- What an event has checked, and the state it leaves. -/
inductive Effect [SolanaSdk] (state : State) (timestamp : Timestamp) : EventType → State → Prop
  | upgrade {args : UpgradeArgs} {pool : DurableNoncePool}
      (hpool : state.AddsNonceAccounts args pool)
      (hvalid : { state.withParameters args with noncePool := pool }.validate = .ok ⟨⟩) :
      Effect state timestamp (.upgrade args) { state.withParameters args with noncePool := pool }
  | acceptedWithdrawal {request : WithdrawalRequest}
      (hnew : state.pendingWithdrawalRequests[request.burnBlockIndex]? = none) :
      Effect state timestamp (.acceptedWithdrawalRequest request) { state with
        pendingWithdrawalRequests :=
          state.pendingWithdrawalRequests.insert request.burnBlockIndex ⟨request, timestamp⟩ }
  | createdWithdrawal {burnIndices : List LedgerBurnIndex} {nonceAccount : Address}
      {nonceValue : Hash} {seen : OrdSet Hash}
      {pending created : OrdMap LedgerBurnIndex PendingWithdrawalRequest} {total balance : Lamport}
      (haccount : state.noncePool.accounts[nonceAccount]? = some ⟨.free, seen⟩)
      (hunseen : nonceValue ∉ seen)
      (hmoved : OrdMap.Moved id burnIndices state.pendingWithdrawalRequests pending
        state.createdWithdrawalRequests created)
      (htotal : total.toNat =
        (burnIndices.map (state.pendingWithdrawalRequests.weightAt transferAmount)).sum)
      (hbalance : checkedSub state.balance (total + batchWithdrawalTxFee) = some balance)
      (hnew : state.createdWithdrawalTxs[nonceAccount]? = none) :
      Effect state timestamp (.createdWithdrawalTransaction burnIndices nonceAccount nonceValue)
        { state with
          noncePool :=
            ⟨state.noncePool.accounts.insert nonceAccount ⟨.bound, seen.insert nonceValue⟩⟩
          pendingWithdrawalRequests := pending
          createdWithdrawalRequests := created
          balance
          createdWithdrawalTxs :=
            state.createdWithdrawalTxs.insert nonceAccount ⟨nonceValue, burnIndices⟩ }
  | sentWithdrawal {signature : Signature} {message : Message} {burnIndices : List LedgerBurnIndex}
      {nonceAccount : Address} {nonceValue : Hash}
      {created : OrdMap LedgerBurnIndex PendingWithdrawalRequest}
      {sent : OrdMap LedgerBurnIndex SentWithdrawalRequest}
      (hsucceeded : signature ∉ state.succeededTransactions)
      (hfailed : state.failedTransactions.get signature = none)
      (hsubmitted : state.submittedTransactions.get signature = none)
      (hadvanced : message.advancedNonceAccount = some nonceAccount)
      (hcreated : state.createdWithdrawalTxs[nonceAccount]? = some ⟨nonceValue, burnIndices⟩)
      (hbound : state.boundWithdrawalMessage nonceAccount ⟨nonceValue, burnIndices⟩ = .ok message)
      (hmoved : OrdMap.Moved (sentAs signature) burnIndices state.createdWithdrawalRequests created
        state.sentWithdrawalRequests sent) :
      Effect state timestamp
        (.submittedTransaction signature message [.minter] (.withdrawal burnIndices))
        { state with
          createdWithdrawalTxs := state.createdWithdrawalTxs.erase nonceAccount
          createdWithdrawalRequests := created
          sentWithdrawalRequests := sent
          submittedTransactions := state.submittedTransactions.insert signature
            (.withdrawal message nonceAccount nonceValue timestamp) }
  | sweptDeposits {signature : Signature} {message : Message} {signers : List Signer}
      {depositIds : List DepositSolId} {blockHeight : BlockHeight} {key : SchnorrPublicKey}
      {deposits : Deposits} {amount : Lamport}
      (hsucceeded : signature ∉ state.succeededTransactions)
      (hfailed : state.failedTransactions.get signature = none)
      (hsubmitted : state.submittedTransactions.get signature = none)
      (hkey : state.minterPublicKey = some key)
      (hsweep : state.deposits.sweep depositIds (minterAddress key) message signature =
        .ok (deposits, amount)) :
      Effect state timestamp
        (.submittedTransaction signature message signers (.sweepDeposit depositIds blockHeight))
        { state with
          deposits
          submittedTransactions :=
            state.submittedTransactions.insert signature (.sweepDeposit blockHeight) }
  | succeededWithdrawal {signature : Signature} {message : Message} {nonceAccount : Address}
      {nonceValue : Hash} {submittedAt : Timestamp} {seen : OrdSet Hash}
      {submitted : InsertionOrderedMap Signature MinterTransaction}
      (hfailed : state.failedTransactions.get signature = none)
      (hsucceeded : signature ∉ state.succeededTransactions)
      (hremove : state.submittedTransactions.remove signature =
        some (.withdrawal message nonceAccount nonceValue submittedAt, submitted))
      (haccount : state.noncePool.accounts[nonceAccount]? = some ⟨.bound, seen⟩) :
      Effect state timestamp (.succeededTransaction signature) { state with
        submittedTransactions := submitted
        noncePool := ⟨state.noncePool.accounts.insert nonceAccount ⟨.free, seen⟩⟩
        succeededTransactions := state.succeededTransactions.insert signature
        sentWithdrawalRequests := (finishSent state.sentWithdrawalRequests
          state.successfulWithdrawalRequests signature).1
        successfulWithdrawalRequests := (finishSent state.sentWithdrawalRequests
          state.successfulWithdrawalRequests signature).2 }
  | succeededSweep {signature : Signature} {blockHeight : BlockHeight} {deposits : Deposits}
      {submitted : InsertionOrderedMap Signature MinterTransaction}
      (hfailed : state.failedTransactions.get signature = none)
      (hsucceeded : signature ∉ state.succeededTransactions)
      (hremove : state.submittedTransactions.remove signature =
        some (.sweepDeposit blockHeight, submitted))
      (hfinalize : state.deposits.finalizeSwept signature = .ok deposits) :
      Effect state timestamp (.succeededTransaction signature) { state with
        submittedTransactions := submitted
        deposits
        succeededTransactions := state.succeededTransactions.insert signature
        sentWithdrawalRequests := (finishSent state.sentWithdrawalRequests
          state.successfulWithdrawalRequests signature).1
        successfulWithdrawalRequests := (finishSent state.sentWithdrawalRequests
          state.successfulWithdrawalRequests signature).2 }
  | failedWithdrawal {signature : Signature} {message : Message} {nonceAccount : Address}
      {nonceValue : Hash} {submittedAt : Timestamp} {seen : OrdSet Hash}
      {submitted : InsertionOrderedMap Signature MinterTransaction}
      (hsucceeded : signature ∉ state.succeededTransactions)
      (hfailed : state.failedTransactions.get signature = none)
      (hremove : state.submittedTransactions.remove signature =
        some (.withdrawal message nonceAccount nonceValue submittedAt, submitted))
      (haccount : state.noncePool.accounts[nonceAccount]? = some ⟨.bound, seen⟩) :
      Effect state timestamp (.failedTransaction signature) { state with
        submittedTransactions := submitted
        noncePool := ⟨state.noncePool.accounts.insert nonceAccount ⟨.free, seen⟩⟩
        failedTransactions := state.failedTransactions.insert signature
          (.withdrawal message nonceAccount nonceValue submittedAt)
        sentWithdrawalRequests := (finishSent state.sentWithdrawalRequests
          state.failedWithdrawalRequests signature).1
        failedWithdrawalRequests := (finishSent state.sentWithdrawalRequests
          state.failedWithdrawalRequests signature).2 }
  | failedSweep {signature : Signature} {blockHeight : BlockHeight} {deposits : Deposits}
      {submitted : InsertionOrderedMap Signature MinterTransaction}
      (hsucceeded : signature ∉ state.succeededTransactions)
      (hfailed : state.failedTransactions.get signature = none)
      (hremove : state.submittedTransactions.remove signature =
        some (.sweepDeposit blockHeight, submitted))
      (hdrop : state.deposits.dropSwept signature = .ok deposits) :
      Effect state timestamp (.failedTransaction signature) { state with
        submittedTransactions := submitted
        deposits
        failedTransactions := state.failedTransactions.insert signature (.sweepDeposit blockHeight)
        sentWithdrawalRequests := (finishSent state.sentWithdrawalRequests
          state.failedWithdrawalRequests signature).1
        failedWithdrawalRequests := (finishSent state.sentWithdrawalRequests
          state.failedWithdrawalRequests signature).2 }
  | expiredSweep {signature : Signature} {blockHeight : BlockHeight} {deposits : Deposits}
      {submitted : InsertionOrderedMap Signature MinterTransaction}
      (hsucceeded : signature ∉ state.succeededTransactions)
      (hfailed : state.failedTransactions.get signature = none)
      (hremove : state.submittedTransactions.remove signature =
        some (.sweepDeposit blockHeight, submitted))
      (hdrop : state.deposits.dropSwept signature = .ok deposits) :
      Effect state timestamp (.expiredTransaction signature) { state with
        submittedTransactions := submitted
        deposits }
  | queuedDeposit {depositId : DepositSolId} {deposit : QueuedDeposit} {deposits : Deposits}
      (hqueue : state.deposits.queue depositId deposit timestamp = .ok deposits) :
      Effect state timestamp (.queuedDeposit depositId deposit) { state with deposits }
  | creditedSweep {signature : Signature} {amountReceived covered : Lamport}
      {mints : List CreditedDeposit} {deposits : Deposits} {sweep : Sweep}
      (hcredit : state.deposits.creditSweep signature mints timestamp = .ok (deposits, sweep))
      (hcovered : checkedAdd (mints.map CreditedDeposit.amountToMint).sum sweep.depositFees =
        some covered)
      (hreceived : covered ≤ amountReceived) :
      Effect state timestamp (.creditedSweep signature amountReceived mints) { state with
        deposits
        collectedAutomaticDepositFees := state.collectedAutomaticDepositFees + sweep.depositFees
        balance := state.balance + amountReceived }
  | quarantinedSweep {signature : Signature} {deposits : Deposits}
      (hquarantine : state.deposits.quarantineSweep signature = .ok deposits) :
      Effect state timestamp (.quarantinedSweep signature) { state with deposits }
  | keyFetched {key : SchnorrPublicKey} (hkey : ∀ key' ∈ state.minterPublicKey, key' = key) :
      Effect state timestamp (.minterPublicKeyFetched key)
        { state with minterPublicKey := some key }
  | minted {depositId : DepositSolId} {mintBlockIndex : LedgerMintIndex} {deposits : Deposits}
      (hmint : state.deposits.mint depositId mintBlockIndex = .ok deposits) :
      Effect state timestamp (.mintedSweptDeposit depositId mintBlockIndex) { state with deposits }
  | quarantinedPendingMint {depositId : DepositSolId} {deposits : Deposits}
      (hquarantine : state.deposits.quarantinePendingMint depositId = .ok deposits) :
      Effect state timestamp (.quarantinedPendingMint depositId) { state with deposits }

/-! ## Every applied event has its effect -/

section

variable [SolanaSdk] {state state' : State} {timestamp : Timestamp} {signature : Signature}

theorem effect_of_upgrade {args : UpgradeArgs} (h : state.upgrade args = .ok state') :
    state.Effect timestamp (.upgrade args) state' := by
  simp only [upgrade, bind_eq_ok, pure_eq_ok] at h
  obtain ⟨pool, hpool, ⟨⟩, hvalid, rfl⟩ := h
  refine .upgrade ?_ hvalid
  unfold extendedNoncePool at hpool
  split at hpool
  case h_1 hnone => exact .inl ⟨hnone, (Except.ok.inj hpool).symm⟩
  case h_2 texts htexts =>
    simp only [bind_eq_ok, mapError_eq_ok] at hpool
    obtain ⟨addresses, hparse, ⟨⟩, hdestinations, hadd⟩ := hpool
    refine .inr ⟨texts, addresses, htexts, hparse, ?_, hadd⟩
    intro a ha hdestination
    unfold ensureNoIncompleteWithdrawalTo at hdestinations
    split at hdestinations
    case h_1 => cases hdestinations
    case h_2 hfind =>
      have := List.find?_eq_none.mp hfind a ha
      simp only [decide_eq_true_eq] at this
      exact this hdestination

theorem effect_of_acceptedWithdrawal {request : WithdrawalRequest}
    (h : state.processAcceptedWithdrawal request timestamp = .ok state') :
    state.Effect timestamp (.acceptedWithdrawalRequest request) state' := by
  simp only [processAcceptedWithdrawal, bind_eq_ok, check_eq_ok, pure_eq_ok] at h
  obtain ⟨⟨⟩, hnew, rfl⟩ := h
  exact .acceptedWithdrawal hnew

theorem effect_of_transactionCreated {burnIndices : List LedgerBurnIndex} {nonceAccount : Address}
    {nonceValue : Hash}
    (h : state.processTransactionCreated burnIndices nonceAccount nonceValue = .ok state') :
    state.Effect timestamp (.createdWithdrawalTransaction burnIndices nonceAccount nonceValue)
      state' := by
  simp only [processTransactionCreated, bind_eq_ok, orPanic_eq_ok, check_eq_ok, pure_eq_ok] at h
  obtain ⟨pool, hpool, creating, hcreating, balance, hbalance, ⟨⟩, hnew, rfl⟩ := h
  obtain ⟨seen, haccount, hunseen, rfl⟩ := DurableNoncePool.bind_eq_ok hpool
  obtain ⟨hmoved, htotal⟩ := createRequests_eq_ok hcreating
  exact .createdWithdrawal haccount hunseen hmoved htotal hbalance hnew

theorem effect_of_transactionSubmitted {message : Message} {signers : List Signer}
    {purpose : TransactionPurpose}
    (h : state.processTransactionSubmitted signature message signers purpose timestamp =
      .ok state') :
    state.Effect timestamp (.submittedTransaction signature message signers purpose) state' := by
  simp only [processTransactionSubmitted, bind_eq_ok, check_eq_ok, pure_eq_ok,
    InsertionOrderedMap.not_containsKey_iff] at h
  obtain ⟨⟨⟩, hsucceeded, ⟨⟩, hfailed, ⟨submitting, transaction⟩, hsubmit, ⟨⟩, hsubmitted, rfl⟩ := h
  unfold submitTransaction at hsubmit
  split at hsubmit
  case h_1 burnIndices =>
    simp only [sendNonceWithdrawal, bind_eq_ok, orPanic_eq_ok, check_eq_ok, pure_eq_ok,
      Prod.mk.injEq] at hsubmit
    obtain ⟨nonceAccount, hadvanced, ⟨nonceValue, bound⟩, hcreated, ⟨⟩, rfl, message', hbound, ⟨⟩,
      rfl, ⟨⟩, rfl, sending, hsending, rfl, rfl⟩ := hsubmit
    exact .sentWithdrawal hsucceeded hfailed hsubmitted hadvanced hcreated hbound
      (sendRequests_eq_ok hsending)
  case h_2 depositIds blockHeight =>
    simp only [bind_eq_ok, orPanic_eq_ok, pure_eq_ok, Prod.mk.injEq] at hsubmit
    obtain ⟨key, hkey, ⟨deposits, amount⟩, hsweep, rfl, rfl⟩ := hsubmit
    exact .sweptDeposits hsucceeded hfailed hsubmitted hkey hsweep

theorem effect_of_transactionSucceeded
    (h : state.processTransactionSucceeded signature = .ok state') :
    state.Effect timestamp (.succeededTransaction signature) state' := by
  simp only [processTransactionSucceeded, bind_eq_ok, orPanic_eq_ok, check_eq_ok, pure_eq_ok,
    InsertionOrderedMap.not_containsKey_iff] at h
  obtain ⟨⟨⟩, hfailed, ⟨transaction, submitted⟩, hremove, concluded, hconclude, ⟨⟩, hsucceeded,
    rfl⟩ := h
  cases transaction with
  | sweepDeposit blockHeight =>
      simp only [concludeSucceeded, bind_eq_ok, pure_eq_ok] at hconclude
      obtain ⟨deposits, hfinalize, rfl⟩ := hconclude
      exact .succeededSweep hfailed hsucceeded hremove hfinalize
  | withdrawal message nonceAccount nonceValue submittedAt =>
      simp only [concludeSucceeded, bind_eq_ok, pure_eq_ok] at hconclude
      obtain ⟨pool, hpool, rfl⟩ := hconclude
      obtain ⟨seen, haccount, rfl⟩ := DurableNoncePool.free_eq_ok hpool
      exact .succeededWithdrawal hfailed hsucceeded hremove haccount

theorem effect_of_transactionFailed (h : state.processTransactionFailed signature = .ok state') :
    state.Effect timestamp (.failedTransaction signature) state' := by
  simp only [processTransactionFailed, bind_eq_ok, orPanic_eq_ok, check_eq_ok, pure_eq_ok] at h
  obtain ⟨⟨⟩, hsucceeded, ⟨transaction, submitted⟩, hremove, concluded, hconclude, ⟨⟩, hfailed,
    rfl⟩ := h
  cases transaction with
  | sweepDeposit blockHeight =>
      simp only [concludeFailed, bind_eq_ok, pure_eq_ok] at hconclude
      obtain ⟨deposits, hdrop, rfl⟩ := hconclude
      exact .failedSweep hsucceeded hfailed hremove hdrop
  | withdrawal message nonceAccount nonceValue submittedAt =>
      simp only [concludeFailed, bind_eq_ok, pure_eq_ok] at hconclude
      obtain ⟨pool, hpool, rfl⟩ := hconclude
      obtain ⟨seen, haccount, rfl⟩ := DurableNoncePool.free_eq_ok hpool
      exact .failedWithdrawal hsucceeded hfailed hremove haccount

theorem effect_of_transactionExpired (h : state.processTransactionExpired signature = .ok state') :
    state.Effect timestamp (.expiredTransaction signature) state' := by
  simp only [processTransactionExpired, bind_eq_ok, orPanic_eq_ok, check_eq_ok,
    InsertionOrderedMap.not_containsKey_iff] at h
  obtain ⟨⟨⟩, hsucceeded, ⟨⟩, hfailed, ⟨transaction, submitted⟩, hremove, h⟩ := h
  cases transaction with
  | sweepDeposit blockHeight =>
      simp only [bind_eq_ok, pure_eq_ok] at h
      obtain ⟨deposits, hdrop, rfl⟩ := h
      exact .expiredSweep hsucceeded hfailed hremove hdrop
  | withdrawal => cases h

theorem effect_of_creditedSweep {amountReceived : Lamport} {mints : List CreditedDeposit}
    (h : state.processCreditedSweep signature amountReceived mints timestamp = .ok state') :
    state.Effect timestamp (.creditedSweep signature amountReceived mints) state' := by
  simp only [processCreditedSweep, bind_eq_ok, check_eq_ok, pure_eq_ok, Option.any_eq_true,
    decide_eq_true_eq] at h
  obtain ⟨⟨deposits, sweep⟩, hcredit, ⟨⟩, ⟨covered, hcovered, hreceived⟩, rfl⟩ := h
  exact .creditedSweep hcredit hcovered hreceived

theorem effect_of_cacheMinterPublicKey {key : SchnorrPublicKey}
    (h : state.cacheMinterPublicKey key = .ok state') :
    state.Effect timestamp (.minterPublicKeyFetched key) state' := by
  unfold cacheMinterPublicKey at h
  split at h
  case h_1 hnone =>
    obtain rfl := Except.ok.inj h
    exact .keyFetched (by simp [hnone])
  case h_2 cached hcached =>
    split at h
    case isTrue heq =>
      obtain rfl := Except.ok.inj h
      -- the state already holds the key
      have hkey : state.minterPublicKey = some key := by rw [hcached, heq]
      have hsame : state = { state with minterPublicKey := some key } := by rw [← hkey]
      rw [hsame]
      exact .keyFetched fun key' hkey' => (Option.some.inj hkey').symm
    case isFalse => cases h

/-- An event that is applied has its effect. -/
theorem effect_of_apply {payload : EventType}
    (h : applyStateTransition state payload timestamp = .ok state') :
    state.Effect timestamp payload state' := by
  cases payload with
  | init args => cases h
  | upgrade args => exact effect_of_upgrade (mapError_eq_ok.mp h)
  | acceptedWithdrawalRequest request => exact effect_of_acceptedWithdrawal h
  | submittedTransaction signature message signers purpose => exact effect_of_transactionSubmitted h
  | succeededTransaction signature => exact effect_of_transactionSucceeded h
  | failedTransaction signature => exact effect_of_transactionFailed h
  | expiredTransaction signature => exact effect_of_transactionExpired h
  | queuedDeposit depositId deposit =>
      obtain ⟨deposits, hqueue, hstate⟩ := bind_eq_ok.mp h
      obtain rfl := pure_eq_ok.mp hstate
      exact .queuedDeposit hqueue
  | creditedSweep signature amountReceived mints => exact effect_of_creditedSweep h
  | quarantinedSweep signature =>
      obtain ⟨deposits, hquarantine, hstate⟩ := bind_eq_ok.mp h
      obtain rfl := pure_eq_ok.mp hstate
      exact .quarantinedSweep hquarantine
  | minterPublicKeyFetched key => exact effect_of_cacheMinterPublicKey h
  | mintedSweptDeposit depositId mintBlockIndex =>
      obtain ⟨deposits, hmint, hstate⟩ := bind_eq_ok.mp h
      obtain rfl := pure_eq_ok.mp hstate
      exact .minted hmint
  | quarantinedPendingMint depositId =>
      obtain ⟨deposits, hquarantine, hstate⟩ := bind_eq_ok.mp h
      obtain rfl := pure_eq_ok.mp hstate
      exact .quarantinedPendingMint hquarantine
  | createdWithdrawalTransaction burnIndices nonceAccount nonceValue =>
      exact effect_of_transactionCreated h

end

end State

/-- Run rule: a run keeps what transient changes and the effects of admitted events keep. -/
theorem Canister.Run.invariant [SolanaSdk] {Emits : State → Timestamp → EventType → Prop}
    (P : Canister → Prop)
    (htransient : ∀ canister transient, P canister →
      P ⟨canister.state.withTransient transient, canister.log⟩)
    (heffect : ∀ state log now payload state', Emits state now payload → P ⟨state, log⟩ →
      state.Effect now payload state' → P ⟨state', log ++ [⟨now, payload⟩]⟩)
    {canister canister' : Canister} (hinit : P canister) (h : Run Emits canister canister') :
    P canister' := by
  induction h with
  | refl => exact hinit
  | tail _ hstep ih =>
      cases hstep with
      | event hemits hevent =>
          obtain ⟨state, happly, rfl⟩ := processEvent_eq_ok.mp hevent
          exact heffect _ _ _ _ _ hemits ih (State.effect_of_apply happly)
      | transient => exact htransient _ _ ih

end Cksol
