import Mathlib.Logic.Relation
import Cksol.State.Audit

/-! # Runs of the canister and replays of its log

Between two messages the canister holds the state and the log. A message processes events and may
touch the transient fields of the state, which no event records: the guards, the active tasks and the
watchlist. A replay of the log rebuilds the state up to these fields.
-/

namespace Cksol

open Std

/-! ## Transient fields -/

namespace Deposits

variable (deposits : Deposits) (watchlist : Watchlist)

theorem sweep_withWatchlist [SolanaSdk] (depositIds : List DepositSolId) (minterAddress : Address)
    (message : Message) (signature : Signature) :
    (deposits.withWatchlist watchlist).sweep depositIds minterAddress message signature =
      (deposits.sweep depositIds minterAddress message signature).map
        (Prod.map (·.withWatchlist watchlist) id) := by
  simp only [sweep, map_bind]
  refine bind_congr fun _ => bind_congr fun _ => bind_congr fun recovered => ?_
  cases recovered with
  | error => rfl
  | ok sweep =>
      simp only [map_bind, map_pure]
      rfl

theorem dropSwept_withWatchlist (signature : Signature) :
    (deposits.withWatchlist watchlist).dropSwept signature =
      (deposits.dropSwept signature).map (·.withWatchlist watchlist) := by
  simp only [dropSwept, map_bind]
  refine bind_congr fun removed => ?_
  -- releasing an account commutes with the change of the watchlist, so the loop over them does
  refine foldlM_map (g := (·.withWatchlist watchlist)) (fun deposits entry => ?_)
    { deposits with swept := removed.2 } removed.1.deposits.toList
  simp only [releaseInFlight, map_bind, map_pure, bind_assoc]
  rfl

theorem quarantineSweep_withWatchlist (signature : Signature) :
    (deposits.withWatchlist watchlist).quarantineSweep signature =
      (deposits.quarantineSweep signature).map (·.withWatchlist watchlist) := by
  simp only [quarantineSweep, map_bind, map_pure]
  rfl

theorem finalizeSwept_withWatchlist (signature : Signature) :
    (deposits.withWatchlist watchlist).finalizeSwept signature =
      (deposits.finalizeSwept signature).map (·.withWatchlist watchlist) := by
  simp only [finalizeSwept, map_bind, map_pure]
  rfl

theorem creditSweep_withWatchlist (signature : Signature) (mints : List CreditedDeposit)
    (timestamp : Timestamp) :
    (deposits.withWatchlist watchlist).creditSweep signature mints timestamp =
      (deposits.creditSweep signature mints timestamp).map
        (Prod.map (·.withWatchlist watchlist) id) := by
  simp only [creditSweep, map_bind, map_pure]
  rfl

theorem mint_withWatchlist (depositId : DepositSolId) (mintBlockIndex : LedgerMintIndex) :
    (deposits.withWatchlist watchlist).mint depositId mintBlockIndex =
      (deposits.mint depositId mintBlockIndex).map (·.withWatchlist watchlist) := by
  simp only [mint, releaseInFlight, map_bind, map_pure, bind_assoc]
  rfl

theorem quarantinePendingMint_withWatchlist (depositId : DepositSolId) :
    (deposits.withWatchlist watchlist).quarantinePendingMint depositId =
      (deposits.quarantinePendingMint depositId).map (·.withWatchlist watchlist) := by
  simp only [quarantinePendingMint, map_bind, map_pure]
  rfl

/-- Queueing takes the account off the watchlist; with no account on it there is nothing to take. -/
theorem queue_withWatchlist_default {deposits deposits' : Deposits} {depositId : DepositSolId}
    {deposit : QueuedDeposit} {queuedAt : Timestamp}
    (h : deposits.queue depositId deposit queuedAt = .ok deposits') :
    (deposits.withWatchlist .default).queue depositId deposit queuedAt =
      .ok (deposits'.withWatchlist .default) := by
  obtain ⟨rfl, hfree, watchlist, hwatchlist, rfl⟩ := queue_eq_ok h
  simp only [queue, bind_eq_ok, check_eq_ok, pure_eq_ok]
  exact ⟨⟨⟩, rfl, ⟨⟩, hfree, .default, Watchlist.remove_default _, rfl⟩

end Deposits

namespace State

section

variable [SolanaSdk] (state : State) (transient : Transient)

theorem upgrade_withTransient (args : UpgradeArgs) :
    (state.withTransient transient).upgrade args =
      (state.upgrade args).map (·.withTransient transient) := by
  simp only [upgrade, map_bind, map_pure]
  rfl

theorem submitTransaction_withTransient (signature : Signature) (message : Message)
    (signers : List Signer) (purpose : TransactionPurpose) (timestamp : Timestamp) :
    (state.withTransient transient).submitTransaction signature message signers purpose timestamp =
      (state.submitTransaction signature message signers purpose timestamp).map
        (Prod.map (·.withTransient transient) id) := by
  cases purpose with
  | withdrawal burnIndices =>
      simp only [submitTransaction, sendNonceWithdrawal, map_bind, map_pure]
      rfl
  | sweepDeposit depositIds blockHeight =>
      simp only [submitTransaction, map_bind, map_pure]
      refine bind_congr fun key => ?_
      have hsweep := state.deposits.sweep_withWatchlist transient.watchlist depositIds
        (minterAddress key) message signature
      simp only [withTransient, hsweep]
      cases state.deposits.sweep depositIds (minterAddress key) message signature <;> rfl

theorem processTransactionSubmitted_withTransient (signature : Signature) (message : Message)
    (signers : List Signer) (purpose : TransactionPurpose) (timestamp : Timestamp) :
    (state.withTransient transient).processTransactionSubmitted signature message signers purpose
        timestamp =
      (state.processTransactionSubmitted signature message signers purpose timestamp).map
        (·.withTransient transient) := by
  simp only [processTransactionSubmitted, map_bind, map_pure, submitTransaction_withTransient]
  refine bind_congr fun _ => bind_congr fun _ => ?_
  cases state.submitTransaction signature message signers purpose timestamp <;> rfl

omit [SolanaSdk] in
/-- A transition of the deposits that does not touch the watchlist. -/
theorem bindDeposits_withTransient (op : Deposits → Except Panic Deposits)
    (hop : ∀ watchlist, op (state.deposits.withWatchlist watchlist) =
      (op state.deposits).map (·.withWatchlist watchlist)) :
    (do let deposits ← op (state.withTransient transient).deposits
        return { state.withTransient transient with deposits }) =
      (do let deposits ← op state.deposits
          return { state with deposits } : Except Panic State).map (·.withTransient transient) := by
  have htransient : op (state.withTransient transient).deposits =
      (op state.deposits).map (·.withWatchlist transient.watchlist) := hop transient.watchlist
  rw [htransient]
  cases op state.deposits <;> rfl

omit [SolanaSdk] in
theorem concludeSucceeded_withTransient (signature : Signature) (transaction : MinterTransaction) :
    (state.withTransient transient).concludeSucceeded signature transaction =
      (state.concludeSucceeded signature transaction).map (·.withTransient transient) := by
  cases transaction with
  | sweepDeposit blockHeight =>
      exact bindDeposits_withTransient state transient (·.finalizeSwept signature)
        (state.deposits.finalizeSwept_withWatchlist · signature)
  | withdrawal message nonceAccount nonceValue submittedAt =>
      simp only [concludeSucceeded, map_bind, map_pure]
      rfl

omit [SolanaSdk] in
theorem concludeFailed_withTransient (signature : Signature) (transaction : MinterTransaction) :
    (state.withTransient transient).concludeFailed signature transaction =
      (state.concludeFailed signature transaction).map (·.withTransient transient) := by
  cases transaction with
  | sweepDeposit blockHeight =>
      exact bindDeposits_withTransient state transient (·.dropSwept signature)
        (state.deposits.dropSwept_withWatchlist · signature)
  | withdrawal message nonceAccount nonceValue submittedAt =>
      simp only [concludeFailed, map_bind, map_pure]
      rfl

omit [SolanaSdk] in
theorem processTransactionSucceeded_withTransient (signature : Signature) :
    (state.withTransient transient).processTransactionSucceeded signature =
      (state.processTransactionSucceeded signature).map (·.withTransient transient) := by
  simp only [processTransactionSucceeded, map_bind, map_pure]
  refine bind_congr fun _ => bind_congr fun removed => ?_
  have hconclude := concludeSucceeded_withTransient
    { state with submittedTransactions := removed.2 } transient signature removed.1
  simp only [withTransient] at hconclude ⊢
  rw [hconclude]
  cases concludeSucceeded { state with submittedTransactions := removed.2 } signature removed.1 <;>
    rfl

omit [SolanaSdk] in
theorem processTransactionFailed_withTransient (signature : Signature) :
    (state.withTransient transient).processTransactionFailed signature =
      (state.processTransactionFailed signature).map (·.withTransient transient) := by
  simp only [processTransactionFailed, map_bind, map_pure]
  refine bind_congr fun _ => bind_congr fun removed => ?_
  have hconclude := concludeFailed_withTransient
    { state with submittedTransactions := removed.2 } transient signature removed.1
  simp only [withTransient] at hconclude ⊢
  rw [hconclude]
  cases concludeFailed { state with submittedTransactions := removed.2 } signature removed.1 <;> rfl

omit [SolanaSdk] in
theorem processTransactionExpired_withTransient (signature : Signature) :
    (state.withTransient transient).processTransactionExpired signature =
      (state.processTransactionExpired signature).map (·.withTransient transient) := by
  simp only [processTransactionExpired, map_bind]
  refine bind_congr fun _ => bind_congr fun _ => bind_congr fun removed => ?_
  obtain ⟨transaction, submitted⟩ := removed
  cases transaction with
  | sweepDeposit blockHeight =>
      exact bindDeposits_withTransient { state with submittedTransactions := submitted } transient
        (·.dropSwept signature) (state.deposits.dropSwept_withWatchlist · signature)
  | withdrawal => rfl

omit [SolanaSdk] in
theorem processCreditedSweep_withTransient (signature : Signature) (amountReceived : Lamport)
    (mints : List CreditedDeposit) (timestamp : Timestamp) :
    (state.withTransient transient).processCreditedSweep signature amountReceived mints timestamp =
      (state.processCreditedSweep signature amountReceived mints timestamp).map
        (·.withTransient transient) := by
  simp only [processCreditedSweep, map_bind, map_pure]
  have hcredit := state.deposits.creditSweep_withWatchlist transient.watchlist signature mints
    timestamp
  simp only [withTransient, hcredit]
  cases state.deposits.creditSweep signature mints timestamp <;> rfl

omit [SolanaSdk] in
theorem cacheMinterPublicKey_withTransient (key : SchnorrPublicKey) :
    (state.withTransient transient).cacheMinterPublicKey key =
      (state.cacheMinterPublicKey key).map (·.withTransient transient) := by
  cases hcached : state.minterPublicKey with
  | none => simp [cacheMinterPublicKey, withTransient, hcached, Except.map]
  | some cached =>
      by_cases heq : cached = key
      · simp [cacheMinterPublicKey, withTransient, hcached, heq, Except.map]
      · simp [cacheMinterPublicKey, withTransient, hcached, heq, Except.map]

end

/-- An applied event applies in the same way to the persistent part of the state. -/
theorem apply_persistent [SolanaSdk] {state state' : State} {payload : EventType}
    {timestamp : Timestamp} (h : applyStateTransition state payload timestamp = .ok state') :
    applyStateTransition state.persistent payload timestamp = .ok state'.persistent := by
  -- except for a queued deposit, the event commutes with any change of the transient fields
  have hmap {result result' : Except Panic State} (hok : result = .ok state')
      (heq : result' = result.map (·.withTransient .initial)) : result' = .ok state'.persistent := by
    rw [heq, hok]
    rfl
  cases payload with
  | init args => cases h
  | upgrade args =>
      refine mapError_eq_ok.mpr ?_
      rw [persistent, upgrade_withTransient, mapError_eq_ok.mp h]
      rfl
  | acceptedWithdrawalRequest request =>
      refine hmap h ?_
      simp only [applyStateTransition, processAcceptedWithdrawal, map_bind, map_pure]
      rfl
  | submittedTransaction signature message signers purpose =>
      exact hmap h (processTransactionSubmitted_withTransient ..)
  | succeededTransaction signature => exact hmap h (processTransactionSucceeded_withTransient ..)
  | failedTransaction signature => exact hmap h (processTransactionFailed_withTransient ..)
  | expiredTransaction signature => exact hmap h (processTransactionExpired_withTransient ..)
  | queuedDeposit depositId deposit =>
      obtain ⟨deposits, hqueue, hstate⟩ := bind_eq_ok.mp h
      obtain rfl := pure_eq_ok.mp hstate
      exact bind_eq_ok.mpr ⟨_, Deposits.queue_withWatchlist_default hqueue, rfl⟩
  | creditedSweep signature amountReceived mints =>
      exact hmap h (processCreditedSweep_withTransient ..)
  | quarantinedSweep signature =>
      exact hmap h (bindDeposits_withTransient state .initial (·.quarantineSweep signature)
        (state.deposits.quarantineSweep_withWatchlist · signature))
  | minterPublicKeyFetched key => exact hmap h (cacheMinterPublicKey_withTransient ..)
  | mintedSweptDeposit depositId mintBlockIndex =>
      exact hmap h (bindDeposits_withTransient state .initial (·.mint depositId mintBlockIndex)
        (state.deposits.mint_withWatchlist · depositId mintBlockIndex))
  | quarantinedPendingMint depositId =>
      exact hmap h (bindDeposits_withTransient state .initial (·.quarantinePendingMint depositId)
        (state.deposits.quarantinePendingMint_withWatchlist · depositId))
  | createdWithdrawalTransaction burnIndices nonceAccount nonceValue =>
      refine hmap h ?_
      simp only [applyStateTransition, processTransactionCreated, map_bind, map_pure]
      rfl

end State

/-! ## Runs -/

namespace Canister

variable [SolanaSdk] {now : Timestamp}

/-- One change of the canister: an event that `Emits` admits, or other transient fields. -/
inductive Step (Emits : State → Timestamp → EventType → Prop) : Canister → Canister → Prop
  | event {canister canister' : Canister} {payload : EventType} {now : Timestamp}
      (hemits : Emits canister.state now payload)
      (h : canister.processEvent payload now = .ok canister') : Step Emits canister canister'
  | transient (canister : Canister) (transient : State.Transient) :
      Step Emits canister ⟨canister.state.withTransient transient, canister.log⟩

/-- Any number of changes. -/
abbrev Run (Emits : State → Timestamp → EventType → Prop) : Canister → Canister → Prop :=
  Relation.ReflTransGen (Step Emits)

variable {Emits : State → Timestamp → EventType → Prop} {canister canister' : Canister}

theorem processEvent_eq_ok {payload : EventType} :
    canister.processEvent payload now = .ok canister' ↔
      ∃ state, applyStateTransition canister.state payload now = .ok state ∧
        canister' = ⟨state, canister.log ++ [⟨now, payload⟩]⟩ := by
  simp only [processEvent, bind_eq_ok, pure_eq_ok, eq_comm (b := canister')]

theorem Run.event {payload : EventType} (h : canister.processEvent payload now = .ok canister')
    (hemits : Emits canister.state now payload) : Run Emits canister canister' :=
  .single (.event hemits h)

theorem Run.transient (canister : Canister) (transient : State.Transient) :
    Run Emits canister ⟨canister.state.withTransient transient, canister.log⟩ :=
  .single (.transient canister transient)

/-- A replay of the log gives the persistent part of the state. -/
def Replayable (canister : Canister) : Prop :=
  replayEvents canister.log = .ok canister.state.persistent

theorem replayable_of_init {args : InitArgs} (h : Canister.init args now = .ok canister) :
    canister.Replayable := by
  simp only [Canister.init, bind_eq_ok, mapError_eq_ok, pure_eq_ok] at h
  obtain ⟨state, hstate, rfl⟩ := h
  have hpersistent : state.persistent = state := by
    obtain ⟨_, pool, -, -, rfl⟩ := State.exists_of_tryFrom hstate
    rfl
  simp only [Replayable, replayEvents, hpersistent, hstate]
  rfl

theorem replayEvents_append {log : List Event} {state : State} (event : Event)
    (h : replayEvents log = .ok state) :
    replayEvents (log ++ [event]) = applyStateTransition state event.payload event.timestamp := by
  cases log with
  | nil => cases h
  | cons first events =>
      obtain ⟨t, payload⟩ := first
      cases payload with
      | init args =>
          simp only [replayEvents, bind_eq_ok] at h
          obtain ⟨state₀, hinit, hevents⟩ := h
          simp only [List.cons_append, replayEvents, hinit]
          show (events ++ [event]).foldlM _ state₀ = _
          rw [List.foldlM_append, hevents]
          exact bind_pure (applyStateTransition state event.payload event.timestamp)
      | _ => cases h

/-- A run keeps the log replayable. -/
theorem Replayable.run (hreplay : canister.Replayable) (h : Run Emits canister canister') :
    canister'.Replayable := by
  induction h with
  | refl => exact hreplay
  | tail _ hstep ih =>
      cases hstep with
      | event _ h =>
          obtain ⟨state, happly, rfl⟩ := processEvent_eq_ok.mp h
          rw [Replayable, replayEvents_append _ ih]
          exact State.apply_persistent happly
      | transient => exact ih

/-- An upgrade rebuilds the state from the log: it resets the transient fields, and then records the
parameters it was given. -/
theorem postUpgrade_eq_ok {args : Option UpgradeArgs} (hreplay : canister.Replayable)
    (h : canister.postUpgrade args now = .ok canister') :
    (args = none ∧ canister' = ⟨canister.state.persistent, canister.log⟩) ∨
      ∃ upgradeArgs, args = some upgradeArgs ∧
        (⟨canister.state.persistent, canister.log⟩ : Canister).processEvent (.upgrade upgradeArgs)
          now = .ok canister' := by
  simp only [postUpgrade, bind_eq_ok] at h
  obtain ⟨state, hstate, h⟩ := h
  obtain rfl : canister.state.persistent = state := by
    rw [Replayable, hstate] at hreplay
    exact (Except.ok.inj hreplay).symm
  cases args with
  | none => exact .inl ⟨rfl, (pure_eq_ok.mp h).symm⟩
  | some upgradeArgs => exact .inr ⟨upgradeArgs, rfl, h⟩

end Canister

end Cksol
