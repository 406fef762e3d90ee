import Cksol.State.Effects

/-! # Created transactions and the order of events

A created transaction touches its own nonce account and its own requests. So it can be applied whenever
these are available, and it commutes with the other created transactions and with the events that other
tasks record in between.
-/

namespace Cksol

open Std

/-- What a created transaction binds. -/
structure Creation where
  burnIndices : List LedgerBurnIndex
  nonceAccount : Address
  nonceValue : Hash
deriving DecidableEq

namespace Creation

/-- Transactions on different nonce accounts that share no request. -/
def Independent (creation creation' : Creation) : Prop :=
  creation.nonceAccount ≠ creation'.nonceAccount ∧
    creation.burnIndices.Disjoint creation'.burnIndices

theorem Independent.symm {creation creation' : Creation} (h : creation.Independent creation') :
    creation'.Independent creation :=
  ⟨h.1.symm, List.disjoint_symm h.2⟩

instance : Std.Symm Independent := ⟨fun _ _ => Independent.symm⟩

end Creation

/-- The creation that an event records. -/
def EventType.creation : EventType → Option Creation
  | .createdWithdrawalTransaction burnIndices nonceAccount nonceValue =>
      some ⟨burnIndices, nonceAccount, nonceValue⟩
  | _ => none

namespace State

variable {transaction : MinterTransaction}

/-- The values that an account has carried. -/
def seenNonceValues (state : State) (nonceAccount : Address) : OrdSet Hash :=
  state.noncePool.accounts[nonceAccount]?.elim ∅ NonceAccount.seenNonceValues

/-- What the transaction debits. -/
def creationCost (state : State) (creation : Creation) : Lamport :=
  UInt64.ofNat (creation.burnIndices.map
    (state.pendingWithdrawalRequests.weightAt transferAmount)).sum + batchWithdrawalTxFee

/-- The state after a created transaction, without the checks. -/
def create (state : State) (creation : Creation) : State :=
  { state with
    noncePool := ⟨state.noncePool.accounts.insert creation.nonceAccount
      ⟨.bound, (state.seenNonceValues creation.nonceAccount).insert creation.nonceValue⟩⟩
    pendingWithdrawalRequests := state.pendingWithdrawalRequests.eraseAll creation.burnIndices
    createdWithdrawalRequests := OrdMap.moveAll creation.burnIndices state.pendingWithdrawalRequests
      state.createdWithdrawalRequests
    balance := state.balance - state.creationCost creation
    createdWithdrawalTxs := state.createdWithdrawalTxs.insert creation.nonceAccount
      ⟨creation.nonceValue, creation.burnIndices⟩ }

/-! ## When a transaction can be created -/

/-- Requests that are pending and not created yet can be moved. -/
theorem createRequests_ok {burnIndices : List LedgerBurnIndex} {creating : Creating}
    (hnodup : burnIndices.Nodup)
    (hpending : ∀ i ∈ burnIndices, ∃ pending, creating.pending[i]? = some pending)
    (hcreated : ∀ i ∈ burnIndices, creating.created[i]? = none)
    (htotal : creating.total.toNat +
      (burnIndices.map (creating.pending.weightAt transferAmount)).sum < 2 ^ 64) :
    ∃ creating', burnIndices.foldlM createRequest creating = .ok creating' := by
  induction burnIndices generalizing creating with
  | nil => exact ⟨creating, rfl⟩
  | cons i rest ih =>
      obtain ⟨hi, hrest⟩ := List.nodup_cons.mp hnodup
      obtain ⟨pending, hget⟩ := hpending i List.mem_cons_self
      have hweight : creating.pending.weightAt transferAmount i =
          pending.request.amountToTransfer.toNat := by
        rw [OrdMap.weightAt, hget]
        rfl
      have hne : ∀ j ∈ rest, i ≠ j := fun j hj heq => hi (heq ▸ hj)
      have hkept : ∀ j ∈ rest, (creating.pending.erase i)[j]? = creating.pending[j]? := by
        intro j hj
        rw [OrdMap.getElem?_erase_eq, if_neg (hne j hj)]
      rw [List.map_cons, List.sum_cons, hweight] at htotal
      have hsum : checkedAdd creating.total pending.request.amountToTransfer =
          some (creating.total + pending.request.amountToTransfer) := by
        rw [checkedAdd_eq_some, toNat_add_of_lt (by omega)]
      have hstep : createRequest creating i = .ok ⟨creating.pending.erase i,
          creating.created.insert i pending, creating.total + pending.request.amountToTransfer⟩ := by
        simp only [createRequest, bind_eq_ok, orPanic_eq_ok, check_eq_ok, pure_eq_ok]
        exact ⟨pending, hget, _, hsum, ⟨⟩, hcreated i List.mem_cons_self, rfl⟩
      rw [List.foldlM_cons, hstep]
      -- the rest is as pending, and as little created, as before
      refine ih hrest ?_ ?_ ?_
      · intro j hj
        rw [hkept j hj]
        exact hpending j (List.mem_cons_of_mem _ hj)
      · intro j hj
        rw [OrdMap.getElem?_insert_eq, if_neg (hne j hj)]
        exact hcreated j (List.mem_cons_of_mem _ hj)
      · have hsame : rest.map (OrdMap.weightAt transferAmount (creating.pending.erase i)) =
            rest.map (creating.pending.weightAt transferAmount) := by
          refine List.map_congr_left fun j hj => ?_
          rw [OrdMap.weightAt, OrdMap.weightAt, hkept j hj]
        dsimp only
        rw [hsame, toNat_add_of_lt (by omega)]
        omega

/-- A batch is created when its account is free, its value new, its requests pending and its cost
covered. -/
theorem processTransactionCreated_ok {state : State} (creation : Creation)
    (hfree : state.noncePool.IsFree creation.nonceAccount)
    (hunseen : ¬ state.noncePool.hasSeen creation.nonceAccount creation.nonceValue)
    (hnodup : creation.burnIndices.Nodup)
    (hpending : ∀ i ∈ creation.burnIndices, ∃ pending,
      state.pendingWithdrawalRequests[i]? = some pending)
    (hcreated : ∀ i ∈ creation.burnIndices, state.createdWithdrawalRequests[i]? = none)
    (hcost : (creation.burnIndices.map
      (state.pendingWithdrawalRequests.weightAt transferAmount)).sum + batchWithdrawalTxFee.toNat ≤
        state.balance.toNat)
    (hnew : state.createdWithdrawalTxs[creation.nonceAccount]? = none) :
    ∃ state', state.processTransactionCreated creation.burnIndices creation.nonceAccount
      creation.nonceValue = .ok state' := by
  obtain ⟨seen, haccount⟩ := hfree
  rw [DurableNoncePool.hasSeen_of_getElem? haccount] at hunseen
  have hbalance := state.balance.toNat_lt
  obtain ⟨creating, hcreating⟩ : ∃ creating, creation.burnIndices.foldlM createRequest
      ⟨state.pendingWithdrawalRequests, state.createdWithdrawalRequests, 0⟩ = .ok creating :=
    createRequests_ok hnodup hpending hcreated (by dsimp only; rw [UInt64.toNat_zero]; omega)
  obtain ⟨-, htotal⟩ := createRequests_eq_ok hcreating
  have hdebit : checkedSub state.balance (creating.total + batchWithdrawalTxFee) =
      some (state.balance - (creating.total + batchWithdrawalTxFee)) := by
    have hfee := toNat_batchWithdrawalTxFee
    have hsum : (creating.total + batchWithdrawalTxFee).toNat =
        creating.total.toNat + batchWithdrawalTxFee.toNat := by
      rw [toNat_add_of_lt (by omega), hfee]
    rw [checkedSub_eq_some, UInt64.toNat_sub_of_le _ _ (UInt64.le_iff_toNat_le.mpr (by omega))]
    omega
  simp only [processTransactionCreated, DurableNoncePool.bind, bind_eq_ok, orPanic_eq_ok,
    check_eq_ok, pure_eq_ok]
  exact ⟨_, _, ⟨_, haccount, ⟨⟩, rfl, ⟨⟩, hunseen, rfl⟩, creating, hcreating, _, hdebit, ⟨⟩, hnew, rfl⟩

/-- The effect of a created transaction. -/
theorem Effect.eq_create [SolanaSdk] {state state' : State} {timestamp : Timestamp}
    (creation : Creation)
    (h : state.Effect timestamp (.createdWithdrawalTransaction creation.burnIndices
      creation.nonceAccount creation.nonceValue) state') : state' = state.create creation := by
  cases h with
  | @createdWithdrawal _ _ _ seen _ _ total _ haccount hunseen hmoved htotal hbalance hnew =>
      obtain ⟨rfl, rfl⟩ := hmoved.eq_moveAll
      have hseen : state.seenNonceValues creation.nonceAccount = seen := by
        rw [seenNonceValues, haccount, Option.elim_some]
      have hcost : state.creationCost creation = total + batchWithdrawalTxFee := by
        rw [creationCost, ← htotal, UInt64.ofNat_toNat]
      rw [create, hseen, hcost]
      unfold checkedSub at hbalance
      split at hbalance
      · rw [Option.some.inj hbalance]
      · cases hbalance

/-! ## Order of created transactions -/

variable {state : State} {creation creation' : Creation} {signature : Signature}

/-- A created transaction leaves the pending requests of others alone. -/
theorem weights_create (hdisjoint : creation.burnIndices.Disjoint creation'.burnIndices) :
    creation'.burnIndices.map ((state.create creation).pendingWithdrawalRequests.weightAt
        transferAmount) =
      creation'.burnIndices.map (state.pendingWithdrawalRequests.weightAt transferAmount) := by
  refine List.map_congr_left fun i hi => ?_
  rw [OrdMap.weightAt, create, OrdMap.getElem?_eraseAll, if_neg fun hmem => hdisjoint hmem hi,
    OrdMap.weightAt]

theorem creationCost_create (hdisjoint : creation.burnIndices.Disjoint creation'.burnIndices) :
    (state.create creation).creationCost creation' = state.creationCost creation' := by
  rw [creationCost, weights_create hdisjoint, creationCost]

theorem seenNonceValues_create {nonceAccount : Address} (hne : creation.nonceAccount ≠ nonceAccount) :
    (state.create creation).seenNonceValues nonceAccount = state.seenNonceValues nonceAccount := by
  rw [seenNonceValues, create, OrdMap.getElem?_insert_eq, if_neg hne, seenNonceValues]

/-- Independent transactions can be created in either order. -/
theorem create_comm (state : State) (h : creation.Independent creation') :
    (state.create creation).create creation' = (state.create creation').create creation := by
  have hdisjoint (i : LedgerBurnIndex) (hi : i ∈ creation.burnIndices)
      (hi' : i ∈ creation'.burnIndices) : False := h.2 hi hi'
  have hinsert {V : Type} (m : OrdMap Address V) (v v' : V) :
      (m.insert creation.nonceAccount v).insert creation'.nonceAccount v' =
        (m.insert creation'.nonceAccount v').insert creation.nonceAccount v := by
    refine ExtTreeMap.ext_getElem? fun a => ?_
    have hne := h.1
    simp only [OrdMap.getElem?_insert_eq]
    grind
  have hpending : (state.pendingWithdrawalRequests.eraseAll creation.burnIndices).eraseAll
      creation'.burnIndices = (state.pendingWithdrawalRequests.eraseAll
        creation'.burnIndices).eraseAll creation.burnIndices := by
    refine ExtTreeMap.ext_getElem? fun i => ?_
    simp only [OrdMap.getElem?_eraseAll]
    grind
  have hcreated : ((state.create creation).create creation').createdWithdrawalRequests =
      ((state.create creation').create creation).createdWithdrawalRequests := by
    refine ExtTreeMap.ext_getElem? fun i => ?_
    simp only [create, OrdMap.getElem?_moveAll, OrdMap.getElem?_eraseAll]
    grind
  have hbalance : state.balance - state.creationCost creation - state.creationCost creation' =
      state.balance - state.creationCost creation' - state.creationCost creation := by
    grind
  rw [create, create.eq_def (state.create creation'), creationCost_create h.2,
    creationCost_create h.symm.2, seenNonceValues_create h.1, seenNonceValues_create h.symm.1]
  simp only [create, State.mk.injEq, true_and] at hcreated ⊢
  refine ⟨hpending, hcreated, hinsert _ _ _, ?_, hbalance⟩
  rw [hinsert]

/-! ## Events of other tasks -/

/-- Releasing another account. -/
theorem free_create (state : State) (creation : Creation) {nonceAccount : Address}
    (hne : nonceAccount ≠ creation.nonceAccount) :
    (do let noncePool ← (state.create creation).noncePool.free nonceAccount
        return { state.create creation with noncePool }) =
      (do let noncePool ← state.noncePool.free nonceAccount
          return { state with noncePool } : Except Panic State).map (·.create creation) := by
  have hget : (state.create creation).noncePool.accounts[nonceAccount]? =
      state.noncePool.accounts[nonceAccount]? := by
    rw [create, OrdMap.getElem?_insert_eq, if_neg (Ne.symm hne)]
  simp only [DurableNoncePool.free, hget, bind_assoc, pure_bind, map_bind, map_pure]
  refine bind_congr fun account => bind_congr fun _ => congrArg pure ?_
  have hseen : ({ state with noncePool := ⟨state.noncePool.accounts.insert nonceAccount
      ⟨.free, account.seenNonceValues⟩⟩ } : State).seenNonceValues creation.nonceAccount =
        state.seenNonceValues creation.nonceAccount := by
    rw [seenNonceValues, OrdMap.getElem?_insert_eq, if_neg hne, seenNonceValues]
  have hinsert {V : Type} (m : OrdMap Address V) (v v' : V) :
      (m.insert creation.nonceAccount v).insert nonceAccount v' =
        (m.insert nonceAccount v').insert creation.nonceAccount v := by
    refine ExtTreeMap.ext_getElem? fun a => ?_
    simp only [OrdMap.getElem?_insert_eq]
    grind
  simp only [create, hseen, hinsert]
  rfl

theorem concludeSucceeded_create (state : State) (creation : Creation) {signature : Signature}
    (hne : ∀ message account value submittedAt,
      transaction = .withdrawal message account value submittedAt → account ≠ creation.nonceAccount) :
    (state.create creation).concludeSucceeded signature transaction =
      (state.concludeSucceeded signature transaction).map (·.create creation) := by
  cases transaction with
  | sweepDeposit blockHeight =>
      simp only [concludeSucceeded, map_bind, map_pure]
      rfl
  | withdrawal message nonceAccount nonceValue submittedAt =>
      exact free_create state creation (hne _ _ _ _ rfl)

theorem concludeFailed_create (state : State) (creation : Creation) {signature : Signature}
    (hne : ∀ message account value submittedAt,
      transaction = .withdrawal message account value submittedAt → account ≠ creation.nonceAccount) :
    (state.create creation).concludeFailed signature transaction =
      (state.concludeFailed signature transaction).map (·.create creation) := by
  cases transaction with
  | sweepDeposit blockHeight =>
      simp only [concludeFailed, map_bind, map_pure]
      rfl
  | withdrawal message nonceAccount nonceValue submittedAt =>
      exact free_create state creation (hne _ _ _ _ rfl)

/-- A submitted withdrawal under the signature does not use the nonce account of the transaction. -/
def ConcludesOther (state : State) (signature : Signature) (creation : Creation) : Prop :=
  ∀ message account value submittedAt,
    state.submittedTransactions.get signature = some (.withdrawal message account value submittedAt) →
    account ≠ creation.nonceAccount

theorem ConcludesOther.removed (h : state.ConcludesOther signature creation)
    {submitted : InsertionOrderedMap Signature MinterTransaction}
    (hremove : state.submittedTransactions.remove signature = some (transaction, submitted))
    (message : Message) (account : Address) (value : Hash) (submittedAt : Timestamp)
    (heq : transaction = .withdrawal message account value submittedAt) :
    account ≠ creation.nonceAccount :=
  h message account value submittedAt (heq ▸ (InsertionOrderedMap.remove_eq_some hremove).1)

theorem processTransactionSucceeded_create (state : State) (creation : Creation)
    (hother : state.ConcludesOther signature creation) :
    (state.create creation).processTransactionSucceeded signature =
      (state.processTransactionSucceeded signature).map (·.create creation) := by
  have hsubmitted : (state.create creation).submittedTransactions = state.submittedTransactions := rfl
  simp only [processTransactionSucceeded, map_bind, map_pure, hsubmitted]
  refine bind_congr fun _ => ?_
  cases hremove : state.submittedTransactions.remove signature with
  | none => rfl
  | some removed =>
      have hconclude : (State.create { state with submittedTransactions := removed.2 }
          creation).concludeSucceeded signature removed.1 = _ :=
        concludeSucceeded_create _ creation (hother.removed hremove)
      show ((State.create { state with submittedTransactions := removed.2 }
          creation).concludeSucceeded signature removed.1 >>= _) =
        (concludeSucceeded { state with submittedTransactions := removed.2 } signature removed.1 >>= _)
      rw [hconclude]
      cases concludeSucceeded { state with submittedTransactions := removed.2 } signature
        removed.1 <;> rfl

theorem processTransactionFailed_create (state : State) (creation : Creation)
    (hother : state.ConcludesOther signature creation) :
    (state.create creation).processTransactionFailed signature =
      (state.processTransactionFailed signature).map (·.create creation) := by
  have hsubmitted : (state.create creation).submittedTransactions = state.submittedTransactions := rfl
  simp only [processTransactionFailed, map_bind, map_pure, hsubmitted]
  refine bind_congr fun _ => ?_
  cases hremove : state.submittedTransactions.remove signature with
  | none => rfl
  | some removed =>
      have hconclude : (State.create { state with submittedTransactions := removed.2 }
          creation).concludeFailed signature removed.1 = _ :=
        concludeFailed_create _ creation (hother.removed hremove)
      show ((State.create { state with submittedTransactions := removed.2 }
          creation).concludeFailed signature removed.1 >>= _) =
        (concludeFailed { state with submittedTransactions := removed.2 } signature removed.1 >>= _)
      rw [hconclude]
      cases concludeFailed { state with submittedTransactions := removed.2 } signature
        removed.1 <;> rfl

theorem processTransactionExpired_create (state : State) (creation : Creation)
    (signature : Signature) :
    (state.create creation).processTransactionExpired signature =
      (state.processTransactionExpired signature).map (·.create creation) := by
  simp only [processTransactionExpired, map_bind]
  refine bind_congr fun _ => bind_congr fun _ => bind_congr fun removed => ?_
  obtain ⟨transaction, submitted⟩ := removed
  cases transaction with
  | sweepDeposit blockHeight =>
      simp only [map_bind, map_pure]
      rfl
  | withdrawal => rfl

/-- Accepting another request. -/
theorem processAcceptedWithdrawal_create (state : State) (creation : Creation)
    {request : WithdrawalRequest} (timestamp : Timestamp)
    (hother : request.burnBlockIndex ∉ creation.burnIndices) :
    (state.create creation).processAcceptedWithdrawal request timestamp =
      (state.processAcceptedWithdrawal request timestamp).map (·.create creation) := by
  have hget : (state.create creation).pendingWithdrawalRequests[request.burnBlockIndex]? =
      state.pendingWithdrawalRequests[request.burnBlockIndex]? := by
    rw [create, OrdMap.getElem?_eraseAll, if_neg hother]
  simp only [processAcceptedWithdrawal, map_bind, map_pure, hget]
  refine bind_congr fun _ => congrArg pure ?_
  have hkept (i : LedgerBurnIndex) (hi : i ∈ creation.burnIndices) :
      (state.pendingWithdrawalRequests.insert request.burnBlockIndex ⟨request, timestamp⟩)[i]? =
        state.pendingWithdrawalRequests[i]? := by
    have hne : request.burnBlockIndex ≠ i := fun heq => hother (heq ▸ hi)
    rw [OrdMap.getElem?_insert_eq, if_neg hne]
  have hpending : (state.pendingWithdrawalRequests.eraseAll creation.burnIndices).insert
      request.burnBlockIndex ⟨request, timestamp⟩ =
        OrdMap.eraseAll (state.pendingWithdrawalRequests.insert
          request.burnBlockIndex ⟨request, timestamp⟩) creation.burnIndices := by
    refine ExtTreeMap.ext_getElem? fun i => ?_
    simp only [OrdMap.getElem?_eraseAll, OrdMap.getElem?_insert_eq]
    grind
  have hcreated : OrdMap.moveAll creation.burnIndices state.pendingWithdrawalRequests
      state.createdWithdrawalRequests = OrdMap.moveAll creation.burnIndices
        (state.pendingWithdrawalRequests.insert request.burnBlockIndex ⟨request, timestamp⟩)
        state.createdWithdrawalRequests := by
    refine ExtTreeMap.ext_getElem? fun i => ?_
    simp only [OrdMap.getElem?_moveAll]
    split
    case isTrue hi => rw [hkept i hi]
    case isFalse => rfl
  have hcost : state.creationCost creation = State.creationCost { state with
      pendingWithdrawalRequests := state.pendingWithdrawalRequests.insert request.burnBlockIndex
        ⟨request, timestamp⟩ } creation := by
    rw [creationCost, creationCost]
    refine congrArg (fun weights => UInt64.ofNat (List.sum weights) + batchWithdrawalTxFee) ?_
    refine List.map_congr_left fun i hi => ?_
    rw [OrdMap.weightAt, OrdMap.weightAt, hkept i hi]
  simp only [create, State.mk.injEq, true_and]
  exact ⟨hpending, hcreated, rfl, by rw [hcost]⟩

end State

/-- The events that other messages record while transactions are being created. -/
def EventType.isBystander : EventType → Bool
  | .init _ | .upgrade _ | .createdWithdrawalTransaction .. => false
  | .submittedTransaction _ _ _ (.withdrawal _) => false
  | _ => true

namespace State

/-- The event serves neither the requests nor the nonce account of the transaction. -/
structure Avoids (state : State) (payload : EventType) (creation : Creation) : Prop where
  accepted : ∀ request, payload = .acceptedWithdrawalRequest request →
    request.burnBlockIndex ∉ creation.burnIndices
  concluded : ∀ signature,
    payload = .succeededTransaction signature ∨ payload = .failedTransaction signature →
    state.ConcludesOther signature creation

/-- An event of another task has the same outcome before and after a created transaction. -/
theorem apply_create [SolanaSdk] (state : State) (creation : Creation) {payload : EventType}
    (timestamp : Timestamp) (hkind : payload.isBystander) (havoids : state.Avoids payload creation) :
    applyStateTransition (state.create creation) payload timestamp =
      (applyStateTransition state payload timestamp).map (·.create creation) := by
  cases payload with
  | init | upgrade | createdWithdrawalTransaction => cases hkind
  | acceptedWithdrawalRequest request =>
      exact processAcceptedWithdrawal_create state creation timestamp (havoids.accepted _ rfl)
  | submittedTransaction signature message signers purpose =>
      cases purpose with
      | withdrawal burnIndices => cases hkind
      | sweepDeposit depositIds blockHeight =>
          simp only [applyStateTransition, processTransactionSubmitted, submitTransaction, map_bind,
            map_pure, bind_assoc]
          rfl
  | succeededTransaction signature =>
      exact processTransactionSucceeded_create state creation (havoids.concluded _ (.inl rfl))
  | failedTransaction signature =>
      exact processTransactionFailed_create state creation (havoids.concluded _ (.inr rfl))
  | expiredTransaction signature => exact processTransactionExpired_create state creation signature
  -- the balance goes up and down in either order
  | creditedSweep signature amountReceived mints =>
      simp only [applyStateTransition, processCreditedSweep, map_bind, map_pure]
      refine bind_congr fun credited => bind_congr fun _ => congrArg pure ?_
      have hbalance : state.balance - state.creationCost creation + amountReceived =
          state.balance + amountReceived - state.creationCost creation := by grind
      simp only [create, hbalance]
      rfl
  | minterPublicKeyFetched key =>
      have hsame : (state.create creation).minterPublicKey = state.minterPublicKey := rfl
      simp only [applyStateTransition, cacheMinterPublicKey, hsame]
      cases state.minterPublicKey with
      | none => rfl
      | some cached =>
          dsimp only
          split <;> rfl
  | queuedDeposit depositId deposit =>
      simp only [applyStateTransition, processQueuedDeposit, map_bind, map_pure]
      rfl
  | quarantinedSweep signature =>
      simp only [applyStateTransition, processQuarantinedSweep, map_bind, map_pure]
      rfl
  | mintedSweptDeposit depositId mintBlockIndex =>
      simp only [applyStateTransition, processMintedSweptDeposit, map_bind, map_pure]
      rfl
  | quarantinedPendingMint depositId =>
      simp only [applyStateTransition, processQuarantinedPendingMint, map_bind, map_pure]
      rfl

end State

end Cksol
