import Cksol.Minter.Signing
import Cksol.State.Submissions

/-! # What holds a nonce account, and what releases it

A nonce account is held with a value by the created or submitted transaction that refers to it. Only
the success or the failure of a submitted withdrawal releases it, and a round of finalization records
these only for withdrawals that it took from the state.
-/

namespace Cksol

open NonceReference (RefersTo)

variable {replies : List (Option (List (Option SignatureStatus)))}
  {Emits : State → Timestamp → EventType → Prop} {submittedAt : Timestamp} {message : Message}

/-- A transaction refers to the account with the nonce value. -/
def State.HeldWith (state : State) (account : Address) (value : Hash) : Prop :=
  ∃ reference, RefersTo state.createdWithdrawalTxs state.submittedTransactions account reference ∧
    reference.nonceValue = value

/-- An event that neither binds nor releases a nonce account. -/
def Quiet (state : State) (_ : Timestamp) (payload : EventType) : Prop :=
  (∀ burnIndices account value, payload ≠ .createdWithdrawalTransaction burnIndices account value) ∧
    ∀ signature,
      (payload = .succeededTransaction signature ∨ payload = .failedTransaction signature) →
      ¬ IsWithdrawal state.submittedTransactions signature

theorem State.heldWith_of_created {state : State} {account : Address}
    {transaction : CreatedWithdrawalTransaction}
    (h : state.createdWithdrawalTxs[account]? = some transaction) :
    state.HeldWith account transaction.nonceValue :=
  ⟨.created transaction, h, rfl⟩

theorem State.heldWith_of_submitted {state : State} {signature : Signature} {account : Address}
    {value : Hash} (h : state.submittedTransactions.get signature =
      some (.withdrawal message account value submittedAt)) : state.HeldWith account value :=
  ⟨.submitted signature message value submittedAt, h, rfl⟩

section Quiet

variable {state state' : State} {timestamp : Timestamp} {payload : EventType} {account : Address}
  {value : Hash} {nonceValue : Hash}

/-- The referring transactions stay, apart from those that the event takes away. -/
theorem State.HeldWith.congr (h : state.HeldWith account value)
    (hcreated : ∀ transaction, state.createdWithdrawalTxs[account]? = some transaction →
      state'.HeldWith account transaction.nonceValue)
    (hsubmitted : ∀ signature message value submittedAt, state.submittedTransactions.get signature =
        some (.withdrawal message account value submittedAt) →
      state'.submittedTransactions.get signature =
        some (.withdrawal message account value submittedAt)) : state'.HeldWith account value := by
  obtain ⟨reference, hrefers, rfl⟩ := h
  cases reference with
  | created transaction => exact hcreated transaction hrefers
  | submitted signature message value submittedAt =>
      exact heldWith_of_submitted (hsubmitted signature message value submittedAt hrefers)

/-- A quiet event keeps what holds an account. -/
theorem State.HeldWith.effect [SolanaSdk] (h : state.HeldWith account value)
    (heffect : state.Effect timestamp payload state') (hquiet : Quiet state timestamp payload) :
    state'.HeldWith account value := by
  -- a new signature takes no entry away, and neither does the removal of a sweep
  have hinserted {signature signature' : Signature} {transaction transaction' : MinterTransaction}
      (hnew : state.submittedTransactions.get signature = none)
      (hget : state.submittedTransactions.get signature' = some transaction) :
      (state.submittedTransactions.insert signature transaction').get signature' =
        some transaction := by
    rw [InsertionOrderedMap.get_insert, if_neg, hget]
    rintro rfl
    rw [hnew] at hget
    cases hget
  cases heffect with
  | createdWithdrawal => exact absurd rfl (hquiet.1 _ _ _)
  | succeededWithdrawal hfailed hsucceeded hremove haccount =>
      have hget := (InsertionOrderedMap.remove_eq_some hremove).1
      exact absurd ⟨_, _, _, _, hget⟩ (hquiet.2 _ (.inl rfl))
  | failedWithdrawal hsucceeded hfailed hremove haccount =>
      have hget := (InsertionOrderedMap.remove_eq_some hremove).1
      exact absurd ⟨_, _, _, _, hget⟩ (hquiet.2 _ (.inr rfl))
  | @sentWithdrawal signature message burnIndices nonceAccount nonceValue created sent hsucceeded
      hfailed hsubmitted hadvanced hcreated hbound hmoved =>
      refine h.congr ?_ fun _ _ _ _ hget => hinserted hsubmitted hget
      intro transaction htx
      by_cases heq : nonceAccount = account
      · -- the submitted transaction takes over
        subst heq
        obtain rfl := Option.some.inj (hcreated.symm.trans htx)
        exact heldWith_of_submitted (by rw [InsertionOrderedMap.get_insert, if_pos rfl])
      · exact heldWith_of_created (by rw [OrdMap.getElem?_erase_eq, if_neg heq, htx])
  | sweptDeposits hsucceeded hfailed hsubmitted hkey hsweep =>
      exact h.congr (fun _ htx => heldWith_of_created htx) fun _ _ _ _ hget =>
        hinserted hsubmitted hget
  | succeededSweep hfailed hsucceeded hremove hfinalize =>
      exact h.congr (fun _ htx => heldWith_of_created htx) fun _ _ _ _ hget =>
        (Canister.Tables.get_remove_sweep hremove).mpr hget
  | failedSweep hsucceeded hfailed hremove hdrop =>
      exact h.congr (fun _ htx => heldWith_of_created htx) fun _ _ _ _ hget =>
        (Canister.Tables.get_remove_sweep hremove).mpr hget
  | expiredSweep hsucceeded hfailed hremove hdrop =>
      exact h.congr (fun _ htx => heldWith_of_created htx) fun _ _ _ _ hget =>
        (Canister.Tables.get_remove_sweep hremove).mpr hget
  | _ => exact h

/-- A binding holds its account with the new value, and leaves what holds the others. -/
theorem State.HeldWith.bind [SolanaSdk] {burnIndices : List LedgerBurnIndex}
    {nonceAccount : Address} (heffect : state.Effect timestamp
      (.createdWithdrawalTransaction burnIndices nonceAccount nonceValue) state') :
    state'.HeldWith nonceAccount nonceValue ∧
      ∀ account value, account ≠ nonceAccount → state.HeldWith account value →
        state'.HeldWith account value := by
  cases heffect with
  | createdWithdrawal haccount hunseen hmoved htotal hbalance hnew =>
      refine ⟨?_, fun account value hne h => h.congr ?_ fun _ _ _ _ hget => hget⟩
      · refine ⟨.created ⟨nonceValue, burnIndices⟩, ?_, rfl⟩
        rw [RefersTo, OrdMap.getElem?_insert_eq, if_pos rfl]
      · intro transaction htx
        exact heldWith_of_created (by rw [OrdMap.getElem?_insert_eq, if_neg (Ne.symm hne), htx])

/-- The end of a submitted withdrawal releases its account, and leaves what holds the others. -/
theorem State.HeldWith.release [SolanaSdk] {signature : Signature} {nonceAccount : Address}
    (hget : state.submittedTransactions.get signature =
      some (.withdrawal message nonceAccount nonceValue submittedAt))
    (heffect : state.Effect timestamp payload state')
    (hpayload : payload = .succeededTransaction signature ∨ payload = .failedTransaction signature)
    (hne : account ≠ nonceAccount) (h : state.HeldWith account value) :
    state'.HeldWith account value := by
  -- a withdrawal of another account has another signature
  have hother {submitted : InsertionOrderedMap Signature MinterTransaction}
      {transaction : MinterTransaction}
      (hremove : state.submittedTransactions.remove signature = some (transaction, submitted))
      {signature' : Signature} {message' : Message} {value' : Hash} {submittedAt' : Timestamp}
      (hget' : state.submittedTransactions.get signature' =
        some (.withdrawal message' account value' submittedAt')) :
      submitted.get signature' = some (.withdrawal message' account value' submittedAt') := by
    rw [(InsertionOrderedMap.remove_eq_some hremove).2, if_neg, hget']
    rintro rfl
    rw [hget] at hget'
    exact hne (MinterTransaction.withdrawal.inj (Option.some.inj hget')).2.1.symm
  rcases hpayload with rfl | rfl
  · cases heffect with
    | succeededWithdrawal _ _ hremove =>
        exact h.congr (fun _ htx => heldWith_of_created htx) fun _ _ _ _ hget' => hother hremove hget'
    | succeededSweep _ _ hremove =>
        exact h.congr (fun _ htx => heldWith_of_created htx) fun _ _ _ _ hget' => hother hremove hget'
  · cases heffect with
    | failedWithdrawal _ _ hremove =>
        exact h.congr (fun _ htx => heldWith_of_created htx) fun _ _ _ _ hget' => hother hremove hget'
    | failedSweep _ _ hremove =>
        exact h.congr (fun _ htx => heldWith_of_created htx) fun _ _ _ _ hget' => hother hremove hget'

/-- A submitted withdrawal holds its account alone. -/
theorem State.HeldWith.eq_of_submitted (h : state.HeldWith account value)
    (htable : NonceTable state.noncePool state.createdWithdrawalTxs state.submittedTransactions)
    {signature : Signature} (hget : state.submittedTransactions.get signature =
      some (.withdrawal message account nonceValue submittedAt)) : value = nonceValue := by
  obtain ⟨reference, hrefers, rfl⟩ := h
  have hsame := htable.unique hrefers
    (show RefersTo state.createdWithdrawalTxs state.submittedTransactions account
      (.submitted signature message nonceValue submittedAt) from hget)
  rw [hsame]
  rfl

open Canister (Run)

variable [SolanaSdk] {canister canister' : Canister}

theorem State.HeldWith.run (h : canister.state.HeldWith account value)
    (hrun : Run Quiet canister canister') : canister'.state.HeldWith account value := by
  refine hrun.invariant (fun canister' => canister'.state.HeldWith account value) ?_ ?_ h
  · intro canister' transient h
    exact h
  · intro state log now payload state' hquiet h heffect
    exact h.effect heffect hquiet

/-- A quiet run adds no seen value. -/
theorem hasSeen_of_quiet (hrun : Run Quiet canister canister') (account : Address) (value : Hash) :
    canister'.state.noncePool.hasSeen account value ↔
      canister.state.noncePool.hasSeen account value := by
  refine hrun.invariant (fun canister' => canister'.state.noncePool.hasSeen account value ↔
    canister.state.noncePool.hasSeen account value) ?_ ?_ Iff.rfl
  · intro canister' transient hsame
    exact hsame
  · intro state log now payload state' hquiet hsame heffect
    rw [State.hasSeen_of_effect heffect, or_iff_left, hsame]
    rintro ⟨burnIndices, heq⟩
    exact hquiet.1 burnIndices account value heq

end Quiet

/-! ## Withdrawals that a round took from the state -/

/-- The withdrawal was built for a binding, and its signature is that of its transaction until it is
final. -/
structure InFlight [SolanaSdk] (state : State) (bindings : List Binding)
    (withdrawal : InFlightWithdrawal) : Prop where
  built : ∃ binding ∈ bindings, binding.nonceAccount = withdrawal.nonceAccount ∧
    binding.nonceValue = withdrawal.nonceValue ∧ state.Builds binding withdrawal.message
  recorded : state.submittedTransactions.get withdrawal.signature =
      some (.withdrawal withdrawal.message withdrawal.nonceAccount withdrawal.nonceValue
        withdrawal.submittedAt) ∨
    withdrawal.signature ∈ state.succeededTransactions ∨
    state.failedTransactions.get withdrawal.signature ≠ none

section InFlight

open Canister (Run)

variable [SolanaSdk] {state state' : State} {timestamp : Timestamp} {payload : EventType}
  {bindings bindings' : List Binding} {withdrawal : InFlightWithdrawal}

omit [SolanaSdk] in
theorem get_of_mem_inFlightWithdrawals (h : withdrawal ∈ state.inFlightWithdrawals) :
    state.submittedTransactions.get withdrawal.signature =
      some (.withdrawal withdrawal.message withdrawal.nonceAccount withdrawal.nonceValue
        withdrawal.submittedAt) := by
  obtain ⟨⟨signature, transaction⟩, hmem, hentry⟩ := List.mem_filterMap.mp h
  cases transaction with
  | sweepDeposit blockHeight => cases hentry
  | withdrawal message nonceAccount nonceValue submittedAt =>
      obtain rfl := Option.some.inj hentry
      exact InsertionOrderedMap.get_of_mem_iter hmem

theorem inFlight_of_mem {log : List Event} (hhistory : Bindings log state bindings)
    (h : withdrawal ∈ state.inFlightWithdrawals) : InFlight state bindings withdrawal := by
  have hget := get_of_mem_inFlightWithdrawals h
  exact ⟨hhistory.submitted hget, .inl hget⟩

/-- A recorded withdrawal stays recorded, or becomes final. -/
theorem InFlight.effect (h : InFlight state bindings withdrawal)
    (heffect : state.Effect timestamp payload state') : InFlight state' bindings withdrawal := by
  obtain ⟨binding, hmem, haccount, hvalue, hbuilds⟩ := h.built
  exact ⟨⟨binding, hmem, haccount, hvalue, hbuilds.effect heffect⟩,
    h.recorded.elim heffect.withdrawal_recorded fun hfinal => .inr (heffect.final hfinal)⟩

theorem InFlight.run {canister canister' : Canister}
    (h : InFlight canister.state bindings withdrawal) (hrun : Run Emits canister canister')
    (hextends : bindings <+: bindings') : InFlight canister'.state bindings' withdrawal := by
  have hsame : InFlight canister'.state bindings withdrawal := by
    refine hrun.invariant (fun canister' => InFlight canister'.state bindings withdrawal) ?_ ?_ h
    · intro canister' transient h
      exact ⟨h.built, h.recorded⟩
    · intro state log now payload state' _ h heffect
      exact h.effect heffect
  obtain ⟨binding, hmem, hrest⟩ := hsame.built
  exact ⟨⟨binding, hextends.subset hmem, hrest⟩, hsame.recorded⟩

end InFlight

/-! ## Sweeps that a round checks -/

section Checking

open Canister (Run)

variable {signature : Signature}

/-- The signature is that of a submitted sweep. -/
def IsSweep (submittedTxs : InsertionOrderedMap Signature MinterTransaction) (signature : Signature) :
    Prop :=
  ∃ blockHeight, submittedTxs.get signature = some (.sweepDeposit blockHeight)

theorem IsSweep.not_isWithdrawal {submittedTxs : InsertionOrderedMap Signature MinterTransaction}
    (h : IsSweep submittedTxs signature) :
    ¬ IsWithdrawal submittedTxs signature := by
  obtain ⟨blockHeight, hsweep⟩ := h
  rintro ⟨message, account, nonceValue, submittedAt, hget⟩
  rw [hsweep] at hget
  cases hget

theorem get_of_getElem?_blockhashTransactions {state : State} {blockHeight : BlockHeight}
    (h : state.blockhashTransactions[signature]? = some blockHeight) :
    state.submittedTransactions.get signature = some (.sweepDeposit blockHeight) := by
  rcases OrdMap.mem_of_getElem?_insertAll h with hentry | hnone
  · obtain ⟨⟨signature', transaction⟩, hiter, hentry⟩ := List.mem_filterMap.mp hentry
    cases transaction with
    | withdrawal => cases hentry
    | sweepDeposit height =>
        obtain ⟨rfl, rfl⟩ := Prod.mk.inj (Option.some.inj hentry)
        exact InsertionOrderedMap.get_of_mem_iter hiter
  · simp at hnone

theorem isSweep_of_mem_blockhashTransactions {state : State}
    (h : signature ∈ state.blockhashTransactions) :
    IsSweep state.submittedTransactions signature := by
  obtain ⟨blockHeight, hget⟩ := OrdMap.mem_iff_exists.mp h
  exact ⟨blockHeight, get_of_getElem?_blockhashTransactions hget⟩

/-- The signatures that the statuses are about. -/
def TransactionStatuses.signatures (statuses : TransactionStatuses) : Set Signature :=
  {signature | signature ∈ statuses.succeeded ∨ signature ∈ statuses.errored ∨
    signature ∈ statuses.notFound}

theorem TransactionStatuses.mem_signatures_record {statuses : TransactionStatuses}
    {signature signature' : Signature} {status : Option SignatureStatus}
    (h : signature' ∈ (statuses.record signature status).signatures) :
    signature' = signature ∨ signature' ∈ statuses.signatures := by
  simp only [signatures, Set.mem_ofPred_eq] at h ⊢
  unfold record at h
  split at h
  · rw [OrdMap.mem_insert_iff] at h
    grind
  · rw [OrdSet.mem_insert_iff] at h
    grind
  · exact .inr h
  · rw [OrdSet.mem_insert_iff] at h
    grind

theorem mem_of_mem_checkTransactionStatuses {batches : List (List Signature)}
    (h : signature ∈ (checkTransactionStatuses batches replies).signatures) :
    ∃ batch ∈ batches, signature ∈ batch := by
  have hfold : ∀ (entries : List (Signature × Option SignatureStatus)) statuses,
      signature ∈ (entries.foldl (fun statuses entry => statuses.record entry.1 entry.2)
        statuses : TransactionStatuses).signatures →
      signature ∈ entries.map Prod.fst ∨ signature ∈ statuses.signatures := by
    intro entries
    induction entries with
    | nil => exact fun _ h => .inr h
    | cons entry entries ih =>
        intro statuses h
        rcases ih _ h with hmem | hmem
        · exact .inl (List.mem_cons_of_mem _ hmem)
        · rcases TransactionStatuses.mem_signatures_record hmem with rfl | hmem
          · exact .inl List.mem_cons_self
          · exact .inr hmem
  rcases hfold _ _ h with hmem | hmem
  · obtain ⟨⟨signature', status⟩, hentry, rfl⟩ := List.mem_map.mp hmem
    obtain ⟨⟨batch, reply⟩, hzip, hentry⟩ := List.mem_flatMap.mp hentry
    exact ⟨batch, (List.of_mem_zip hzip).1, (List.of_mem_zip hentry).1⟩
  · simp [TransactionStatuses.signatures, TransactionStatuses.empty] at hmem

/-- The events of a status check are about the checked signatures. -/
theorem mem_sweepStatusEvents {transactions : OrdMap Signature BlockHeight}
    {currentBlockHeight : Option BlockHeight} {payload : EventType}
    (h : payload ∈ sweepStatusEvents transactions currentBlockHeight replies) :
    ∃ signature ∈ transactions, payload = .failedTransaction signature ∨
      payload = .succeededTransaction signature ∨ payload = .expiredTransaction signature := by
  have hchecked {signature : Signature} (hmem : signature ∈
      (checkTransactionStatuses (statusBatches transactions) replies).signatures) :
      signature ∈ transactions := by
    obtain ⟨batch, hbatch, hin⟩ := mem_of_mem_checkTransactionStatuses hmem
    have hkeys := mem_of_mem_chunks (by decide) (List.mem_of_mem_take hbatch) hin
    exact Std.ExtTreeMap.mem_keys.mp hkeys
  simp only [sweepStatusEvents, List.mem_append, List.mem_map] at h
  rcases h with (⟨signature, hmem, rfl⟩ | ⟨signature, hmem, rfl⟩) | ⟨signature, hmem, rfl⟩
  · exact ⟨signature, hchecked (.inr (.inl (Std.ExtTreeMap.mem_keys.mp hmem))), .inl rfl⟩
  · exact ⟨signature, hchecked (.inl (Std.ExtTreeSet.mem_toList.mp hmem)), .inr (.inl rfl)⟩
  · unfold expiredTransactions at hmem
    split at hmem
    · cases hmem
    · have hfound := Std.ExtTreeSet.mem_toList.mp (List.mem_of_mem_filter hmem)
      exact ⟨signature, hchecked (.inr (.inr hfound)), .inr (.inr rfl)⟩

variable [SolanaSdk]

/-- The events of finalization only take transactions away. -/
theorem State.get_of_finalization {state state' : State} {timestamp : Timestamp}
    {payload : EventType} {transaction : MinterTransaction}
    (heffect : state.Effect timestamp payload state') (hkind : payload.isFinalization)
    (hget : state'.submittedTransactions.get signature = some transaction) :
    state.submittedTransactions.get signature = some transaction := by
  cases heffect with
  | succeededWithdrawal _ _ hremove => exact InsertionOrderedMap.get_of_remove hremove hget
  | succeededSweep _ _ hremove => exact InsertionOrderedMap.get_of_remove hremove hget
  | failedWithdrawal _ _ hremove => exact InsertionOrderedMap.get_of_remove hremove hget
  | failedSweep _ _ hremove => exact InsertionOrderedMap.get_of_remove hremove hget
  | expiredSweep _ _ hremove => exact InsertionOrderedMap.get_of_remove hremove hget
  | sentWithdrawal => cases hkind
  | sweptDeposits => cases hkind
  | _ => exact hget

/-- A submitted sweep stays submitted until it is final. -/
theorem IsSweep.run {canister canister' : Canister}
    (h : IsSweep canister.state.submittedTransactions signature)
    (hrun : Run Emits canister canister')
    (hemits : ∀ state t payload, Emits state t payload → payload.isFinalization = false) :
    IsSweep canister'.state.submittedTransactions signature := by
  refine hrun.invariant (fun canister' => IsSweep canister'.state.submittedTransactions signature)
    ?_ ?_ h
  · intro canister' transient h
    exact h
  · rintro state log now payload state' hpayload ⟨blockHeight, hget⟩ heffect
    have hkind := hemits state now payload hpayload
    cases heffect with
    | sentWithdrawal hsucceeded hfailed hsubmitted hadvanced hcreated hbound hmoved =>
        refine ⟨blockHeight, ?_⟩
        rw [InsertionOrderedMap.get_insert, if_neg, hget]
        rintro rfl
        rw [hsubmitted] at hget
        cases hget
    | sweptDeposits hsucceeded hfailed hsubmitted hkey hsweep =>
        refine ⟨blockHeight, ?_⟩
        rw [InsertionOrderedMap.get_insert, if_neg, hget]
        rintro rfl
        rw [hsubmitted] at hget
        cases hget
    | succeededWithdrawal => cases hkind
    | succeededSweep => cases hkind
    | failedWithdrawal => cases hkind
    | failedSweep => cases hkind
    | expiredSweep => cases hkind
    | _ => exact ⟨blockHeight, hget⟩

end Checking

/-! ## The invariant of finalization -/

namespace FinalizeRound

/-- The signatures whose statuses the round checks. -/
def checked : FinalizeRound → OrdMap Signature BlockHeight
  | fetchingBlock transactions | checkingStatuses transactions _ => transactions
  | _ => ∅

/-- The withdrawals that the round took from the state. -/
def inFlight : FinalizeRound → List InFlightWithdrawal
  | readingNonces _ withdrawals _ advanced => withdrawals ++ advanced
  | finalizing withdrawals => withdrawals
  | _ => []

end FinalizeRound

section Finalizes

variable [SolanaSdk]

open Canister (Run)

/-- What a round of finalization keeps is still what it took from the state. -/
structure FinalizeRound.Keeps (state : State) (bindings : List Binding) (round : FinalizeRound) :
    Prop where
  checked : ∀ signature ∈ round.checked, IsSweep state.submittedTransactions signature
  inFlight : ∀ withdrawal ∈ round.inFlight, InFlight state bindings withdrawal

theorem FinalizeRound.keeps_readInFlightNonces {state : State} {log : List Event}
    {bindings : List Binding} (h : Bindings log state bindings) :
    FinalizeRound.Keeps state bindings (readInFlightNonces state) := by
  unfold FinalizeRound.readInFlightNonces
  split
  · exact ⟨by simp [checked], by simp [inFlight]⟩
  · refine ⟨by simp [checked], fun withdrawal hmem => inFlight_of_mem h ?_⟩
    simpa [inFlight] using hmem

theorem FinalizeRound.Keeps.mono {state state' : State} {bindings bindings' : List Binding}
    {round round' : FinalizeRound} (h : round.Keeps state bindings)
    (hchecked : ∀ signature ∈ round'.checked, IsSweep state'.submittedTransactions signature)
    (hinFlight : ∀ withdrawal ∈ round'.inFlight, withdrawal ∈ round.inFlight)
    (hsame : ∀ withdrawal, InFlight state bindings withdrawal →
      InFlight state' bindings' withdrawal) : round'.Keeps state' bindings' :=
  ⟨hchecked, fun withdrawal hmem => hsame _ (h.inFlight _ (hinFlight withdrawal hmem))⟩

/-- The messages of a round of finalization. -/
theorem FinalizeRound.Steps.keeps {canister canister' : Canister} {now : Timestamp}
    {before after : Option FinalizeRound} {action : FinalizeAction}
    {bindings bindings' : List Binding}
    (hkeeps : ∀ round ∈ before, round.Keeps canister.state bindings)
    (hextends : bindings <+: bindings')
    (hhistory : Bindings canister'.log canister'.state bindings')
    (hsteps : FinalizeRound.Steps canister now before action (canister', after)) :
    ∀ round ∈ after, round.Keeps canister'.state bindings' := by
  have hinFlight (withdrawal : InFlightWithdrawal) (h : InFlight canister.state bindings withdrawal) :
      InFlight canister'.state bindings' withdrawal := h.run hsteps.run hextends
  intro round hround
  cases hsteps with
  | startReading hstart =>
      obtain rfl := Option.some.inj hround
      have hsame := keeps_readInFlightNonces hhistory
      rw [Canister.startTask_eq_some hstart] at hsame ⊢
      exact hsame
  | startChecking hstart =>
      obtain rfl := Option.some.inj hround
      refine ⟨fun signature hmem => ?_, by simp [inFlight]⟩
      rw [Canister.startTask_eq_some hstart]
      exact isSweep_of_mem_blockhashTransactions hmem
  | block =>
      obtain rfl := Option.some.inj hround
      have hbefore := hkeeps _ rfl
      exact hbefore.mono hbefore.checked (by simp [inFlight]) hinFlight
  | checked hevents =>
      obtain rfl := Option.some.inj hround
      exact keeps_readInFlightNonces hhistory
  -- the withdrawal moves to the list that its nonce value assigns it to
  | nonceRead hwithdrawal =>
      obtain rfl := Option.some.inj hround
      have hmem := List.mem_of_getElem? hwithdrawal
      refine (hkeeps _ rfl).mono ?_ ?_ hinFlight
      · intro signature hsignature
        unfold noteNonceRead at hsignature
        split at hsignature <;> simp [FinalizeRound.checked] at hsignature
      · intro withdrawal hin
        unfold noteNonceRead at hin
        split at hin <;> simp only [inFlight, List.mem_append, List.mem_singleton] at hin ⊢
        · exact hin.imp_left List.mem_of_mem_eraseIdx
        · rcases hin with hin | hin | rfl
          · exact .inl (List.mem_of_mem_eraseIdx hin)
          · exact .inr hin
          · exact .inl hmem
        · exact hin.imp_left List.mem_of_mem_eraseIdx
        · exact hin.imp_left List.mem_of_mem_eraseIdx
  | fetchLanded =>
      obtain rfl := Option.some.inj hround
      refine (hkeeps _ rfl).mono (by simp [FinalizeRound.checked]) ?_ hinFlight
      intro withdrawal hin
      simpa [inFlight] using hin
  | undecided =>
      obtain rfl := Option.some.inj hround
      exact (hkeeps _ rfl).mono (by simp [FinalizeRound.checked])
        (fun _ => List.mem_of_mem_eraseIdx) hinFlight
  | landed hwithdrawal hpayload hevent =>
      obtain rfl := Option.some.inj hround
      exact (hkeeps _ rfl).mono (by simp [FinalizeRound.checked])
        (fun _ => List.mem_of_mem_eraseIdx) hinFlight
  | fetchFinalized =>
      obtain rfl := Option.some.inj hround
      exact ⟨by simp [FinalizeRound.checked], by simp [inFlight]⟩
  | credited hevents => cases hround
  | ended => cases hround

/-- A message of another task keeps what the round keeps. -/
theorem FinalizeRound.Keeps.run {canister canister' : Canister} {bindings bindings' : List Binding}
    {round : FinalizeRound} (h : round.Keeps canister.state bindings)
    (hrun : Run Emits canister canister')
    (hemits : ∀ state t payload, Emits state t payload → payload.isFinalization = false)
    (hextends : bindings <+: bindings') : round.Keeps canister'.state bindings' :=
  h.mono (fun signature hmem => (h.checked signature hmem).run hrun hemits) (fun _ hmem => hmem)
    fun _ hin => hin.run hrun hextends

namespace Config

variable {config config' : Config} {bindings bindings' : List Binding} {now : Timestamp}
  {action : Action}

/-- The invariants of signing and of finalization. -/
structure Tracks (config : Config) (bindings : List Binding) : Prop where
  signs : config.Signs bindings
  finalization : ∀ round ∈ config.finalization, round.Keeps config.canister.state bindings

theorem Tracks.steps (h : config.Tracks bindings) (hwellformed : config.Wellformed)
    (hsteps : config.Steps now action config') :
    ∃ bindings', bindings <+: bindings' ∧ config'.Tracks bindings' := by
  obtain ⟨bindings', hextends, hsigns⟩ := h.signs.steps hwellformed hsteps
  refine ⟨bindings', hextends, hsigns, ?_⟩
  have hrun := hsteps.run hwellformed.replayable
  cases hsteps with
  | finalization hsteps => exact hsteps.keeps h.finalization hextends hsigns.history
  | upgraded => exact fun _ hround => by cases hround
  | unchanged =>
      intro round hround
      exact (h.finalization round hround).mono (h.finalization round hround).checked
        (fun _ hmem => hmem) fun _ hin => hin.run hrun hextends
  | withdrawEnded =>
      intro round hround
      exact (h.finalization round hround).mono (h.finalization round hround).checked
        (fun _ hmem => hmem) fun _ hin => hin.run hrun hextends
  | depositSolEnded =>
      intro round hround
      exact (h.finalization round hround).mono (h.finalization round hround).checked
        (fun _ hmem => hmem) fun _ hin => hin.run hrun hextends
  | _ =>
      intro round hround
      refine (h.finalization round hround).run hrun ?_ hextends
      intro state t payload hrecords
      cases payload with
      | succeededTransaction | failedTransaction | expiredTransaction | creditedSweep
      | quarantinedSweep =>
          obtain ⟨step, heq⟩ := hrecords.recordedBy
          cases heq
      | _ => rfl

theorem tracks_of_init {minterId : Principal} {args : InitArgs}
    (h : init minterId args now = .ok config) : config.Tracks [] := by
  refine ⟨signs_of_init h, ?_⟩
  obtain ⟨canister, -, rfl⟩ := init_eq_ok.mp h
  exact fun _ hround => by cases hround

/-- What a message does to the nonce accounts. -/
inductive NonceEffect (config config' : Config) (now : Timestamp) : Action → Prop
  | quiet {action : Action} (hrun : Run Quiet config.canister config'.canister) :
      NonceEffect config config' now action
  | binds {address : Address} {batches : List ReservedBatch} {batch : ReservedBatch} {position : ℕ}
      {reply : Option NonceAccountData} {nonceValue : Hash}
      (hround : config.withdrawals = some (.creating address batches))
      (hbatch : batches[position]? = some batch)
      (hread : readVerifiedNonce reply address = some nonceValue)
      (hunseen : ¬ config.canister.state.noncePool.hasSeen batch.nonceAccount nonceValue)
      (hevent : config.canister.processEvent (.createdWithdrawalTransaction
        (batch.requests.map WithdrawalRequest.burnBlockIndex) batch.nonceAccount nonceValue) now =
          .ok config'.canister) :
      NonceEffect config config' now (.withdrawals (.nonceRead position reply))
  | releases {withdrawals : List InFlightWithdrawal} {withdrawal : InFlightWithdrawal}
      {position : ℕ} {reply : Option Sweep.FetchedTransaction} {payload : EventType}
      (hround : config.finalization = some (.finalizing withdrawals))
      (hwithdrawal : withdrawals[position]? = some withdrawal)
      (hget : config.canister.state.submittedTransactions.get withdrawal.signature =
        some (.withdrawal withdrawal.message withdrawal.nonceAccount withdrawal.nonceValue
          withdrawal.submittedAt))
      (hpayload : payload = .succeededTransaction withdrawal.signature ∨
        payload = .failedTransaction withdrawal.signature)
      (hevent : config.canister.processEvent payload now = .ok config'.canister) :
      NonceEffect config config' now (.finalization (.landed position reply))

omit [SolanaSdk] in
theorem landedWithdrawalEvent_eq_some {withdrawal : InFlightWithdrawal}
    {reply : Option Sweep.FetchedTransaction} {payload : EventType}
    (h : landedWithdrawalEvent withdrawal reply = some payload) :
    payload = .succeededTransaction withdrawal.signature ∨
      payload = .failedTransaction withdrawal.signature := by
  unfold landedWithdrawalEvent at h
  split at h
  · cases h
  · split at h
    · cases h
    · split at h
      · exact .inl (Option.some.inj h).symm
      · exact .inr (Option.some.inj h).symm
      · cases h

/-- The events of a status check release nothing, as the checked signatures are those of sweeps. -/
theorem quiet_of_sweepStatusEvents {canister canister' : Canister}
    {transactions : OrdMap Signature BlockHeight} {currentBlockHeight : Option BlockHeight}
    (hchecked : ∀ signature ∈ transactions, IsSweep canister.state.submittedTransactions signature)
    (h : canister.processEvents (sweepStatusEvents transactions currentBlockHeight replies) now =
      .ok canister') : Run Quiet canister canister' := by
  refine .processEvents_while (fun state => ∀ signature ∈ transactions,
    ¬ IsWithdrawal state.submittedTransactions signature) ?_ ?_
    (fun signature hmem => (hchecked signature hmem).not_isWithdrawal) h
  · intro payload hpayload state state' hstate _
    obtain ⟨signature, hmem, hcases⟩ := mem_sweepStatusEvents hpayload
    refine ⟨?_, ?_⟩
    · rintro burnIndices account value rfl
      rcases hcases with heq | heq | heq <;> cases heq
    · rintro signature' hfinal
      have hsame : signature' = signature := by
        rcases hcases with rfl | rfl | rfl <;> rcases hfinal with heq | heq <;> cases heq <;> rfl
      rw [hsame]
      exact hstate signature hmem
  · intro payload hpayload state state' hstate heffect signature hmem hwithdrawal
    obtain ⟨signature', -, hcases⟩ := mem_sweepStatusEvents hpayload
    refine hstate signature hmem ?_
    obtain ⟨message, account, nonceValue, submittedAt, hget⟩ := hwithdrawal
    refine ⟨message, account, nonceValue, submittedAt, ?_⟩
    refine State.get_of_finalization heffect ?_ hget
    rcases hcases with rfl | rfl | rfl <;> rfl

omit [SolanaSdk] in
/-- Events other than bindings, successes and failures are quiet in any state. -/
theorem quiet_of_kind {state : State} {t : Timestamp} {payload : EventType}
    (hcreated : ∀ burnIndices account value,
      payload ≠ .createdWithdrawalTransaction burnIndices account value)
    (hsucceeded : ∀ signature, payload ≠ .succeededTransaction signature)
    (hfailed : ∀ signature, payload ≠ .failedTransaction signature) : Quiet state t payload := by
  refine ⟨hcreated, fun signature hfinal => ?_⟩
  rcases hfinal with heq | heq
  · exact absurd heq (hsucceeded signature)
  · exact absurd heq (hfailed signature)

/-- A withdrawal that a round finalizes, and that is still submitted, is the submitted one. -/
theorem get_of_inFlight (hwellformed : config.Wellformed) {withdrawal : InFlightWithdrawal}
    (hflight : InFlight config.canister.state bindings withdrawal)
    (hsubmitted : IsWithdrawal config.canister.state.submittedTransactions withdrawal.signature) :
    config.canister.state.submittedTransactions.get withdrawal.signature =
      some (.withdrawal withdrawal.message withdrawal.nonceAccount withdrawal.nonceValue
        withdrawal.submittedAt) := by
  obtain ⟨message, account, value, submittedAt, hget⟩ := hsubmitted
  rcases hflight.recorded with hrecorded | hsucceeded | hfailed
  · exact hrecorded
  · exact absurd hsucceeded (hwellformed.tables.signatures.not_succeeded hget)
  · exact absurd (hwellformed.tables.signatures.not_failed hget) hfailed

/-- A message binds one account, releases one, or leaves them as they are. -/
theorem Steps.nonceEffect (hwellformed : config.Wellformed)
    (hkeeps : ∀ round ∈ config.finalization, round.Keeps config.canister.state bindings)
    (h : config.Steps now action config') : NonceEffect config config' now action := by
  have hrun := h.run hwellformed.replayable
  cases h with
  | withdrawals hsteps =>
      generalize hround : config.withdrawals = before at hsteps
      cases hsteps with
      | created hbatch hread hunseen hbuild hevent => exact .binds hround hbatch hread hunseen hevent
      | signed hwithdrawal hevent =>
          exact .quiet (.event hevent (quiet_of_kind (by simp) (by simp) (by simp)))
      | start hstart hkey => exact .quiet (.startTask hstart)
      | ended => exact .quiet (.endTask _)
      | _ => exact .quiet .refl
  | finalization hsteps =>
      generalize hround : config.finalization = before at hsteps
      cases hsteps with
      | checked hevents =>
          exact .quiet (quiet_of_sweepStatusEvents (hkeeps _ hround).checked hevents)
      | @landed withdrawals withdrawal payload position reply canister hwithdrawal hpayload hevent =>
          have hpayload := landedWithdrawalEvent_eq_some hpayload
          by_cases hsubmitted : IsWithdrawal config.canister.state.submittedTransactions
              withdrawal.signature
          · have hflight := (hkeeps _ hround).inFlight withdrawal (List.mem_of_getElem? hwithdrawal)
            exact .releases hround hwithdrawal (get_of_inFlight hwellformed hflight hsubmitted) hpayload
              hevent
          · refine .quiet (.event hevent ⟨?_, ?_⟩)
            · rintro burnIndices account value rfl
              rcases hpayload with heq | heq <;> cases heq
            · intro signature hfinal
              have hsame : signature = withdrawal.signature := by
                rcases hpayload with rfl | rfl <;> rcases hfinal with heq | heq <;> cases heq <;> rfl
              rwa [hsame]
      | credited hevents =>
          refine .quiet ((Run.processEvents ?_ hevents).trans (Run.endTask _))
          intro payload hmem state
          obtain ⟨entry, -, reply, hpayload⟩ := mem_creditEvents hmem
          rcases creditEvent_eq_some hpayload with ⟨_, _, _, _, rfl⟩ | rfl <;>
            exact quiet_of_kind (by simp) (by simp) (by simp)
      | startReading hstart => exact .quiet (.startTask hstart)
      | startChecking hstart => exact .quiet (.startTask hstart)
      | ended => exact .quiet (.endTask _)
      | _ => exact .quiet .refl
  | unchanged => exact .quiet .refl
  | withdrawEnded => exact .quiet (.dropWithdrawalGuard _)
  | depositSolEnded => exact .quiet (.dropDepositSolGuard _)
  | _ =>
      refine .quiet (hrun.mono fun state t payload hrecords => ?_)
      cases payload with
      | createdWithdrawalTransaction | succeededTransaction | failedTransaction =>
          obtain ⟨step, heq⟩ := hrecords.recordedBy
          cases heq
      | _ => exact quiet_of_kind (by simp) (by simp) (by simp)

end Config

end Finalizes

end Cksol
