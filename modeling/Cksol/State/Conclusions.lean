import Cksol.State.Conservation
import Cksol.State.Credits
import Cksol.State.Submissions
import Cksol.State.Tables

/-! # Outcomes that can be recorded

A submitted transaction can be concluded either way, a submitted sweep can expire, and a finalized sweep
can be quarantined, or credited with what its settlement computed.
-/

namespace Cksol

open Std

/-! ## Transitions of the deposits -/

namespace Deposits

variable {deposits : Deposits} {view : View} {signature : Signature} {sweep : Sweep}

/-- The deposits of a swept sweep hold the accounts that `drop_swept` releases. -/
theorem exists_dropSwept_eq_ok (h : Tracks deposits view)
    (hsweep : deposits.swept.bySignature[signature]? = some sweep) :
    ∃ deposits', deposits.dropSwept signature = .ok deposits' := by
  rw [dropSwept, Sweeps.remove_of_get hsweep]
  refine exists_foldlM_eq_ok (P := fun rest (reached : Deposits) => (rest.map Prod.fst).Nodup ∧
    ∀ entry ∈ rest, reached.inFlightIds[entry.2.account.key]? = some entry.1) ⟨?_, ?_⟩ ?_
  · rw [ExtTreeMap.map_fst_toList_eq_keys]
    exact OrdMap.nodup_keys _
  · rintro ⟨depositId, deposit⟩ hentry
    have hview := (h.swept_deposits hsweep _ _).mp (OrdMap.mem_toList_iff.mp hentry)
    refine (h.inFlightIds _ _).mpr ?_
    rw [View.reserves, hview]
    rfl
  · rintro ⟨depositId, deposit⟩ rest reached ⟨hnodup, hinFlight⟩
    obtain ⟨hnew, hrest⟩ := List.nodup_cons.mp hnodup
    have hheld := hinFlight _ List.mem_cons_self
    refine ⟨{ reached with
      inFlightIds := reached.inFlightIds.erase deposit.account.key
      queuedAtById := reached.queuedAtById.erase depositId
      dropped := reached.dropped.insert depositId ⟨deposit, signature⟩ }, ?_, hrest, ?_⟩
    · simp only [releaseInFlight, bind_eq_ok, check_eq_ok, pure_eq_ok]
      exact ⟨_, ⟨⟨⟩, hheld, rfl⟩, rfl⟩
    · intro entry hentry
      dsimp only
      -- the account of another deposit is another one
      rw [OrdMap.getElem?_erase_eq, if_neg, hinFlight entry (List.mem_cons_of_mem _ hentry)]
      intro hkey
      have hother := hinFlight entry (List.mem_cons_of_mem _ hentry)
      rw [← hkey, hheld] at hother
      exact hnew (Option.some.inj hother ▸ List.mem_map_of_mem hentry)

theorem exists_finalizeSwept_eq_ok (h : Tracks deposits view)
    (hsweep : deposits.swept.bySignature[signature]? = some sweep)
    (hnew : deposits.finalized.bySignature[signature]? = none) :
    ∃ deposits', deposits.finalizeSwept signature = .ok deposits' := by
  -- a swept deposit is in no finalized sweep
  have hfree : ∀ depositId ∈ sweep.deposits, deposits.finalized.deposit depositId = none := by
    intro depositId hmem
    obtain ⟨deposit, hdeposit⟩ := OrdMap.mem_iff_exists.mp hmem
    have hview := (h.swept_deposits hsweep _ _).mp hdeposit
    refine Sweeps.deposit_eq_none_iff.mpr fun signature' deposit' hholds => ?_
    rw [(h.finalized _ _ _).mp hholds] at hview
    cases hview
  have hinsert := Sweeps.insert_of_fresh hnew hfree
  simp only [finalizeSwept, bind_eq_ok, orPanic_eq_ok, pure_eq_ok]
  exact ⟨_, _, Sweeps.remove_of_get hsweep, _, hinsert, rfl⟩

theorem exists_quarantineSweep_eq_ok
    (hsweep : deposits.finalized.bySignature[signature]? = some sweep) :
    ∃ deposits', deposits.quarantineSweep signature = .ok deposits' := by
  simp only [quarantineSweep, bind_eq_ok, orPanic_eq_ok, pure_eq_ok]
  exact ⟨_, _, Sweeps.remove_of_get hsweep, rfl⟩

/-- The mints of a finalized sweep can be credited. -/
theorem exists_creditSweep_eq_ok (h : Tracks deposits view)
    (hsweep : deposits.finalized.bySignature[signature]? = some sweep)
    {mints : List CreditedDeposit} (hmints : sweep.mints = .ok mints) (timestamp : Timestamp) :
    ∃ deposits', deposits.creditSweep signature mints timestamp = .ok (deposits', sweep) := by
  have hall := forall₂_of_mapM_eq_ok hmints
  have hlength : mints.length = sweep.depositCount := by
    rw [← Sweep.length_toList_deposits, hall.length_eq]
  obtain ⟨hids, hcredits⟩ := Sweep.mints_eq_ok hmints
  obtain ⟨pendingMints, hloop⟩ : ∃ pendingMints, mints.foldlM
      (creditDeposit sweep signature timestamp) deposits.pendingMints = .ok pendingMints := by
    refine exists_foldlM_eq_ok (P := fun rest (reached : OrdMap DepositSolId PendingMint) =>
      (rest.map CreditedDeposit.depositId).Nodup ∧ ∀ mint ∈ rest, (∃ deposit,
        sweep.deposits[mint.depositId]? = some deposit ∧
        mint.amountToMint ≤ deposit.sweepableAmount) ∧ mint.depositId ∉ reached) ⟨?_, ?_⟩ ?_
    · rw [hids]
      exact OrdMap.nodup_keys _
    · -- a deposit of a finalized sweep has no pending mint
      intro mint hmint
      obtain ⟨deposit, hdeposit, hamount⟩ := hcredits mint hmint
      refine ⟨⟨deposit, hdeposit, hamount⟩, fun hpending => ?_⟩
      obtain ⟨pending, hpending⟩ := OrdMap.mem_iff_exists.mp hpending
      have hview := (h.finalized_deposits hsweep _ _).mp hdeposit
      rw [(h.pendingMints _ _).mp hpending] at hview
      cases hview
    · rintro mint rest reached ⟨hnodup, hmints⟩
      obtain ⟨hnew, hrest⟩ := List.nodup_cons.mp hnodup
      obtain ⟨⟨deposit, hdeposit, hamount⟩, hfresh⟩ := hmints mint List.mem_cons_self
      refine ⟨reached.insert mint.depositId ⟨⟨deposit, signature⟩, mint.amountToMint, timestamp⟩, ?_,
        hrest, fun mint' hmint' => ?_⟩
      · simp only [creditDeposit, bind_eq_ok, orPanic_eq_ok, check_eq_ok, pure_eq_ok]
        exact ⟨deposit, hdeposit, ⟨⟩, hamount, ⟨⟩, hfresh, rfl⟩
      · obtain ⟨hdeposit', hfresh'⟩ := hmints mint' (List.mem_cons_of_mem _ hmint')
        refine ⟨hdeposit', ?_⟩
        rw [OrdMap.mem_insert_iff, not_or]
        exact ⟨fun heq => hnew (heq ▸ List.mem_map_of_mem hmint'), hfresh'⟩
  simp only [creditSweep, bind_eq_ok, orPanic_eq_ok, check_eq_ok, pure_eq_ok]
  exact ⟨_, _, Sweeps.remove_of_get hsweep, ⟨⟩, hlength, pendingMints, hloop, rfl⟩

end Deposits

/-! ## Events -/

/-- The finalized sweep that an event settles. -/
def EventType.settledSignature : EventType → Option Signature
  | creditedSweep signature .. => some signature
  | quarantinedSweep signature => some signature
  | _ => none

namespace State.Effect

variable [SolanaSdk] {state state' : State} {timestamp : Timestamp} {payload : EventType}
  {signature : Signature}

/-- A submitted transaction stays so until its outcome is recorded. -/
theorem get_submitted (heffect : state.Effect timestamp payload state')
    {transaction : MinterTransaction}
    (hget : state.submittedTransactions.get signature = some transaction)
    (hpayload : payload.concludedSignature ≠ some signature) :
    state'.submittedTransactions.get signature = some transaction := by
  -- a new entry has a new signature
  have hinsert {signature' : Signature} {transaction' : MinterTransaction}
      (hnew : state.submittedTransactions.get signature' = none) :
      (state.submittedTransactions.insert signature' transaction').get signature =
        some transaction := by
    rw [InsertionOrderedMap.get_insert, if_neg, hget]
    rintro rfl
    rw [hget] at hnew
    cases hnew
  have hremove {signature' : Signature} {transaction' : MinterTransaction}
      {submitted : InsertionOrderedMap Signature MinterTransaction}
      (hremove : state.submittedTransactions.remove signature' = some (transaction', submitted))
      (hne : some signature' ≠ some signature) : submitted.get signature = some transaction := by
    rw [(InsertionOrderedMap.remove_eq_some hremove).2, if_neg fun heq => hne (congrArg some heq)]
    exact hget
  cases heffect with
  | sentWithdrawal _ _ hnew | sweptDeposits _ _ hnew => exact hinsert hnew
  | succeededWithdrawal _ _ h | succeededSweep _ _ h => exact hremove h hpayload
  | failedWithdrawal _ _ h | failedSweep _ _ h => exact hremove h hpayload
  | expiredSweep _ _ h => exact hremove h hpayload
  | _ => exact hget

/-- A finalized sweep stays so until it is settled. -/
theorem get_finalized (heffect : state.Effect timestamp payload state') {sweep : Sweep}
    (hget : state.deposits.finalized.bySignature[signature]? = some sweep)
    (hpayload : payload.settledSignature ≠ some signature) :
    state'.deposits.finalized.bySignature[signature]? = some sweep := by
  rcases heffect.finalized_cases with ⟨-, hfinalized, -⟩ | ⟨other, _, -, -, hnone, hfinalized, -⟩ |
    ⟨other, _, hsettles, -, hfinalized, -⟩
  · rw [hfinalized]
    exact hget
  · rw [hfinalized, OrdMap.getElem?_insert_eq, if_neg, hget]
    rintro rfl
    rw [hget] at hnone
    cases hnone
  · have hne : other ≠ signature := by
      rintro rfl
      rcases hsettles with ⟨_, _, rfl⟩ | rfl <;> exact hpayload rfl
    rw [hfinalized, OrdMap.getElem?_erase_eq, if_neg hne]
    exact hget

end State.Effect

/-- What relates the collections of the state to one another and to the log, whatever the events. -/
structure Canister.Consistent (canister : Canister) : Prop where
  tables : canister.Tables
  deposits : ∃ view, DepositHistory canister.log canister.state.deposits view
  credits : CreditHistory canister.log canister.state
  ordered : canister.state.submittedTransactions.Ordered

/-- Submissions and outcomes keep the insertion order. -/
theorem State.Effect.ordered [SolanaSdk] {state state' : State} {timestamp : Timestamp}
    {payload : EventType} (heffect : state.Effect timestamp payload state')
    (h : state.submittedTransactions.Ordered) : state'.submittedTransactions.Ordered := by
  cases heffect with
  | sentWithdrawal | sweptDeposits => exact h.insert _ _
  | succeededWithdrawal _ _ hremove | succeededSweep _ _ hremove => exact h.remove hremove
  | failedWithdrawal _ _ hremove | failedSweep _ _ hremove => exact h.remove hremove
  | expiredSweep _ _ hremove => exact h.remove hremove
  | _ => exact h

namespace Canister.Consistent

variable [SolanaSdk] {canister canister' : Canister} {signature : Signature}

theorem run {Emits : State → Timestamp → EventType → Prop} (h : canister.Consistent)
    (hrun : Run Emits canister canister') : canister'.Consistent := by
  obtain ⟨view, hview⟩ := h.deposits
  refine ⟨h.tables.run hrun, hview.run hrun, h.credits.run hrun, ?_⟩
  exact hrun.invariant (fun canister => canister.state.submittedTransactions.Ordered)
    (fun _ _ h => h) (fun _ _ _ _ _ _ h heffect => heffect.ordered h) h.ordered

theorem of_init {args : InitArgs} {now : Timestamp} (h : Canister.init args now = .ok canister) :
    canister.Consistent := by
  refine ⟨.of_init h, ⟨_, .of_init h⟩, .of_init h, ?_⟩
  obtain ⟨_, pool, -, -, rfl⟩ := Canister.exists_of_init h
  exact InsertionOrderedMap.ordered_new

theorem processEvent (h : canister.Consistent) {payload : EventType} {now : Timestamp}
    (hevent : canister.processEvent payload now = .ok canister') : canister'.Consistent :=
  h.run (.event hevent trivial : Run (fun _ _ _ => True) canister canister')

omit [SolanaSdk] in
/-- A submitted withdrawal holds its nonce account. -/
theorem exists_free_eq_ok (h : canister.Consistent) {message : Message} {nonceAccount : Address}
    {nonceValue : Hash} {submittedAt : Timestamp}
    (hget : canister.state.submittedTransactions.get signature =
      some (.withdrawal message nonceAccount nonceValue submittedAt)) :
    ∃ pool, canister.state.noncePool.free nonceAccount = .ok pool := by
  have hrefers : NonceReference.RefersTo canister.state.createdWithdrawalTxs
      canister.state.submittedTransactions nonceAccount
      (.submitted signature message nonceValue submittedAt) := hget
  obtain ⟨seen, haccount, -⟩ := h.tables.nonces.bound hrefers
  simp only [DurableNoncePool.free, bind_eq_ok, orPanic_eq_ok, check_eq_ok, pure_eq_ok]
  exact ⟨_, _, haccount, ⟨⟩, rfl, rfl⟩

theorem exists_succeededTransaction (h : canister.Consistent) {transaction : MinterTransaction}
    (hget : canister.state.submittedTransactions.get signature = some transaction)
    (now : Timestamp) :
    ∃ canister', canister.processEvent (.succeededTransaction signature) now = .ok canister' := by
  have hsucceeded := h.tables.signatures.not_succeeded hget
  have hfailed := h.tables.signatures.not_failed hget
  obtain ⟨submitted, hremove⟩ := InsertionOrderedMap.exists_remove_eq_some hget
  obtain ⟨state, hstate⟩ : ∃ state,
      canister.state.processTransactionSucceeded signature = .ok state := by
    simp only [State.processTransactionSucceeded, bind_eq_ok, check_eq_ok, orPanic_eq_ok, pure_eq_ok,
      InsertionOrderedMap.not_containsKey_iff]
    cases transaction with
    | sweepDeposit blockHeight =>
        obtain ⟨sweep, hsweep⟩ := (h.tables.sweeps signature).mp ⟨blockHeight, hget⟩
        obtain ⟨view, hview⟩ := h.deposits
        -- a sweep that is still submitted has not been finalized
        have hnew : canister.state.deposits.finalized.bySignature[signature]? = none :=
          Option.eq_none_iff_forall_ne_some.mpr fun _ hother =>
            hsucceeded (h.credits.finalized hother)
        obtain ⟨deposits, hdeposits⟩ :=
          Deposits.exists_finalizeSwept_eq_ok hview.tracks hsweep hnew
        exact ⟨_, ⟨⟩, hfailed, _, hremove, _, bind_eq_ok.mpr ⟨deposits, hdeposits, rfl⟩, ⟨⟩,
          hsucceeded, rfl⟩
    | withdrawal message nonceAccount nonceValue submittedAt =>
        obtain ⟨pool, hpool⟩ := h.exists_free_eq_ok hget
        exact ⟨_, ⟨⟩, hfailed, _, hremove, _, bind_eq_ok.mpr ⟨pool, hpool, rfl⟩, ⟨⟩, hsucceeded, rfl⟩
  exact ⟨_, processEvent_eq_ok.mpr ⟨state, hstate, rfl⟩⟩

theorem exists_failedTransaction (h : canister.Consistent) {transaction : MinterTransaction}
    (hget : canister.state.submittedTransactions.get signature = some transaction)
    (now : Timestamp) :
    ∃ canister', canister.processEvent (.failedTransaction signature) now = .ok canister' := by
  have hsucceeded := h.tables.signatures.not_succeeded hget
  have hfailed := h.tables.signatures.not_failed hget
  obtain ⟨submitted, hremove⟩ := InsertionOrderedMap.exists_remove_eq_some hget
  obtain ⟨state, hstate⟩ : ∃ state,
      canister.state.processTransactionFailed signature = .ok state := by
    simp only [State.processTransactionFailed, bind_eq_ok, check_eq_ok, orPanic_eq_ok, pure_eq_ok]
    cases transaction with
    | sweepDeposit blockHeight =>
        obtain ⟨sweep, hsweep⟩ := (h.tables.sweeps signature).mp ⟨blockHeight, hget⟩
        obtain ⟨view, hview⟩ := h.deposits
        obtain ⟨deposits, hdeposits⟩ := Deposits.exists_dropSwept_eq_ok hview.tracks hsweep
        exact ⟨_, ⟨⟩, hsucceeded, _, hremove, _, bind_eq_ok.mpr ⟨deposits, hdeposits, rfl⟩, ⟨⟩,
          hfailed, rfl⟩
    | withdrawal message nonceAccount nonceValue submittedAt =>
        obtain ⟨pool, hpool⟩ := h.exists_free_eq_ok hget
        exact ⟨_, ⟨⟩, hsucceeded, _, hremove, _, bind_eq_ok.mpr ⟨pool, hpool, rfl⟩, ⟨⟩, hfailed, rfl⟩
  exact ⟨_, processEvent_eq_ok.mpr ⟨state, hstate, rfl⟩⟩

theorem exists_expiredTransaction (h : canister.Consistent) {blockHeight : BlockHeight}
    (hget : canister.state.submittedTransactions.get signature = some (.sweepDeposit blockHeight))
    (now : Timestamp) :
    ∃ canister', canister.processEvent (.expiredTransaction signature) now = .ok canister' := by
  obtain ⟨submitted, hremove⟩ := InsertionOrderedMap.exists_remove_eq_some hget
  obtain ⟨sweep, hsweep⟩ := (h.tables.sweeps signature).mp ⟨blockHeight, hget⟩
  obtain ⟨view, hview⟩ := h.deposits
  obtain ⟨deposits, hdeposits⟩ := Deposits.exists_dropSwept_eq_ok hview.tracks hsweep
  obtain ⟨state, hstate⟩ : ∃ state,
      canister.state.processTransactionExpired signature = .ok state := by
    simp only [State.processTransactionExpired, bind_eq_ok, check_eq_ok, orPanic_eq_ok,
      InsertionOrderedMap.not_containsKey_iff]
    exact ⟨_, ⟨⟩, h.tables.signatures.not_succeeded hget, ⟨⟩, h.tables.signatures.not_failed hget, _,
      hremove, bind_eq_ok.mpr ⟨deposits, hdeposits, rfl⟩⟩
  exact ⟨_, processEvent_eq_ok.mpr ⟨state, hstate, rfl⟩⟩

theorem exists_quarantinedSweep {sweep : Sweep}
    (hsweep : canister.state.deposits.finalized.bySignature[signature]? = some sweep)
    (now : Timestamp) :
    ∃ canister', canister.processEvent (.quarantinedSweep signature) now = .ok canister' := by
  obtain ⟨deposits, hdeposits⟩ := Deposits.exists_quarantineSweep_eq_ok hsweep
  exact ⟨_, processEvent_eq_ok.mpr ⟨_, bind_eq_ok.mpr ⟨deposits, hdeposits, rfl⟩, rfl⟩⟩

/-- What `settle` computes for a finalized sweep passes every check of its credit. -/
theorem exists_creditedSweep (h : canister.Consistent) {sweep : Sweep}
    (hsweep : canister.state.deposits.finalized.bySignature[signature]? = some sweep)
    {log : List Event} (hrecorded : sweep.RecordedIn log) (hfits : SumsFit log)
    {fetched : Sweep.FetchedTransaction} {settled : Sweep.Settled}
    (hsettle : sweep.settle fetched = .ok settled) (now : Timestamp) :
    ∃ canister', canister.processEvent
      (.creditedSweep signature settled.amountReceived settled.mints) now = .ok canister' := by
  obtain ⟨view, hview⟩ := h.deposits
  obtain ⟨-, hmints, -⟩ := Sweep.settle_eq_ok hsettle
  obtain ⟨deposits, hdeposits⟩ := Deposits.exists_creditSweep_eq_ok hview.tracks hsweep hmints now
  have hreceived := Sweep.amountReceived_eq hrecorded hfits hsettle
  have hlt := settled.amountReceived.toNat_lt
  have hmap : (settled.mints.map CreditedDeposit.amountToMint).map UInt64.toNat =
      settled.mints.map (·.amountToMint.toNat) := List.map_map ..
  have hsum : (settled.mints.map CreditedDeposit.amountToMint).sum.toNat =
      (settled.mints.map (·.amountToMint.toNat)).sum := by
    rw [toNat_sum_of_lt (by rw [hmap]; omega), hmap]
  have hcovered : (checkedAdd (settled.mints.map CreditedDeposit.amountToMint).sum
      sweep.depositFees).any (· ≤ settled.amountReceived) := by
    have hadd : checkedAdd (settled.mints.map CreditedDeposit.amountToMint).sum sweep.depositFees =
        some ((settled.mints.map CreditedDeposit.amountToMint).sum + sweep.depositFees) := by
      rw [checkedAdd_eq_some, toNat_add_of_lt (by omega)]
    rw [hadd, Option.any_some, decide_eq_true_eq, UInt64.le_iff_toNat_le,
      toNat_add_of_lt (by omega)]
    omega
  obtain ⟨state, hstate⟩ : ∃ state, canister.state.processCreditedSweep signature
      settled.amountReceived settled.mints now = .ok state := by
    simp only [State.processCreditedSweep, bind_eq_ok, check_eq_ok, pure_eq_ok]
    exact ⟨_, _, hdeposits, ⟨⟩, hcovered, rfl⟩
  exact ⟨_, processEvent_eq_ok.mpr ⟨state, hstate, rfl⟩⟩

end Canister.Consistent

end Cksol
