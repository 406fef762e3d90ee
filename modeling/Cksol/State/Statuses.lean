import Mathlib.Logic.Relation
import Cksol.State.DepositHistory
import Cksol.State.WithdrawalStages

/-! # Reported statuses

`Deposits::status` and `State::withdrawal_status` probe the maps in a fixed order. As every id is in one
map at most, a status only moves forward, and a signature that was reported stays.
-/

namespace Cksol

open Std Relation

/-! ## Deposits -/

namespace DepositSolStatus

/-- The moves of the status of a deposit. -/
inductive Next : DepositSolStatus → DepositSolStatus → Prop
  | queue (sweepableAmount : Lamport) : Next .notFound (.queued sweepableAmount)
  | sweep (sweepableAmount : Lamport) (signature : Signature) :
      Next (.queued sweepableAmount) (.swept signature)
  | finalize (signature : Signature) : Next (.swept signature) (.finalized signature)
  | drop (signature : Signature) : Next (.swept signature) (.dropped signature)
  | mint (signature : Signature) (blockIndex : LedgerMintIndex) (mintedAmount : Lamport) :
      Next (.finalized signature) (.minted blockIndex mintedAmount)
  | quarantine (signature : Signature) : Next (.finalized signature) (.quarantined signature)

/-- The statuses that never change again. -/
def isFinal : DepositSolStatus → Bool
  | .minted .. | .dropped .. | .quarantined .. => true
  | .notFound | .queued .. | .swept .. | .finalized .. => false

theorem eq_of_isFinal {status status' : DepositSolStatus} (hfinal : status.isFinal)
    (h : ReflTransGen Next status status') : status' = status := by
  induction h with
  | refl => rfl
  | tail _ hnext ih =>
      rw [ih] at hnext
      cases hnext <;> cases hfinal

end DepositSolStatus

namespace View

open DepositSolStatus

/-- The status that the stage of a deposit reports. -/
def status (view : View) (id : DepositSolId) : DepositSolStatus :=
  ((view id).map Stage.status).getD .notFound

theorem status_of_some {view : View} {id : DepositSolId} {stage : Stage} (h : view id = some stage) :
    view.status id = stage.status := by
  rw [status, h]
  rfl

theorem status_move {view : View} {moved : OrdMap DepositSolId QueuedDeposit}
    {stage : DepositSolId → QueuedDeposit → Stage}
    (h : ∀ id deposit, moved[id]? = some deposit → ∃ before, view id = some before ∧
      ReflGen Next before.status (stage id deposit).status) (id : DepositSolId) :
    ReflGen Next (view.status id) ((view.move moved stage).status id) := by
  cases hmoved : moved[id]? with
  | none => rw [status, status, move_of_none hmoved]
  | some deposit =>
      obtain ⟨before, hbefore, hnext⟩ := h id deposit hmoved
      rw [status_of_some hbefore, status_of_some (move_of_some hmoved)]
      exact hnext

theorem status_update {view : View} {id : DepositSolId} {stage : Stage}
    (hnext : Next (view.status id) stage.status) (id' : DepositSolId) :
    ReflGen Next (view.status id') (View.status (Function.update view id (some stage)) id') := by
  by_cases hid : id' = id
  · subst hid
    rw [status_of_some (Function.update_self ..)]
    exact .single hnext
  · rw [status, status, Function.update_of_ne hid]

end View

namespace Tracks

open DepositSolStatus

variable {deposits deposits' : Deposits} {view : View}

/-- Each transition moves a status by one step at most. -/
theorem status_transition [SolanaSdk] {t : DepositTransition} (h : Tracks deposits view)
    (hstep : deposits.transition t = .ok deposits') (id : DepositSolId) :
    ReflGen Next (deposits.status id) (deposits'.status id) := by
  have hbefore : deposits.status id = view.status id := h.status_eq id
  rw [hbefore]
  cases t with
  | queue depositId deposit queuedAt =>
      obtain ⟨rfl, -⟩ := Deposits.queue_eq_ok hstep
      rw [(h.queue hstep).status_eq id]
      refine View.status_update ?_ id
      rw [View.status, h.view_nextId]
      exact .queue _
  | sweep depositIds minterAddress message signature =>
      obtain ⟨⟨_, amount⟩, hsweep, rfl⟩ := map_eq_ok.mp hstep
      obtain ⟨taken, sweep, -, -, -, -, -, hfrom, htracks⟩ := h.sweep hsweep
      rw [htracks.status_eq id]
      refine View.status_move (fun id deposit hdeposit => ?_) id
      exact ⟨_, hfrom id deposit hdeposit, .single (.sweep _ _)⟩
  | dropSwept signature =>
      obtain ⟨sweep, hsweep, htracks⟩ := h.dropSwept hstep
      rw [htracks.status_eq id]
      refine View.status_move (fun id deposit hdeposit => ?_) id
      exact ⟨_, (h.swept_deposits hsweep id deposit).mp hdeposit, .single (.drop _)⟩
  | finalizeSwept signature =>
      obtain ⟨sweep, hsweep, htracks⟩ := h.finalizeSwept hstep
      rw [htracks.status_eq id]
      refine View.status_move (fun id deposit hdeposit => ?_) id
      exact ⟨_, (h.swept_deposits hsweep id deposit).mp hdeposit, .single (.finalize _)⟩
  | quarantineSweep signature =>
      obtain ⟨sweep, hsweep, htracks⟩ := h.quarantineSweep hstep
      rw [htracks.status_eq id]
      refine View.status_move (fun id deposit hdeposit => ?_) id
      exact ⟨_, (h.finalized_deposits hsweep id deposit).mp hdeposit, .single (.quarantine _)⟩
  | creditSweep signature mints timestamp =>
      obtain ⟨⟨_, sweep⟩, hcredit, rfl⟩ := map_eq_ok.mp hstep
      have hsweep := (Deposits.creditSweep_eq_ok hcredit).1
      rw [(h.creditSweep hcredit).status_eq id]
      -- a pending mint is still reported as finalized
      refine View.status_move (fun id deposit hdeposit => ?_) id
      exact ⟨_, (h.finalized_deposits hsweep id deposit).mp hdeposit, .refl⟩
  | mint depositId mintBlockIndex =>
      obtain ⟨pending, hpending, htracks⟩ := h.mint hstep
      rw [htracks.status_eq id]
      refine View.status_update ?_ id
      rw [View.status_of_some hpending]
      exact .mint _ _ _
  | quarantinePendingMint depositId =>
      obtain ⟨pending, hpending, htracks⟩ := h.quarantinePendingMint hstep
      rw [htracks.status_eq id]
      refine View.status_update ?_ id
      rw [View.status_of_some hpending]
      exact .quarantine _

end Tracks

/-- An event that touches the deposits takes one transition, which queues only what it says. -/
theorem State.Effect.deposits [SolanaSdk] {state state' : State} {timestamp : Timestamp}
    {payload : EventType} (heffect : state.Effect timestamp payload state') :
    state'.deposits = state.deposits ∨
      ∃ t, state.deposits.transition t = .ok state'.deposits ∧
        ∀ id deposit queuedAt, t = .queue id deposit queuedAt → payload = .queuedDeposit id deposit := by
  cases heffect with
  | @sweptDeposits signature message signers depositIds blockHeight key deposits amount _ _ _ _ hsweep =>
      refine .inr ⟨.sweep depositIds (minterAddress key) message signature, ?_, by simp⟩
      rw [Deposits.transition, hsweep]
      rfl
  | succeededSweep _ _ _ hfinalize => exact .inr ⟨.finalizeSwept _, hfinalize, by simp⟩
  | failedSweep _ _ _ hdrop | expiredSweep _ _ _ hdrop => exact .inr ⟨.dropSwept _, hdrop, by simp⟩
  | queuedDeposit hqueue =>
      refine .inr ⟨.queue _ _ _, hqueue, fun id deposit queuedAt heq => ?_⟩
      obtain ⟨rfl, rfl, -⟩ := DepositTransition.queue.inj heq
      rfl
  | @creditedSweep signature amountReceived covered mints deposits sweep hcredit =>
      refine .inr ⟨.creditSweep signature mints timestamp, ?_, by simp⟩
      rw [Deposits.transition, hcredit]
      rfl
  | quarantinedSweep hquarantine => exact .inr ⟨.quarantineSweep _, hquarantine, by simp⟩
  | minted hmint => exact .inr ⟨.mint _ _, hmint, by simp⟩
  | quarantinedPendingMint hquarantine =>
      exact .inr ⟨.quarantinePendingMint _, hquarantine, by simp⟩
  | _ => exact .inl rfl

theorem Tracks.status_effect [SolanaSdk] {state state' : State} {timestamp : Timestamp}
    {payload : EventType} {view : View} (h : Tracks state.deposits view)
    (heffect : state.Effect timestamp payload state') (id : DepositSolId) :
    ReflGen DepositSolStatus.Next (state.deposits.status id) (state'.deposits.status id) := by
  rcases heffect.deposits with hsame | ⟨t, htransition, -⟩
  · rw [hsame]
  · exact h.status_transition htransition id

/-! ## Withdrawals -/

namespace WithdrawSolStatus

/-- The moves of the status of a withdrawal. -/
inductive Next : WithdrawSolStatus → WithdrawSolStatus → Prop
  | accept : Next .notFound .pending
  | send (transactionId : Signature) : Next .pending (.txSent transactionId)
  | succeed (transactionId : Signature) :
      Next (.txSent transactionId) (.txFinalized (.success transactionId))
  | fail (transactionId : Signature) :
      Next (.txSent transactionId) (.txFinalized (.failure transactionId))

/-- The statuses that never change again. -/
def isFinal : WithdrawSolStatus → Bool
  | .txFinalized _ => true
  | .notFound | .pending | .txSent _ => false

theorem eq_of_isFinal {status status' : WithdrawSolStatus} (hfinal : status.isFinal)
    (h : ReflTransGen Next status status') : status' = status := by
  induction h with
  | refl => rfl
  | tail _ hnext ih =>
      rw [ih] at hnext
      cases hnext <;> cases hfinal

end WithdrawSolStatus

namespace State

variable {state state' : State} {view : WithdrawalView} {i : LedgerBurnIndex}
  {sent : SentWithdrawalRequest}

theorem withdrawalStatus_of_pending {pending : PendingWithdrawalRequest}
    (h : state.pendingWithdrawalRequests[i]? = some pending ∨
      state.createdWithdrawalRequests[i]? = some pending) :
    state.withdrawalStatus i = .pending := by
  refine if_pos (h.imp ?_ ?_) <;> exact fun h => OrdMap.mem_iff_exists.mpr ⟨pending, h⟩

/-- A request of one map is in no other. -/
theorem Follows.withdrawalAt_eq_none (h : state.Follows view) {stage stage' : WithdrawalStage}
    {accepted : PendingWithdrawalRequest} (hstage : state.withdrawalAt stage i = some accepted)
    (hne : stage' ≠ stage) : state.withdrawalAt stage' i = none := by
  refine Option.eq_none_iff_forall_ne_some.mpr fun other hother => hne ?_
  have hview := (h _ _ _).mp hstage
  rw [(h _ _ _).mp hother] at hview
  exact (Prod.mk.inj (Option.some.inj hview)).1

/-- Beyond the pending and the created requests, the order in which the maps are probed is left. -/
theorem withdrawalStatus_of_not_pending (hpending : state.withdrawalAt .pending i = none)
    (hcreated : state.withdrawalAt .created i = none) :
    state.withdrawalStatus i =
      match state.sentWithdrawalRequests[i]?, state.successfulWithdrawalRequests[i]?,
        state.failedWithdrawalRequests[i]? with
      | some sent, _, _ => .txSent sent.signature
      | none, some sent, _ => .txFinalized (.success sent.signature)
      | none, none, some sent => .txFinalized (.failure sent.signature)
      | none, none, none => .notFound := by
  have hnot : ¬ (i ∈ state.pendingWithdrawalRequests ∨ i ∈ state.createdWithdrawalRequests) :=
    not_or.mpr ⟨OrdMap.not_mem_iff.mpr hpending, OrdMap.not_mem_iff.mpr hcreated⟩
  rw [withdrawalStatus, if_neg hnot]
  cases state.sentWithdrawalRequests[i]? <;> cases state.successfulWithdrawalRequests[i]? <;>
    cases state.failedWithdrawalRequests[i]? <;> rfl

theorem Follows.withdrawalStatus_of_sent (h : state.Follows view)
    (hsent : state.sentWithdrawalRequests[i]? = some sent) :
    state.withdrawalStatus i = .txSent sent.signature := by
  have hstage : state.withdrawalAt .sent i = some sent.accepted := by
    rw [withdrawalAt, hsent]
    rfl
  rw [withdrawalStatus_of_not_pending (h.withdrawalAt_eq_none hstage (by simp))
    (h.withdrawalAt_eq_none hstage (by simp)), hsent]

theorem Follows.withdrawalStatus_of_successful (h : state.Follows view)
    (hsuccessful : state.successfulWithdrawalRequests[i]? = some sent) :
    state.withdrawalStatus i = .txFinalized (.success sent.signature) := by
  have hstage : state.withdrawalAt .successful i = some sent.accepted := by
    rw [withdrawalAt, hsuccessful]
    rfl
  have hsent : state.withdrawalAt .sent i = none := h.withdrawalAt_eq_none hstage (by simp)
  rw [withdrawalStatus_of_not_pending (h.withdrawalAt_eq_none hstage (by simp))
    (h.withdrawalAt_eq_none hstage (by simp)), Option.map_eq_none_iff.mp hsent, hsuccessful]

theorem Follows.withdrawalStatus_of_failed (h : state.Follows view)
    (hfailed : state.failedWithdrawalRequests[i]? = some sent) :
    state.withdrawalStatus i = .txFinalized (.failure sent.signature) := by
  have hstage : state.withdrawalAt .failed i = some sent.accepted := by
    rw [withdrawalAt, hfailed]
    rfl
  have hsent : state.withdrawalAt .sent i = none := h.withdrawalAt_eq_none hstage (by simp)
  have hsuccessful : state.withdrawalAt .successful i = none :=
    h.withdrawalAt_eq_none hstage (by simp)
  rw [withdrawalStatus_of_not_pending (h.withdrawalAt_eq_none hstage (by simp))
    (h.withdrawalAt_eq_none hstage (by simp)), Option.map_eq_none_iff.mp hsent,
    Option.map_eq_none_iff.mp hsuccessful, hfailed]

theorem Follows.withdrawalStatus_of_none (h : state.Follows view) (hi : view i = none) :
    state.withdrawalStatus i = .notFound := by
  have hnone (stage : WithdrawalStage) : state.withdrawalAt stage i = none := by
    refine Option.eq_none_iff_forall_ne_some.mpr fun accepted haccepted => ?_
    exact nomatch hi.symm.trans ((h _ _ _).mp haccepted)
  rw [withdrawalStatus_of_not_pending (hnone _) (hnone _), Option.map_eq_none_iff.mp (hnone .sent),
    Option.map_eq_none_iff.mp (hnone .successful), Option.map_eq_none_iff.mp (hnone .failed)]

/-- The status of an index depends on what the maps hold under it. -/
theorem withdrawalStatus_congr
    (hpending : state'.pendingWithdrawalRequests[i]? = state.pendingWithdrawalRequests[i]?)
    (hcreated : state'.createdWithdrawalRequests[i]? = state.createdWithdrawalRequests[i]?)
    (hsent : state'.sentWithdrawalRequests[i]? = state.sentWithdrawalRequests[i]?)
    (hsuccessful : state'.successfulWithdrawalRequests[i]? = state.successfulWithdrawalRequests[i]?)
    (hfailed : state'.failedWithdrawalRequests[i]? = state.failedWithdrawalRequests[i]?) :
    state'.withdrawalStatus i = state.withdrawalStatus i := by
  have hmem : i ∈ state'.pendingWithdrawalRequests ∨ i ∈ state'.createdWithdrawalRequests ↔
      i ∈ state.pendingWithdrawalRequests ∨ i ∈ state.createdWithdrawalRequests := by
    rw [OrdMap.mem_iff_exists, OrdMap.mem_iff_exists, OrdMap.mem_iff_exists, OrdMap.mem_iff_exists,
      hpending, hcreated]
  simp only [withdrawalStatus, hmem, hsent, hsuccessful, hfailed]

/-- What finishing the transaction with a signature leaves under an index: a request of it is among
the finished ones, and everything else is as before. -/
theorem finishSent_cases (sent finished : OrdMap LedgerBurnIndex SentWithdrawalRequest)
    (signature : Signature) (i : LedgerBurnIndex) :
    (∃ request, sent[i]? = some request ∧
        (finishSent sent finished signature).2[i]? = some request) ∨
      ((finishSent sent finished signature).1[i]? = sent[i]? ∧
        (finishSent sent finished signature).2[i]? = finished[i]?) := by
  rw [getElem?_finishSent_fst, getElem?_finishSent_snd]
  cases sent[i]? with
  | none => exact .inr ⟨rfl, rfl⟩
  | some request =>
      by_cases hsignature : request.signature = signature
      · exact .inl ⟨request, rfl, by simp [Option.filter_some, hsignature]⟩
      · exact .inr ⟨by simp [Option.filter_some, hsignature], by simp [Option.filter_some, hsignature]⟩

end State

namespace Withdrawals

open State WithdrawSolStatus

variable {log : List Event} {state state' : State} {view view' : WithdrawalView} {i : LedgerBurnIndex}

theorem status_accept (h : state.Follows view) (hi : view i = none)
    {pending : PendingWithdrawalRequest}
    (hpending : state'.pendingWithdrawalRequests[i]? = some pending) :
    ReflGen Next (state.withdrawalStatus i) (state'.withdrawalStatus i) := by
  rw [h.withdrawalStatus_of_none hi, withdrawalStatus_of_pending (.inl hpending)]
  exact .single .accept

theorem status_create {pending created : PendingWithdrawalRequest}
    (hpending : state.pendingWithdrawalRequests[i]? = some pending)
    (hcreated : state'.createdWithdrawalRequests[i]? = some created) :
    ReflGen Next (state.withdrawalStatus i) (state'.withdrawalStatus i) := by
  rw [withdrawalStatus_of_pending (.inl hpending), withdrawalStatus_of_pending (.inr hcreated)]

theorem status_send {created : PendingWithdrawalRequest} {sent : SentWithdrawalRequest}
    (hcreated : state.createdWithdrawalRequests[i]? = some created) (h' : state'.Follows view')
    (hsent : state'.sentWithdrawalRequests[i]? = some sent) :
    ReflGen Next (state.withdrawalStatus i) (state'.withdrawalStatus i) := by
  rw [withdrawalStatus_of_pending (.inr hcreated), h'.withdrawalStatus_of_sent hsent]
  exact .single (.send _)

theorem status_succeed {sent : SentWithdrawalRequest} (h : state.Follows view)
    (hsent : state.sentWithdrawalRequests[i]? = some sent) (h' : state'.Follows view')
    (hsuccessful : state'.successfulWithdrawalRequests[i]? = some sent) :
    ReflGen Next (state.withdrawalStatus i) (state'.withdrawalStatus i) := by
  rw [h.withdrawalStatus_of_sent hsent, h'.withdrawalStatus_of_successful hsuccessful]
  exact .single (.succeed _)

theorem status_fail {sent : SentWithdrawalRequest} (h : state.Follows view)
    (hsent : state.sentWithdrawalRequests[i]? = some sent) (h' : state'.Follows view')
    (hfailed : state'.failedWithdrawalRequests[i]? = some sent) :
    ReflGen Next (state.withdrawalStatus i) (state'.withdrawalStatus i) := by
  rw [h.withdrawalStatus_of_sent hsent, h'.withdrawalStatus_of_failed hfailed]
  exact .single (.fail _)

theorem status_same (h : state'.withdrawalStatus i = state.withdrawalStatus i) :
    ReflGen Next (state.withdrawalStatus i) (state'.withdrawalStatus i) := by
  rw [h]

/-- Each event moves the status of a withdrawal by one step at most, provided that it accepts no index
again. -/
theorem status_effect [SolanaSdk] {timestamp : Timestamp} {payload : EventType}
    (h : Withdrawals log state view) (heffect : state.Effect timestamp payload state')
    (hfresh : (acceptedIndices (log ++ [⟨timestamp, payload⟩])).Nodup) (i : LedgerBurnIndex) :
    ReflGen Next (state.withdrawalStatus i) (state'.withdrawalStatus i) := by
  obtain ⟨view', h', -⟩ := h.effect heffect hfresh
  cases heffect with
  | @acceptedWithdrawal request hnew =>
      by_cases hi : request.burnBlockIndex = i
      · refine status_accept h.follows ?_ ((OrdMap.getElem?_insert_eq ..).trans (if_pos hi))
        -- the index was not accepted before, so no map holds it
        refine Option.eq_none_iff_forall_ne_some.mpr fun entry hentry => ?_
        have hold := mem_acceptedIndices.mpr ⟨_, (h.accepted _ _).mp ⟨_, hentry⟩⟩
        rw [acceptedIndices_append] at hfresh
        exact List.disjoint_of_nodup_append hfresh hold (List.mem_singleton.mpr hi.symm)
      · exact status_same (withdrawalStatus_congr ((OrdMap.getElem?_insert_eq ..).trans (if_neg hi))
          rfl rfl rfl rfl)
  | @createdWithdrawal burnIndices _ _ _ _ _ _ _ _ _ hmoved _ _ _ =>
      by_cases hi : i ∈ burnIndices
      · obtain ⟨pending, hpending⟩ := hmoved.present i hi
        exact status_create hpending ((hmoved.target_of_mem i hi).trans (congrArg _ hpending))
      · exact status_same (withdrawalStatus_congr (hmoved.source_of_notMem i hi)
          (hmoved.target_of_notMem i hi) rfl rfl rfl)
  | @sentWithdrawal _ _ burnIndices _ _ _ _ _ _ _ _ _ _ hmoved =>
      by_cases hi : i ∈ burnIndices
      · obtain ⟨created, hcreated⟩ := hmoved.present i hi
        exact status_send hcreated h'.follows
          ((hmoved.target_of_mem i hi).trans (congrArg _ hcreated))
      · exact status_same (withdrawalStatus_congr rfl (hmoved.source_of_notMem i hi)
          (hmoved.target_of_notMem i hi) rfl rfl)
  | succeededWithdrawal | succeededSweep =>
      rcases finishSent_cases state.sentWithdrawalRequests state.successfulWithdrawalRequests _ i with
        ⟨request, hsent, hfinished⟩ | ⟨hsent, hfinished⟩
      · exact status_succeed h.follows hsent h'.follows hfinished
      · exact status_same (withdrawalStatus_congr rfl rfl hsent hfinished rfl)
  | failedWithdrawal | failedSweep =>
      rcases finishSent_cases state.sentWithdrawalRequests state.failedWithdrawalRequests _ i with
        ⟨request, hsent, hfinished⟩ | ⟨hsent, hfinished⟩
      · exact status_fail h.follows hsent h'.follows hfinished
      · exact status_same (withdrawalStatus_congr rfl rfl hsent rfl hfinished)
  | _ => exact status_same (withdrawalStatus_congr rfl rfl rfl rfl rfl)

end Withdrawals

end Cksol
