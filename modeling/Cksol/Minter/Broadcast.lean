import Cksol.Minter.Companion
import Cksol.Minter.FinalizationRounds

/-! # Sending transactions

A withdrawal is sent once its submission is recorded, together with the others signed in its round, and
a round of finalization sends it again as long as its nonce account still stores its nonce value. A
sweep is sent by the message that records it. What was sent is kept beside the configuration, with
what the rounds in progress have still to send.
-/

namespace Cksol

open Std

variable {args : InitArgs} {minterId : Principal}

/-- `MIN_REBROADCAST_AGE`. -/
def minRebroadcastAge : Duration := Duration.fromSecs 90

/-- A signed transaction, given by its first signature. -/
structure SignedTransaction where
  signature : Signature
  message : Message
deriving DecidableEq

namespace InFlightWithdrawal

def signedTransaction (withdrawal : InFlightWithdrawal) : SignedTransaction :=
  ⟨withdrawal.signature, withdrawal.message⟩

/-- Whether 90 seconds have passed since the submission. -/
def isOldEnoughToRebroadcast (withdrawal : InFlightWithdrawal) (now : Timestamp) : Bool :=
  minRebroadcastAge ≤ now - withdrawal.submittedAt

/-- The withdrawal is the submitted transaction with its signature. -/
def SubmittedIn (withdrawal : InFlightWithdrawal) (state : State) : Prop :=
  state.submittedTransactions.get withdrawal.signature =
    some (.withdrawal withdrawal.message withdrawal.nonceAccount withdrawal.nonceValue
      withdrawal.submittedAt)

end InFlightWithdrawal

/-- The batches of `resubmit_transactions_batch`, which are sent one after the other. -/
def rebroadcastBatches (unchanged : List InFlightWithdrawal) (now : Timestamp) :
    List (List InFlightWithdrawal) :=
  chunks maxConcurrentRpcCalls (unchanged.filter (·.isOldEnoughToRebroadcast now))

theorem mem_rebroadcastBatches {unchanged batch : List InFlightWithdrawal} {now : Timestamp}
    (h : batch ∈ rebroadcastBatches unchanged now) : batch.length ≤ 10 ∧ ∀ withdrawal ∈ batch,
      withdrawal ∈ unchanged ∧ withdrawal.submittedAt + minRebroadcastAge ≤ now := by
  refine ⟨(ne_nil_and_length_le_of_mem_chunks (by decide) h).2, fun withdrawal hmem => ?_⟩
  obtain ⟨hunchanged, hage⟩ := List.mem_filter.mp (mem_of_mem_chunks (by decide) h hmem)
  have hage : minRebroadcastAge ≤ now - withdrawal.submittedAt := of_decide_eq_true hage
  have hlt : 0 < now - withdrawal.submittedAt := Nat.lt_of_lt_of_le (by decide) hage
  exact ⟨hunchanged, Nat.add_le_of_le_sub' (Nat.le_of_lt (Nat.lt_of_sub_pos hlt)) hage⟩

/-! ## What was sent -/

/-- A transaction passed to `sendTransaction`; one that is sent again with the time at which the round
looked at its age. -/
inductive Sent where
  | sweep (transaction : SignedTransaction)
  | withdrawal (transaction : SignedTransaction)
  | rebroadcast (withdrawal : InFlightWithdrawal) (now : Timestamp)
deriving DecidableEq

namespace Sent

/-- The transaction of a withdrawal that was sent, the first time or again. -/
def withdrawal? : Sent → Option SignedTransaction
  | sweep _ => none
  | withdrawal transaction => some transaction
  | rebroadcast inFlight _ => some inFlight.signedTransaction

/-- The log records the submission of what was sent. -/
def RecordedIn (log : List Event) : Sent → Prop
  | sweep transaction => ∃ timestamp signers depositIds blockHeight,
      ⟨timestamp, .submittedTransaction transaction.signature transaction.message signers
        (.sweepDeposit depositIds blockHeight)⟩ ∈ log
  | withdrawal transaction => ∃ timestamp burnIndices,
      ⟨timestamp, .submittedTransaction transaction.signature transaction.message [.minter]
        (.withdrawal burnIndices)⟩ ∈ log
  | rebroadcast inFlight _ => ∃ burnIndices,
      ⟨inFlight.submittedAt, .submittedTransaction inFlight.signature inFlight.message [.minter]
        (.withdrawal burnIndices)⟩ ∈ log

theorem RecordedIn.mono {log log' : List Event} {sent : Sent} (h : sent.RecordedIn log)
    (hlog : log ⊆ log') : sent.RecordedIn log' := by
  cases sent with
  | sweep =>
      obtain ⟨timestamp, signers, depositIds, blockHeight, hmem⟩ := h
      exact ⟨timestamp, signers, depositIds, blockHeight, hlog hmem⟩
  | withdrawal =>
      obtain ⟨timestamp, burnIndices, hmem⟩ := h
      exact ⟨timestamp, burnIndices, hlog hmem⟩
  | rebroadcast =>
      obtain ⟨burnIndices, hmem⟩ := h
      exact ⟨burnIndices, hlog hmem⟩

end Sent

/-- What the tasks send. -/
structure Outbox where
  /-- Signed by the round of withdrawals in progress, and not sent yet. -/
  signed : List SignedTransaction
  /-- When the round of finalization in progress chose what to send again, and the batches left. -/
  rebroadcasts : Option (Timestamp × List (List InFlightWithdrawal))
  sent : List Sent

/-- The sends that the rounds make. -/
inductive OutboxMove where
  | sendTransactionsBatch
  | resubmitTransactionsBatch
  | rebroadcast

section Outbox

variable [SolanaSdk]

/-- `sign_transaction` with the transaction that it returns for `send_transactions_batch`. -/
def signTransactionToSend (canister : Canister) (withdrawal : BoundWithdrawal)
    (reply : Option Signature) (now : Timestamp) :
    Except Panic (Canister × Option SignedTransaction) := do
  let canister ← signTransaction canister withdrawal reply now
  return (canister, reply.map fun signature => ⟨signature, withdrawal.message⟩)

/-- The transaction that a message of the round of withdrawals signs. -/
def Config.signedWithdrawal (config : Config) (now : Timestamp) : Action → Option SignedTransaction
  | .withdrawals (.signed position reply) =>
      match config.withdrawals with
      | some (.signing withdrawals) =>
          match withdrawals[position]?.map (signTransactionToSend config.canister · reply now) with
          | some (.ok (_, signed)) => signed
          | _ => none
      | _ => none
  | _ => none

namespace Outbox

def empty : Outbox := ⟨[], none, []⟩

/-- A round ends once what it has to send was sent. -/
def admits (_ : Config) (outbox : Outbox) : Action → Bool
  | .withdrawals .finish => outbox.signed.isEmpty
  | .finalization .fetchLanded => outbox.rebroadcasts.any (·.2.isEmpty)
  | _ => true

def follow (config : Config) (now : Timestamp) (action : Action) (config' : Config)
    (outbox : Outbox) : Outbox where
  -- a round that ends drops what it keeps
  signed := if config'.withdrawals.isNone then []
    else outbox.signed ++ (config.signedWithdrawal now action).toList
  rebroadcasts := match config'.finalization with
    | some (.readingNonces ..) => outbox.rebroadcasts
    | _ => none
  sent := outbox.sent ++ (config.sentSweeps now action).map fun sent => .sweep ⟨sent.1, sent.2⟩

def move (config : Config) (now : Timestamp) (outbox : Outbox) : OutboxMove → Option Outbox
  | .sendTransactionsBatch =>
      match config.withdrawals with
      | some (.signing []) =>
          some { outbox with signed := [], sent := outbox.sent ++ outbox.signed.map .withdrawal }
      | _ => none
  | .resubmitTransactionsBatch =>
      match config.finalization, outbox.rebroadcasts with
      | some (.readingNonces _ [] unchanged _), none =>
          some { outbox with rebroadcasts := some (now, rebroadcastBatches unchanged now) }
      | _, _ => none
  | .rebroadcast =>
      match outbox.rebroadcasts with
      | some (chosenAt, batch :: batches) =>
          some { outbox with
            rebroadcasts := some (chosenAt, batches)
            sent := outbox.sent ++ batch.map (.rebroadcast · chosenAt) }
      | _ => none

def companion : Companion Outbox OutboxMove := ⟨admits, follow, move⟩

omit [SolanaSdk] in
/-- What a step of the tasks can do. -/
theorem move_cases {config : Config} {now : Timestamp} {outbox outbox' : Outbox} {move : OutboxMove}
    (h : outbox.move config now move = some outbox') :
    outbox' = { outbox with signed := [], sent := outbox.sent ++ outbox.signed.map .withdrawal } ∨
    (∃ address unchanged advanced,
      config.finalization = some (.readingNonces address [] unchanged advanced) ∧
      outbox' = { outbox with rebroadcasts := some (now, rebroadcastBatches unchanged now) }) ∨
    ∃ chosenAt batch batches, outbox.rebroadcasts = some (chosenAt, batch :: batches) ∧
      outbox' = { outbox with
        rebroadcasts := some (chosenAt, batches)
        sent := outbox.sent ++ batch.map (.rebroadcast · chosenAt) } := by
  unfold Outbox.move at h
  split at h
  · split at h
    · exact .inl (Option.some.inj h).symm
    · cases h
  · split at h
    case h_1 hround _ => exact .inr (.inl ⟨_, _, _, hround, (Option.some.inj h).symm⟩)
    case h_2 => cases h
  · split at h
    case h_1 hbatches => exact .inr (.inr ⟨_, _, _, hbatches, (Option.some.inj h).symm⟩)
    case h_2 => cases h

end Outbox

end Outbox

/-! ## What is in flight -/

section InFlight

variable [SolanaSdk]

/-- Every submitted withdrawal was recorded when it was submitted. -/
def SubmissionsRecorded (canister : Canister) : Prop :=
  ∀ withdrawal : InFlightWithdrawal, withdrawal.SubmittedIn canister.state →
    ∃ burnIndices, ⟨withdrawal.submittedAt, .submittedTransaction withdrawal.signature
      withdrawal.message [.minter] (.withdrawal burnIndices)⟩ ∈ canister.log

theorem SubmissionsRecorded.run {Emits : State → Timestamp → EventType → Prop}
    {canister canister' : Canister} (h : SubmissionsRecorded canister)
    (hrun : Canister.Run Emits canister canister') : SubmissionsRecorded canister' := by
  refine hrun.invariant SubmissionsRecorded (fun _ _ h => h) ?_ h
  intro state log now payload state' _ h heffect withdrawal hsubmitted
  -- an entry that was there before is recorded already
  have hold (hget : withdrawal.SubmittedIn state) : ∃ burnIndices,
      ⟨withdrawal.submittedAt, .submittedTransaction withdrawal.signature withdrawal.message
        [.minter] (.withdrawal burnIndices)⟩ ∈ log ++ [⟨now, payload⟩] := by
    obtain ⟨burnIndices, hmem⟩ := h withdrawal hget
    exact ⟨burnIndices, List.mem_append_left _ hmem⟩
  cases hkind : payload.isFinalization with
  | true => exact hold (State.get_of_finalization heffect hkind hsubmitted)
  | false =>
      cases heffect with
      | @sentWithdrawal signature message burnIndices =>
          unfold InFlightWithdrawal.SubmittedIn at hsubmitted
          rw [InsertionOrderedMap.get_insert] at hsubmitted
          split at hsubmitted
          · next heq =>
            obtain ⟨rfl, -, -, rfl⟩ := MinterTransaction.withdrawal.inj (Option.some.inj hsubmitted)
            obtain rfl := heq
            exact ⟨burnIndices, List.mem_append_right _ (List.mem_singleton_self _)⟩
          · exact hold hsubmitted
      | sweptDeposits =>
          unfold InFlightWithdrawal.SubmittedIn at hsubmitted
          rw [InsertionOrderedMap.get_insert] at hsubmitted
          split at hsubmitted
          · cases hsubmitted
          · exact hold hsubmitted
      | succeededWithdrawal | succeededSweep | failedWithdrawal | failedSweep | expiredSweep =>
          cases hkind
      | _ => exact hold hsubmitted

theorem SubmissionsRecorded.of_init {now : Timestamp} {canister : Canister}
    (h : Canister.init args now = .ok canister) : SubmissionsRecorded canister := by
  obtain ⟨_, pool, -, -, rfl⟩ := Canister.exists_of_init h
  intro withdrawal hsubmitted
  cases hsubmitted

/-- The withdrawals that the round found with their nonce value unchanged. -/
def FinalizeRound.unchanged : FinalizeRound → List InFlightWithdrawal
  | readingNonces _ _ unchanged _ => unchanged
  | _ => []

/-- What a round finds unchanged was submitted, and no other task concludes it. -/
theorem FinalizeRound.Steps.unchangedSubmitted {canister canister' : Canister} {now : Timestamp}
    {before after : Option FinalizeRound} {step : FinalizeAction}
    (hsteps : FinalizeRound.Steps canister now before step (canister', after))
    (hcurrent : ∀ round ∈ before, round.Current canister.state)
    (h : ∀ round ∈ before, ∀ withdrawal ∈ round.unchanged,
      withdrawal.SubmittedIn canister.state) :
    ∀ round ∈ after, ∀ withdrawal ∈ round.unchanged, withdrawal.SubmittedIn canister'.state := by
  have hread (state : State) : (FinalizeRound.readInFlightNonces state).unchanged = [] := by
    unfold FinalizeRound.readInFlightNonces
    split <;> rfl
  intro round hround
  cases hsteps with
  | startReading | checked =>
      obtain rfl := Option.some.inj hround
      simp [hread]
  | @nonceRead minterAddress withdrawals unchanged advanced withdrawal position reply hwithdrawal =>
      obtain rfl := Option.some.inj hround
      have hnew := (hcurrent _ rfl).inFlight withdrawal
        (List.mem_append_left _ (List.mem_of_getElem? hwithdrawal))
      have hold : ∀ withdrawal ∈ unchanged, withdrawal.SubmittedIn canister.state := h _ rfl
      intro withdrawal' hmem
      unfold FinalizeRound.noteNonceRead at hmem
      split at hmem
      · rcases List.mem_append.mp hmem with hmem | hmem
        · exact hold withdrawal' hmem
        · obtain rfl := List.mem_singleton.mp hmem
          exact hnew
      all_goals exact hold withdrawal' hmem
  | credited | ended => cases hround
  | _ =>
      obtain rfl := Option.some.inj hround
      simp [FinalizeRound.unchanged]

namespace Config

variable {config config' : Config} {now : Timestamp} {action : Action}

/-- Only finalization takes a submitted transaction away. -/
theorem Steps.get_submitted (hsteps : config.Steps now action config')
    (hreplay : config.canister.Replayable) (haction : ∀ step, action ≠ .finalization step)
    {signature : Signature} {transaction : MinterTransaction}
    (hget : config.canister.state.submittedTransactions.get signature = some transaction) :
    config'.canister.state.submittedTransactions.get signature = some transaction := by
  refine (hsteps.run hreplay).invariant
    (fun canister => canister.state.submittedTransactions.get signature = some transaction)
    (fun _ _ h => h) ?_ hget
  intro state log t payload state' hrecords hget heffect
  refine heffect.get_submitted hget ?_
  cases hkind : payload.isFinalization with
  | true =>
      obtain ⟨step, rfl⟩ := hrecords.recordedBy.finalization hkind
      exact absurd rfl (haction step)
  | false => simp [(payload.concludes_nothing hkind).1]

/-- The withdrawals that the round in progress found unchanged are still submitted. -/
def UnchangedSubmitted (config : Config) : Prop :=
  ∀ round ∈ config.finalization, ∀ withdrawal ∈ round.unchanged,
    withdrawal.SubmittedIn config.canister.state

/-- A message of the round takes no withdrawal away that was found unchanged. -/
theorem UnchangedSubmitted.steps (h : config.UnchangedSubmitted)
    (hcurrent : config.FinalizationCurrent) (hreplay : config.canister.Replayable)
    (hsteps : config.Steps now action config') : config'.UnchangedSubmitted := by
  have hkeep (haction : ∀ step, action ≠ .finalization step) (withdrawal : InFlightWithdrawal)
      (hsubmitted : withdrawal.SubmittedIn config.canister.state) :
      withdrawal.SubmittedIn config'.canister.state := hsteps.get_submitted hreplay haction hsubmitted
  cases hsteps with
  | unchanged => exact h
  | withdrawEnded => exact h
  | depositSolEnded => exact h
  | upgraded =>
      intro round hround
      cases hround
  | finalization hsteps =>
      intro round hround
      exact hsteps.unchangedSubmitted hcurrent h round hround
  | _ => exact fun round hround withdrawal hmem => hkeep (by simp) _ (h round hround withdrawal hmem)

theorem unchangedSubmitted_of_run {actions : List (Timestamp × Action)}
    (h : runFrom minterId args now actions = some config) :
    config.UnchangedSubmitted := by
  refine runFrom_induction (fun _ config => config.UnchangedSubmitted) ?_ ?_ h
  · intro config hinit
    obtain ⟨canister, -, rfl⟩ := init_eq_ok.mp hinit
    intro round hround
    cases hround
  · intro done config t action config' hdone hunchanged hsteps
    exact hunchanged.steps (finalizationCurrent_of_run hdone) (wellformed_of_run hdone).replayable
      hsteps

theorem submissionsRecorded_of_run {actions : List (Timestamp × Action)}
    (h : runFrom minterId args now actions = some config) :
    SubmissionsRecorded config.canister := by
  obtain ⟨-, initial, hinit, hrun⟩ := emits_of_run h
  exact (SubmissionsRecorded.of_init hinit).run hrun

/-- A signed withdrawal is recorded by the message that signs it. -/
theorem recorded_of_signedWithdrawal (hstep : config.step now action = some config')
    {signed : SignedTransaction} (hsigned : config.signedWithdrawal now action = some signed) :
    (Sent.withdrawal signed).RecordedIn config'.canister.log := by
  unfold signedWithdrawal at hsigned
  split at hsigned
  case h_2 => cases hsigned
  case h_1 position reply =>
    split at hsigned
    case h_2 => cases hsigned
    case h_1 withdrawals hround =>
      split at hsigned
      case h_2 => cases hsigned
      case h_1 canister signed' hresult =>
        obtain ⟨withdrawal, hwithdrawal, hresult⟩ := Option.map_eq_some_iff.mp hresult
        simp only [signTransactionToSend, bind_eq_ok, pure_eq_ok, Prod.mk.injEq] at hresult
        obtain ⟨canister, hsign, rfl, rfl⟩ := hresult
        obtain ⟨signature, rfl, rfl⟩ := Option.map_eq_some_iff.mp hsigned
        have hlog : config'.canister = canister := by
          simp only [step, WithdrawalRound.step, hround, hwithdrawal, hsign, orTrap,
            Option.bind_eq_bind, Option.bind_some, Option.pure_def, Option.some.injEq] at hstep
          rw [← hstep]
        obtain ⟨state, -, rfl⟩ := Canister.processEvent_eq_ok.mp hsign
        rw [hlog]
        exact ⟨_, _, List.mem_append_right _ (List.mem_singleton_self _)⟩

/-- A round whose nonce accounts are all read reads no more. -/
theorem Steps.finalization_of_read (hsteps : config.Steps now action config')
    {address address' : Address}
    {unchanged advanced withdrawals' unchanged' advanced' : List InFlightWithdrawal}
    (hround : config.finalization = some (.readingNonces address [] unchanged advanced))
    (hround' : config'.finalization =
      some (.readingNonces address' withdrawals' unchanged' advanced')) :
    config'.finalization = config.finalization := by
  cases hsteps with
  | finalization hsteps =>
      rw [hround] at hsteps
      cases hsteps with
      | nonceRead hwithdrawal => cases hwithdrawal
      | fetchLanded => cases hround'
      | ended => cases hround'
  | upgraded => cases hround'
  | _ => rfl

end Config

end InFlight

/-! ## What the tasks send -/

section Runs

variable [SolanaSdk] {config : Config} {outbox : Outbox}

namespace Outbox

/-- What is to be sent is recorded, and what was chosen to be sent again is sent in order. -/
structure Inv (config : Config) (outbox : Outbox) : Prop where
  signed : ∀ transaction ∈ outbox.signed,
    (Sent.withdrawal transaction).RecordedIn config.canister.log
  chosen : ∀ chosenAt batches, outbox.rebroadcasts = some (chosenAt, batches) →
    ∃ address unchanged advanced done,
      config.finalization = some (.readingNonces address [] unchanged advanced) ∧
      rebroadcastBatches unchanged chosenAt = done ++ batches ∧
      ∀ batch ∈ done, ∀ withdrawal ∈ batch, .rebroadcast withdrawal chosenAt ∈ outbox.sent
  sent : ∀ sent ∈ outbox.sent, sent.RecordedIn config.canister.log
  aged : ∀ withdrawal chosenAt, .rebroadcast withdrawal chosenAt ∈ outbox.sent →
    withdrawal.submittedAt + minRebroadcastAge ≤ chosenAt

omit [SolanaSdk] in
/-- What is sent is recorded, and old enough if it is sent again. -/
theorem Inv.send (h : Inv config outbox) {new : List Sent}
    (hrecorded : ∀ sent ∈ new, sent.RecordedIn config.canister.log)
    (haged : ∀ withdrawal chosenAt, .rebroadcast withdrawal chosenAt ∈ new →
      withdrawal.submittedAt + minRebroadcastAge ≤ chosenAt) :
    Inv config { outbox with sent := outbox.sent ++ new } := by
  refine ⟨h.signed, fun chosenAt batches hbatches => ?_, ?_, fun withdrawal chosenAt hmem => ?_⟩
  · obtain ⟨address, unchanged, advanced, done, hround, hchosen, hdone⟩ := h.chosen _ _ hbatches
    exact ⟨address, unchanged, advanced, done, hround, hchosen, fun batch hbatch withdrawal hmem =>
      List.mem_append_left _ (hdone batch hbatch withdrawal hmem)⟩
  · exact List.forall_mem_append.mpr ⟨h.sent, hrecorded⟩
  · exact (List.mem_append.mp hmem).elim (h.aged withdrawal chosenAt) (haged withdrawal chosenAt)

theorem Inv.follow (h : Inv config outbox) (hreplay : config.canister.Replayable)
    {now : Timestamp} {action : Action} {config' : Config}
    (hstep : config.step now action = some config') :
    Inv config' (outbox.follow config now action config') := by
  have hsteps := Config.steps_of_step hstep
  obtain ⟨new, hlog, -⟩ := (hsteps.run hreplay).log_append
  have hsubset : config.canister.log ⊆ config'.canister.log := by
    rw [hlog]
    exact List.subset_append_left _ _
  -- the message first takes the tasks on, then it sends its sweeps
  have hround : Inv config' { outbox.follow config now action config' with sent := outbox.sent } := by
    refine ⟨fun transaction hmem => ?_, fun chosenAt batches hbatches => ?_,
      fun sent hmem => (h.sent sent hmem).mono hsubset, h.aged⟩
    · simp only [Outbox.follow] at hmem
      split at hmem
      · cases hmem
      · rcases List.mem_append.mp hmem with hold | hnew
        · exact (h.signed transaction hold).mono hsubset
        · exact Config.recorded_of_signedWithdrawal hstep (Option.mem_toList.mp hnew)
    · simp only [Outbox.follow] at hbatches
      split at hbatches
      · next hround' =>
        obtain ⟨address, unchanged, advanced, done, hround, hrest⟩ := h.chosen _ _ hbatches
        refine ⟨address, unchanged, advanced, done, ?_, hrest⟩
        rw [hsteps.finalization_of_read hround hround', hround]
      · cases hbatches
  refine hround.send (fun sent hmem => ?_) (by simp)
  obtain ⟨transaction, hsweep, rfl⟩ := List.mem_map.mp hmem
  obtain ⟨signers, depositIds, blockHeight, hrecorded⟩ := Config.recorded_of_sent hstep hsweep
  exact ⟨now, signers, depositIds, blockHeight, hrecorded⟩

omit [SolanaSdk] in
/-- A send passes on what was signed, or what a round has chosen. -/
theorem Inv.move (h : Inv config outbox) (hsubmitted : config.UnchangedSubmitted)
    (hrecorded : SubmissionsRecorded config.canister) {now : Timestamp} {move : OutboxMove}
    {outbox' : Outbox} (hmove : outbox.move config now move = some outbox') :
    Inv config outbox' := by
  rcases move_cases hmove with rfl | ⟨address, unchanged, advanced, hround, rfl⟩ |
    ⟨chosenAt, batch, batches, hbatches, rfl⟩
  · have hsent := h.send (List.forall_mem_map.mpr h.signed) (by simp)
    exact ⟨by simp, hsent.chosen, hsent.sent, hsent.aged⟩
  · refine ⟨h.signed, ?_, h.sent, h.aged⟩
    intro chosenAt batches heq
    obtain ⟨rfl, rfl⟩ := Prod.mk.inj (Option.some.inj heq)
    exact ⟨address, unchanged, advanced, [], hround, rfl, by simp⟩
  · obtain ⟨address, unchanged, advanced, done, hround, hchosen, hdone⟩ := h.chosen _ _ hbatches
    have hbatch : batch ∈ rebroadcastBatches unchanged chosenAt := by
      rw [hchosen]
      exact List.mem_append_right _ List.mem_cons_self
    obtain ⟨-, hunchanged⟩ := mem_rebroadcastBatches hbatch
    have hsent : Inv config
        { outbox with sent := outbox.sent ++ batch.map (.rebroadcast · chosenAt) } := by
      refine h.send (List.forall_mem_map.mpr fun withdrawal hmem => ?_)
        fun withdrawal chosenAt' hmem => ?_
      · exact hrecorded withdrawal (hsubmitted _ hround withdrawal (hunchanged _ hmem).1)
      · obtain ⟨withdrawal', hwithdrawal, heq⟩ := List.mem_map.mp hmem
        obtain ⟨rfl, rfl⟩ := Sent.rebroadcast.inj heq
        exact (hunchanged _ hwithdrawal).2
    refine ⟨h.signed, fun chosenAt' batches' heq => ?_, hsent.sent, hsent.aged⟩
    obtain ⟨rfl, rfl⟩ := Prod.mk.inj (Option.some.inj heq)
    refine ⟨address, unchanged, advanced, done ++ [batch], hround, ?_, ?_⟩
    · rw [hchosen, List.append_assoc]
      rfl
    · intro batch' hbatch' withdrawal hmem
      rcases List.mem_append.mp hbatch' with hold | hlast
      · exact List.mem_append_left _ (hdone batch' hold withdrawal hmem)
      · obtain rfl := List.mem_singleton.mp hlast
        exact List.mem_append_right _ (List.mem_map_of_mem hmem)

theorem inv_of_run {now : Timestamp} {actions : List (Timestamp × CompanionAction OutboxMove)}
    {pair : Config × Outbox} (h : companion.runFrom .empty minterId args now actions = some pair) :
    Inv pair.1 pair.2 ∧ ∃ done, Config.runFrom minterId args now done = some pair.1 := by
  refine Companion.runFrom_induction Inv ?_ ?_ ?_ h
  · intro config _
    constructor <;> simp [empty]
  · intro done config outbox t action config' hdone hinv _ hstep
    exact hinv.follow (Config.wellformed_of_run hdone).replayable hstep
  · intro done config outbox t move outbox' hdone hinv hmove
    exact hinv.move (Config.unchangedSubmitted_of_run hdone)
      (Config.submissionsRecorded_of_run hdone) hmove

/-- What holds of everything that the minter sends. -/
structure Safe (config : Config) (outbox : Outbox) : Prop where
  /-- The submission of a transaction is recorded before it is sent. -/
  recorded : ∀ sent ∈ outbox.sent, sent.RecordedIn config.canister.log
  /-- All withdrawals sent with one value of one nonce account carry the same message. -/
  unique : ∀ sent ∈ outbox.sent, ∀ sent' ∈ outbox.sent, ∀ transaction transaction',
    sent.withdrawal? = some transaction → sent'.withdrawal? = some transaction' →
    transaction.message.advancedNonceAccount = transaction'.message.advancedNonceAccount →
    transaction.message.recentBlockhash = transaction'.message.recentBlockhash →
    transaction.message = transaction'.message
  /-- A withdrawal is sent again at least 90 seconds after it was submitted. -/
  aged : ∀ withdrawal now, .rebroadcast withdrawal now ∈ outbox.sent →
    withdrawal.submittedAt + minRebroadcastAge ≤ now
  /-- What is about to be sent again is still in flight, at most ten transactions at once. -/
  inFlight : ∀ chosenAt batches, outbox.rebroadcasts = some (chosenAt, batches) →
    ∀ batch ∈ batches, batch.length ≤ 10 ∧
      ∀ withdrawal ∈ batch, withdrawal.SubmittedIn config.canister.state
  /-- Once nothing is left to send again, every withdrawal that was found unchanged and is old enough
  has been sent. -/
  complete : ∀ chosenAt, outbox.rebroadcasts = some (chosenAt, []) →
    ∃ address unchanged advanced,
      config.finalization = some (.readingNonces address [] unchanged advanced) ∧
      ∀ withdrawal ∈ unchanged, withdrawal.isOldEnoughToRebroadcast chosenAt →
        .rebroadcast withdrawal chosenAt ∈ outbox.sent

theorem Inv.unique [SolanaSdk.Lawful] (h : Inv config outbox) {bindings : List Binding}
    (hsigns : config.Signs bindings) {sent sent' : Sent} {transaction transaction' : SignedTransaction}
    (hmem : sent ∈ outbox.sent) (hmem' : sent' ∈ outbox.sent)
    (hsent : sent.withdrawal? = some transaction) (hsent' : sent'.withdrawal? = some transaction')
    (haccount : transaction.message.advancedNonceAccount = transaction'.message.advancedNonceAccount)
    (hvalue : transaction.message.recentBlockhash = transaction'.message.recentBlockhash) :
    transaction.message = transaction'.message := by
  -- what was sent as a withdrawal was passed to the signer
  have hrequested {sent : Sent} {transaction : SignedTransaction} (hmem : sent ∈ outbox.sent)
      (hsent : sent.withdrawal? = some transaction) : ∃ withdrawal,
      .withdrawal withdrawal ∈ config.signRequests ∧ withdrawal.message = transaction.message := by
    have hrecorded := h.sent sent hmem
    cases sent with
    | sweep => cases hsent
    | withdrawal =>
        obtain rfl := Option.some.inj hsent
        obtain ⟨timestamp, burnIndices, hlog⟩ := hrecorded
        obtain ⟨withdrawal, hrequest, -, heq⟩ := hsigns.submitted hlog
        exact ⟨withdrawal, hrequest, heq⟩
    | rebroadcast inFlight =>
        obtain rfl := Option.some.inj hsent
        obtain ⟨burnIndices, hlog⟩ := hrecorded
        obtain ⟨withdrawal, hrequest, -, heq⟩ := hsigns.submitted hlog
        exact ⟨withdrawal, hrequest, heq⟩
  obtain ⟨withdrawal, hrequest, heq⟩ := hrequested hmem hsent
  obtain ⟨withdrawal', hrequest', heq'⟩ := hrequested hmem' hsent'
  rw [← heq, ← heq'] at haccount hvalue ⊢
  exact hsigns.message_unique hrequest hrequest' haccount hvalue

/-- In every run, whatever is sent was recorded before, no two messages with one nonce value are sent,
and a withdrawal is only sent again while it is in flight. -/
theorem safe_of_run [SolanaSdk.Lawful] {minterId : Principal} {args : InitArgs} {now : Timestamp}
    {actions : List (Timestamp × CompanionAction OutboxMove)} {pair : Config × Outbox}
    (h : companion.runFrom .empty minterId args now actions = some pair) :
    Safe pair.1 pair.2 := by
  obtain ⟨hinv, done, hdone⟩ := inv_of_run h
  obtain ⟨-, bindings, hsigns⟩ := Config.signs_of_run hdone
  refine ⟨hinv.sent, ?_, hinv.aged, ?_, ?_⟩
  · intro sent hmem sent' hmem' transaction transaction' hsent hsent'
    exact hinv.unique hsigns hmem hmem' hsent hsent'
  · intro chosenAt batches hbatches batch hbatch
    obtain ⟨address, unchanged, advanced, done', hround, hchosen, -⟩ := hinv.chosen _ _ hbatches
    obtain ⟨hlength, hunchanged⟩ := mem_rebroadcastBatches
      (hchosen ▸ List.mem_append_right done' hbatch : batch ∈ rebroadcastBatches unchanged chosenAt)
    exact ⟨hlength, fun withdrawal hmem =>
      Config.unchangedSubmitted_of_run hdone _ hround withdrawal (hunchanged withdrawal hmem).1⟩
  · intro chosenAt hbatches
    obtain ⟨address, unchanged, advanced, done', hround, hchosen, hdone'⟩ := hinv.chosen _ _ hbatches
    refine ⟨address, unchanged, advanced, hround, fun withdrawal hmem hold => ?_⟩
    have hflat : withdrawal ∈ (rebroadcastBatches unchanged chosenAt).flatten := by
      rw [rebroadcastBatches, flatten_chunks (by decide)]
      exact List.mem_filter.mpr ⟨hmem, hold⟩
    rw [hchosen, List.append_nil] at hflat
    obtain ⟨batch, hbatch, hin⟩ := List.mem_flatten.mp hflat
    exact hdone' batch hbatch withdrawal hin

end Outbox

end Runs

section Sample

attribute [local instance] Solana.sdk

/-- A sweep and a withdrawal are sent. The withdrawal is still in flight 90 seconds later and is sent
again. -/
def sampleBroadcast : List (Timestamp × CompanionAction OutboxMove) :=
  let minter (actions : List (Timestamp × Action)) :
      List (Timestamp × CompanionAction OutboxMove) :=
    actions.map fun entry => (entry.1, .minter entry.2)
  minter (sampleDeposit.take 9) ++ [(10, .move .resubmitTransactionsBatch)] ++
    minter (sampleDeposit.drop 9 ++ sampleWithdrawal.take 6) ++
    [(26, .move .sendTransactionsBatch), (27, .minter (.withdrawals .finish)),
      (90_000_000_025, .minter (.finalization .start)),
      (90_000_000_026, .minter (.finalization (.nonceRead 0 (some ⟨7, 77⟩)))),
      (90_000_000_027, .move .resubmitTransactionsBatch), (90_000_000_027, .move .rebroadcast)]

theorem Outbox.safe_sampleBroadcast :
    ∃ pair, companion.runFrom .empty sampleMinterId sampleInitArgs 0 sampleBroadcast = some pair ∧
      pair.2.sent.map (·.withdrawal?.map SignedTransaction.signature) = [none, some 6, some 6] ∧
      Safe pair.1 pair.2 := by
  obtain ⟨pair, hpair, htest⟩ : ∃ pair,
      companion.runFrom .empty sampleMinterId sampleInitArgs 0 sampleBroadcast = some pair ∧
      pair.2.sent.map (·.withdrawal?.map SignedTransaction.signature) = [none, some 6, some 6] :=
    exists_of_any (by decide +kernel)
  have := Solana.lawful_sdk
  exact ⟨pair, hpair, htest, safe_of_run hpair⟩

end Sample

end Cksol
