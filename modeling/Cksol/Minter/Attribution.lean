import Cksol.Minter.Broadcast
import Cksol.Minter.Responses
import Cksol.State.SweepMessages

/-! # What the minter takes from the chain

What the minter records about the chain can be traced to the responses it received: an outcome or a
credit comes from a response on which the providers agree, that the recorded signature names, and whose
message that signature signs.
-/

namespace Cksol

open Std

open Solana (NonceCodec)

variable {timestamp : Timestamp} {burnIndices : List LedgerBurnIndex} {signers : List Signer}
  {message : Message}

/-! ## Outcomes and submissions in the log -/

section History

variable [SolanaSdk]

/-- The outcome of the transaction, as an event. -/
def EventType.IsOutcomeOf (payload : EventType) (signature : Signature) : Prop :=
  payload = .succeededTransaction signature ∨ payload = .failedTransaction signature

/-- The outcome of the transaction is recorded. -/
def State.IsFinal (state : State) (signature : Signature) : Prop :=
  signature ∈ state.succeededTransactions ∨ state.failedTransactions.get signature ≠ none

theorem State.Effect.isFinal {state state' : State} {payload : EventType} {signature : Signature}
    (heffect : state.Effect timestamp payload state') (hpayload : payload.IsOutcomeOf signature) :
    state'.IsFinal signature := by
  rcases hpayload with rfl | rfl
  · cases heffect with
    | succeededWithdrawal | succeededSweep => exact .inl (OrdSet.mem_insert_iff.mpr (.inl rfl))
  · cases heffect with
    | failedWithdrawal | failedSweep =>
        refine .inr ?_
        rw [InsertionOrderedMap.get_insert, if_pos rfl]
        exact Option.some_ne_none _

/-- A submitted withdrawal is in flight with its message or final, and a recorded outcome is final. -/
structure OutcomeHistory (log : List Event) (state : State) : Prop where
  submitted : ∀ {timestamp signature message signers burnIndices},
    ⟨timestamp, .submittedTransaction signature message signers (.withdrawal burnIndices)⟩ ∈ log →
    (∃ account nonceValue submittedAt, state.submittedTransactions.get signature =
      some (.withdrawal message account nonceValue submittedAt)) ∨ state.IsFinal signature
  concluded : ∀ {timestamp payload signature}, ⟨timestamp, payload⟩ ∈ log →
    payload.IsOutcomeOf signature → state.IsFinal signature

namespace OutcomeHistory

theorem effect {log : List Event} {state state' : State} {payload : EventType}
    (h : OutcomeHistory log state) (heffect : state.Effect timestamp payload state') :
    OutcomeHistory (log ++ [⟨timestamp, payload⟩]) state' := by
  constructor
  · intro submittedAt signature message signers burnIndices hmem
    rcases List.mem_append.mp hmem with hold | hnew
    · rcases h.submitted hold with ⟨account, nonceValue, recordedAt, hget⟩ | hfinal
      · exact (heffect.withdrawal_recorded hget).imp_left fun hget => ⟨_, _, _, hget⟩
      · exact .inr (heffect.final hfinal)
    · obtain ⟨-, rfl⟩ := Event.mk.inj (List.mem_singleton.mp hnew)
      cases heffect with
      | sentWithdrawal =>
          exact .inl ⟨_, _, _, (InsertionOrderedMap.get_insert ..).trans (if_pos rfl)⟩
  · intro concludedAt concluded signature hmem houtcome
    rcases List.mem_append.mp hmem with hold | hnew
    · exact heffect.final (h.concluded hold houtcome)
    · obtain ⟨-, rfl⟩ := Event.mk.inj (List.mem_singleton.mp hnew)
      exact heffect.isFinal houtcome

theorem of_run {minterId : Principal} {args : InitArgs} {now : Timestamp}
    {actions : List (Timestamp × Action)} {config : Config}
    (h : Config.runFrom minterId args now actions = some config) :
    OutcomeHistory config.canister.log config.canister.state := by
  refine (Config.runFrom_invariant (fun _ config => OutcomeHistory config.canister.log
    config.canister.state) ?_ ?_ h).2
  · intro config hinit
    simp only [Config.init, Canister.init, bind_eq_ok, pure_eq_ok] at hinit
    obtain ⟨canister, ⟨state, -, rfl⟩, rfl⟩ := hinit
    constructor
    · intro _ _ _ _ _ hmem
      cases List.mem_singleton.mp hmem
    · intro _ _ _ hmem houtcome
      obtain ⟨-, rfl⟩ := Event.mk.inj (List.mem_singleton.mp hmem)
      rcases houtcome with heq | heq <;> cases heq
  · intro _ config t action config' hwellformed hhistory hsteps
    exact (hsteps.run hwellformed.replayable).invariant
      (fun canister => OutcomeHistory canister.log canister.state)
      (fun _ _ h => ⟨h.submitted, h.concluded⟩) (fun _ _ _ _ _ _ h heffect => h.effect heffect)
      hhistory

end OutcomeHistory

/-- A final transaction is not submitted again. -/
theorem Canister.Run.mem_log_of_isFinal {Emits : State → Timestamp → EventType → Prop}
    {canister canister' : Canister} (hrun : Canister.Run Emits canister canister')
    {signature : Signature} (hfinal : canister.state.IsFinal signature)
    {purpose : TransactionPurpose}
    (hmem : ⟨timestamp, .submittedTransaction signature message signers purpose⟩ ∈ canister'.log) :
    ⟨timestamp, .submittedTransaction signature message signers purpose⟩ ∈ canister.log := by
  refine (hrun.invariant (fun reached => reached.state.IsFinal signature ∧
    ((⟨timestamp, .submittedTransaction signature message signers purpose⟩ : Event) ∈ reached.log →
      (⟨timestamp, .submittedTransaction signature message signers purpose⟩ : Event) ∈ canister.log))
    (fun _ _ h => h) ?_ ⟨hfinal, id⟩).2 hmem
  rintro state log now payload state' - ⟨hfinal, hlog⟩ heffect
  refine ⟨heffect.final hfinal, fun hmem => ?_⟩
  rcases List.mem_append.mp hmem with hold | hnew
  · exact hlog hold
  · obtain ⟨-, rfl⟩ := Event.mk.inj (List.mem_singleton.mp hnew)
    cases heffect with
    | sentWithdrawal hsucceeded hfailed | sweptDeposits hsucceeded hfailed =>
        rcases hfinal with hmem | hne
        · exact absurd hmem hsucceeded
        · exact absurd hfailed hne

end History

/-! ## Traces to responses -/

section Grounds

variable [SolanaSdk]

/-- The status that the event records for the signature. -/
def EventType.Reports (signature : Signature) (status : Option SignatureStatus) : EventType → Prop
  | succeededTransaction reported => reported = signature ∧ status = some ⟨true, none⟩
  | failedTransaction reported => reported = signature ∧ ∃ err, status = some ⟨true, some err⟩
  | expiredTransaction reported => reported = signature ∧ status = none
  | _ => False

omit [SolanaSdk] in
theorem reports_of_mem_sweepStatusEvents {transactions : OrdMap Signature BlockHeight}
    {currentBlockHeight : Option BlockHeight}
    {replies : List (Option (List (Option SignatureStatus)))} {payload : EventType}
    {signature : Signature} (h : payload ∈ sweepStatusEvents transactions currentBlockHeight replies)
    (hsignature : payload.concludedSignature = some signature) :
    ∃ batch statuses status, (batch, some statuses) ∈ (statusBatches transactions).zip replies ∧
      (signature, status) ∈ batch.zip statuses ∧ payload.Reports signature status := by
  -- a checked status was in the reply to its batch
  have hbatch {status : Option SignatureStatus}
      (hstatus : (signature, status) ∈ checkedStatuses (statusBatches transactions) replies) :
      ∃ batch statuses, (batch, some statuses) ∈ (statusBatches transactions).zip replies ∧
        (signature, status) ∈ batch.zip statuses := by
    obtain ⟨⟨batch, reply⟩, hmem, hstatus⟩ := List.mem_flatMap.mp hstatus
    cases reply with
    | none => simp at hstatus
    | some statuses => exact ⟨batch, statuses, hmem, hstatus⟩
  simp only [sweepStatusEvents, List.mem_append, List.mem_map] at h
  rcases h with (⟨reported, hmem, rfl⟩ | ⟨reported, hmem, rfl⟩) | ⟨reported, hmem, rfl⟩
  · obtain rfl : reported = signature := Option.some.inj hsignature
    obtain ⟨err, hstatus⟩ := mem_checkTransactionStatuses.2.1.mp (ExtTreeMap.mem_keys.mp hmem)
    obtain ⟨batch, statuses, hbatch, hmem⟩ := hbatch hstatus
    exact ⟨batch, statuses, _, hbatch, hmem, rfl, err, rfl⟩
  · obtain rfl : reported = signature := Option.some.inj hsignature
    have hstatus := mem_checkTransactionStatuses.1.mp (ExtTreeSet.mem_toList.mp hmem)
    obtain ⟨batch, statuses, hbatch, hmem⟩ := hbatch hstatus
    exact ⟨batch, statuses, _, hbatch, hmem, rfl, rfl⟩
  · obtain rfl : reported = signature := Option.some.inj hsignature
    have hnotFound := (sublist_expiredTransactions _).subset hmem
    have hstatus := mem_checkTransactionStatuses.2.2.mp (ExtTreeSet.mem_toList.mp hnotFound)
    obtain ⟨batch, statuses, hbatch, hmem⟩ := hbatch hstatus
    exact ⟨batch, statuses, _, hbatch, hmem, rfl, rfl⟩

/-- A nonce value is bound by a message that read it. -/
theorem Config.Steps.mem_log_created {config config' : Config} {now : Timestamp} {action : Action}
    (hsteps : config.Steps now action config') (hreplay : config.canister.Replayable)
    {account : Address} {value : Hash}
    (h : ⟨timestamp, .createdWithdrawalTransaction burnIndices account value⟩ ∈
      config'.canister.log) :
    ⟨timestamp, .createdWithdrawalTransaction burnIndices account value⟩ ∈ config.canister.log ∨
      ∃ address batches position batch reply, config.withdrawals = some (.creating address batches) ∧
        action = .withdrawals (.nonceRead position reply) ∧ batches[position]? = some batch ∧
        batch.nonceAccount = account ∧ readVerifiedNonce reply address = some value := by
  rcases (hsteps.run hreplay).mem_log h with hold | ⟨_, hrecords⟩
  · exact .inl hold
  obtain ⟨step, rfl⟩ := hrecords.recordedBy
  cases hsteps with
  | withdrawals hsteps =>
      generalize hround : config.withdrawals = before at hsteps
      cases hsteps with
      | created hbatch hread hunseen hbuild hevent =>
          obtain ⟨state, -, hcanister⟩ := Canister.processEvent_eq_ok.mp hevent
          rw [hcanister] at h
          rcases List.mem_append.mp h with hold | hnew
          · exact .inl hold
          · obtain ⟨-, heq⟩ := Event.mk.inj (List.mem_singleton.mp hnew)
            obtain ⟨-, rfl, rfl⟩ := EventType.createdWithdrawalTransaction.inj heq
            exact .inr ⟨_, _, _, _, _, rfl, rfl, hbatch, rfl, hread⟩
      | signed hwithdrawal hevent =>
          obtain ⟨state, -, hcanister⟩ := Canister.processEvent_eq_ok.mp hevent
          rw [hcanister] at h
          rcases List.mem_append.mp h with hold | hnew
          · exact .inl hold
          · cases List.mem_singleton.mp hnew
      | start hstart hkey =>
          rw [Canister.startTask_eq_some hstart] at h
          exact .inl h
      | ended => exact .inl h
      | _ => exact .inl h
  | unchanged | withdrawEnded | depositSolEnded => exact .inl h

variable [TransactionSdk] [NonceCodec]

namespace Responses

/-- The outcome of a withdrawal is that of its message, signed by the minter. -/
def Landed (responses : Responses) (config : Config) : Prop :=
  ∀ {submittedAt signature message signers burnIndices concludedAt payload},
    ⟨submittedAt, .submittedTransaction signature message signers (.withdrawal burnIndices)⟩ ∈
      config.canister.log →
    ⟨concludedAt, payload⟩ ∈ config.canister.log → payload.IsOutcomeOf signature →
    ∃ key status, config.canister.state.minterPublicKey = some key ∧
      responses.Attests signature (.legacy message) (some status) ∧
      TransactionSdk.verify signature (minterAddress key) (.legacy message) = true ∧
      (status.err = none ↔ payload = .succeededTransaction signature)

/-- The outcome of any other transaction is its status. -/
def Checked (responses : Responses) (config : Config) : Prop :=
  ∀ {concludedAt payload signature}, ⟨concludedAt, payload⟩ ∈ config.canister.log →
    payload.concludedSignature = some signature →
    signature ∉ withdrawalSignatures config.canister.log →
    ∃ batch statuses status,
      .signatureStatuses batch (.ok (.consistent (.ok statuses))) ∈ responses ∧
      (signature, status) ∈ batch.zip statuses ∧ payload.Reports signature status

/-- A credit settles a recorded sweep, signed by the depositor that pays the fee. -/
def Credited (responses : Responses) (config : Config) : Prop :=
  ∀ {timestamp signature amountReceived mints},
    ⟨timestamp, .creditedSweep signature amountReceived mints⟩ ∈ config.canister.log →
    ∃ (sweep : Sweep) (payer : Address) (blockhash : Hash) (status : Sweep.TransactionStatusMeta),
      sweep.RecordedIn config.canister.log ∧
      sweep.feePayerAddress = some payer ∧
      responses.Attests signature (.legacy (sweep.sweepMessage blockhash)) (some status) ∧
      TransactionSdk.verify signature payer (.legacy (sweep.sweepMessage blockhash)) = true ∧
      sweep.settle ⟨.legacy (sweep.sweepMessage blockhash), some status⟩ =
        .ok ⟨amountReceived, mints⟩

/-- A sweep is quarantined over an attributed transaction that does not match its plan. -/
def Quarantined (responses : Responses) (config : Config) : Prop :=
  ∀ {timestamp signature}, ⟨timestamp, .quarantinedSweep signature⟩ ∈ config.canister.log →
    ∃ (sweep : Sweep) (message : TransactionMessage) (status : Option Sweep.TransactionStatusMeta)
      (mismatch : Sweep.Mismatch), sweep.RecordedIn config.canister.log ∧
      responses.Attests signature message status ∧
      sweep.settle ⟨message.fetched, status⟩ = .error (.mismatch mismatch)

/-- The nonce value of a created withdrawal was read from an account of the minter. -/
def Created (responses : Responses) (config : Config) : Prop :=
  ∀ {timestamp burnIndices account value},
    ⟨timestamp, .createdWithdrawalTransaction burnIndices account value⟩ ∈ config.canister.log →
    ∃ key, config.canister.state.minterPublicKey = some key ∧
      responses.Reads account ⟨minterAddress key, value⟩

/-- What the log says about the chain, the responses say too. -/
structure Grounds (responses : Responses) (config : Config) : Prop where
  landed : responses.Landed config
  checked : responses.Checked config
  credited : responses.Credited config
  quarantined : responses.Quarantined config
  created : responses.Created config

variable {responses responses' : Responses} {config config' : Config} {now : Timestamp}
  {action : Action}

theorem Grounds.mono (h : responses.Grounds config) (hsubset : responses ⊆ responses') :
    responses'.Grounds config where
  landed hsubmitted hmem houtcome := by
    obtain ⟨key, status, hkey, hattests, hrest⟩ := h.landed hsubmitted hmem houtcome
    exact ⟨key, status, hkey, hattests.mono hsubset, hrest⟩
  checked hmem hsignature hother := by
    obtain ⟨batch, statuses, status, hresponse, hrest⟩ := h.checked hmem hsignature hother
    exact ⟨batch, statuses, status, hsubset hresponse, hrest⟩
  credited hmem := by
    obtain ⟨sweep, payer, blockhash, status, hrecorded, hpayer, hattests, hrest⟩ := h.credited hmem
    exact ⟨sweep, payer, blockhash, status, hrecorded, hpayer, hattests.mono hsubset, hrest⟩
  quarantined hmem := by
    obtain ⟨sweep, message, status, mismatch, hrecorded, hattests, hsettle⟩ := h.quarantined hmem
    exact ⟨sweep, message, status, mismatch, hrecorded, hattests.mono hsubset, hsettle⟩
  created hmem := by
    obtain ⟨key, hkey, hreads⟩ := h.created hmem
    exact ⟨key, hkey, hreads.mono hsubset⟩

end Responses

/-! ## Every message -/

omit [SolanaSdk] [TransactionSdk] [NonceCodec] in
/-- A recorded outcome is that of a fetched transaction with the message of the withdrawal. -/
theorem fetched_of_landedWithdrawalEvent {withdrawal : InFlightWithdrawal}
    {reply : Option Sweep.FetchedTransaction} {payload : EventType}
    (h : landedWithdrawalEvent withdrawal reply = some payload) :
    ∃ status, reply = some ⟨.legacy withdrawal.message, some status⟩ ∧
      payload.IsOutcomeOf withdrawal.signature ∧
      (status.err = none ↔ payload = .succeededTransaction withdrawal.signature) := by
  unfold landedWithdrawalEvent at h
  split at h
  · cases h
  case h_2 fetched =>
    obtain ⟨message, status⟩ := fetched
    split at h
    · cases h
    case isFalse hmessage =>
      obtain rfl := not_not.mp hmessage
      split at h
      case h_1 hstatus =>
        obtain rfl := Option.some.inj h
        subst hstatus
        exact ⟨_, rfl, .inl rfl, by simp⟩
      case h_2 hstatus =>
        obtain rfl := Option.some.inj h
        subst hstatus
        exact ⟨_, rfl, .inr rfl, by simp⟩
      case h_3 => cases h

omit [TransactionSdk] [NonceCodec] in
/-- What was submitted for a withdrawal is not in flight as anything else. -/
theorem OutcomeHistory.get_submitted {config : Config} (hwellformed : config.Wellformed)
    (hhistory : OutcomeHistory config.canister.log config.canister.state) {submittedAt : Timestamp}
    {signature : Signature} (hsubmitted : ⟨submittedAt, .submittedTransaction signature
      message signers (.withdrawal burnIndices)⟩ ∈ config.canister.log)
    {transaction : MinterTransaction}
    (hget : config.canister.state.submittedTransactions.get signature = some transaction) :
    ∃ account nonceValue recordedAt,
      transaction = .withdrawal message account nonceValue recordedAt := by
  rcases hhistory.submitted hsubmitted with ⟨account, nonceValue, recordedAt, hget'⟩ | hfinal
  · exact ⟨account, nonceValue, recordedAt, Option.some.inj (hget.symm.trans hget')⟩
  · rcases hfinal with hsucceeded | hfailed
    · exact absurd hsucceeded (hwellformed.tables.signatures.not_succeeded hget)
    · exact absurd (hwellformed.tables.signatures.not_failed hget) hfailed

namespace Responses

variable {responses : Responses} {config config' : Config} {now : Timestamp} {action : Action}
  {reply : FinalizeAction} {round : FinalizeRound} {payload : EventType} {signature : Signature}

section Rounds

variable (hadmits : admits config responses (.finalization reply) = true)
  (hround : config.finalization = some round) (hevent : payload ∈ round.events reply)

include hadmits hround hevent

/-- An outcome that a round records for a withdrawal is in a response. -/
theorem attests_of_mem_events [TransactionSdk.Lawful] (hwellformed : config.Wellformed)
    (hcurrent : config.FinalizationCurrent)
    (hhistory : OutcomeHistory config.canister.log config.canister.state)
    (houtcome : payload.IsOutcomeOf signature) {submittedAt : Timestamp}
    (hsubmitted : ⟨submittedAt, .submittedTransaction signature message signers
      (.withdrawal burnIndices)⟩ ∈ config.canister.log) :
    ∃ status, responses.Attests signature (.legacy message) (some status) ∧
      (status.err = none ↔ payload = .succeededTransaction signature) := by
  unfold FinalizeRound.events at hevent
  split at hevent
  case h_1 transactions height replies =>
    -- a status check only concludes sweeps
    obtain ⟨checked, hmem, hcases⟩ := mem_sweepStatusEvents hevent
    obtain ⟨blockHeight, hheight⟩ := OrdMap.mem_iff_exists.mp hmem
    have hget := (hcurrent _ hround).checked _ _ hheight
    obtain rfl : checked = signature := by
      rcases hcases with rfl | rfl | rfl <;> rcases houtcome with heq | heq <;> cases heq <;> rfl
    obtain ⟨_, _, _, heq⟩ := hhistory.get_submitted hwellformed hsubmitted hget
    cases heq
  case h_2 withdrawals position fetched =>
    obtain ⟨withdrawal, hwithdrawal, hpayload⟩ :=
      Option.bind_eq_some_iff.mp (Option.mem_toList.mp hevent)
    obtain ⟨status, rfl, hof, hsucceeded⟩ := fetched_of_landedWithdrawalEvent hpayload
    obtain rfl : withdrawal.signature = signature := by
      rcases hof with rfl | rfl <;> rcases houtcome with heq | heq <;> cases heq <;> rfl
    have hget := (hcurrent _ hround).inFlight _ (List.mem_of_getElem? hwithdrawal)
    obtain ⟨_, _, _, heq⟩ := hhistory.get_submitted hwellformed hsubmitted hget
    obtain ⟨rfl, -⟩ := MinterTransaction.withdrawal.inj heq
    simp only [admits, hround, hwithdrawal, Option.all_some] at hadmits
    obtain ⟨fetched, hfetched, hattests⟩ := attests_of_yields hadmits
    rw [TransactionMessage.eq_legacy_of_fetched hfetched.symm] at hattests
    exact ⟨status, hattests, hsucceeded⟩
  case h_3 sweeps replies =>
    obtain ⟨entry, -, reply, hcredit⟩ := mem_creditEvents hevent
    rcases creditEvent_eq_some hcredit with ⟨_, _, -, -, rfl⟩ | rfl <;>
      rcases houtcome with heq | heq <;> cases heq
  case h_4 => cases hevent

/-- An outcome that a round records for anything else is in a response. -/
theorem reports_of_mem_events (hsignature : payload.concludedSignature = some signature)
    (hother : ∀ withdrawal ∈ round.inFlight, withdrawal.signature ≠ signature) :
    ∃ batch statuses status,
      .signatureStatuses batch (.ok (.consistent (.ok statuses))) ∈ responses ∧
      (signature, status) ∈ batch.zip statuses ∧ payload.Reports signature status := by
  unfold FinalizeRound.events at hevent
  split at hevent
  case h_1 transactions height replies =>
    obtain ⟨batch, statuses, status, hbatch, hmem, hreports⟩ :=
      reports_of_mem_sweepStatusEvents hevent hsignature
    refine ⟨batch, statuses, status, ?_, hmem, hreports⟩
    simp only [admits, hround, yieldsAll, Bool.and_eq_true, List.all_eq_true] at hadmits
    obtain ⟨response, hresponse, hread⟩ := yields_iff.mp (hadmits.2 _ hbatch)
    unfold RpcResponse.signatureStatuses? at hread
    split at hread
    case h_2 => cases hread
    case h_1 queried raw =>
      obtain ⟨rfl, hsome⟩ := Option.ite_none_right_eq_some.mp hread
      rwa [RpcReply.read_eq_ok.mp (toOption_eq_some.mp (Option.some.inj hsome))] at hresponse
  case h_2 withdrawals position fetched =>
    obtain ⟨withdrawal, hwithdrawal, hpayload⟩ :=
      Option.bind_eq_some_iff.mp (Option.mem_toList.mp hevent)
    obtain ⟨status, rfl, hof, -⟩ := fetched_of_landedWithdrawalEvent hpayload
    refine absurd ?_ (hother withdrawal (List.mem_of_getElem? hwithdrawal))
    rcases hof with rfl | rfl <;> exact Option.some.inj hsignature
  case h_3 sweeps replies =>
    obtain ⟨entry, -, reply, hcredit⟩ := mem_creditEvents hevent
    rcases creditEvent_eq_some hcredit with ⟨_, _, -, -, rfl⟩ | rfl <;> cases hsignature
  case h_4 => cases hevent

/-- A settlement that a round records is that of an attributed transaction. -/
theorem settles_of_mem_events [TransactionSdk.Lawful] (hcurrent : config.FinalizationCurrent)
    (hsignature : payload.settledSignature = some signature) :
    ∃ (sweep : Sweep) (message : TransactionMessage) (status : Option Sweep.TransactionStatusMeta),
      config.canister.state.deposits.finalized.bySignature[signature]? = some sweep ∧
      responses.Attests signature message status ∧
      ((∃ settled, sweep.settle ⟨message.fetched, status⟩ = .ok settled ∧
          payload = .creditedSweep signature settled.amountReceived settled.mints) ∨
        ∃ mismatch, sweep.settle ⟨message.fetched, status⟩ = .error (.mismatch mismatch) ∧
          payload = .quarantinedSweep signature) := by
  unfold FinalizeRound.events at hevent
  split at hevent
  case h_1 =>
    obtain ⟨_, -, hcases⟩ := mem_sweepStatusEvents hevent
    rcases hcases with rfl | rfl | rfl <;> cases hsignature
  case h_2 =>
    obtain ⟨withdrawal, -, hpayload⟩ := Option.bind_eq_some_iff.mp (Option.mem_toList.mp hevent)
    obtain ⟨-, -, hof, -⟩ := fetched_of_landedWithdrawalEvent hpayload
    rcases hof with rfl | rfl <;> cases hsignature
  case h_3 sweeps replies =>
    simp only [creditEvents, List.mem_filterMap] at hevent
    obtain ⟨⟨entry, fetched⟩, hmem, hcredit⟩ := hevent
    have hentry := (List.of_mem_zip hmem).1
    rw [settledSignature_creditEvent hcredit] at hsignature
    obtain rfl := Option.some.inj hsignature
    -- the reply is what was made of a response to the query of the signature
    have hyields : responses.yields (RpcResponse.transaction? entry.1) fetched = true := by
      simp only [admits, hround, yieldsAll, Bool.and_eq_true, List.all_eq_true] at hadmits
      refine hadmits.2 (entry.1, fetched) ?_
      rw [List.zip_map_left]
      exact List.mem_map_of_mem hmem
    cases fetched with
    | none => cases hcredit
    | some fetched =>
        obtain ⟨message, hmessage, hattests⟩ := attests_of_yields hyields
        refine ⟨entry.2, message, fetched.status, (hcurrent _ hround).finalized _ hentry, hattests, ?_⟩
        rw [← hmessage]
        simp only [creditEvent] at hcredit
        split at hcredit
        case h_1 settled hsettle =>
          exact .inl ⟨settled, hsettle, (Option.some.inj hcredit).symm⟩
        case h_2 => cases hcredit
        case h_3 mismatch hsettle =>
          exact .inr ⟨mismatch, hsettle, (Option.some.inj hcredit).symm⟩
  case h_4 => cases hevent

end Rounds

section Message

variable {minterId : Principal} {args : InitArgs} {start : Timestamp}
  {done : List (Timestamp × Action)} (hdone : Config.runFrom minterId args start done = some config)
  (hadmits : admits config responses action = true) (hsteps : config.Steps now action config')

include hdone hadmits hsteps

theorem Grounds.minter_landed [TransactionSdk.Lawful] [SolanaSdk.Lawful] (h : responses.Grounds config) :
    responses.Landed config' := by
  intro submittedAt signature message signers burnIndices concludedAt payload hsubmitted hmem houtcome
  have hwellformed := Config.wellformed_of_run hdone
  have hhistory := OutcomeHistory.of_run hdone
  have hrun := hsteps.run hwellformed.replayable
  have hkind : payload.isFinalization := by rcases houtcome with rfl | rfl <;> rfl
  rcases hsteps.mem_log_finalization hwellformed.replayable hmem hkind with
    hold | ⟨round, reply, hround, rfl, hevent⟩
  · -- what has an outcome is not submitted again
    have hsubmitted := hrun.mem_log_of_isFinal (hhistory.concluded hold houtcome) hsubmitted
    obtain ⟨key, status, hkey, hrest⟩ := h.landed hsubmitted hold houtcome
    exact ⟨key, status, hrun.minterPublicKey hkey, hrest⟩
  · have hsubmitted := hrun.mem_log_of_not (fun _ _ hrecords => by cases hrecords) hsubmitted
    obtain ⟨status, hattests, hsucceeded⟩ := attests_of_mem_events hadmits hround hevent
      hwellformed (Config.finalizationCurrent_of_run hdone) hhistory houtcome hsubmitted
    obtain ⟨-, bindings, hsigns⟩ := Config.signs_of_run hdone
    obtain ⟨binding, -, -, key, hkey, hbuilds⟩ := hsigns.history.sent hsubmitted
    refine ⟨key, status, hrun.minterPublicKey hkey, hattests, hattests.verify ?_, hsucceeded⟩
    obtain ⟨-, rfl⟩ := buildBatchWithdrawalMessage_eq_ok.mp hbuilds
    exact SolanaSdk.Lawful.payer_first _ _ _

theorem Grounds.minter_checked (h : responses.Grounds config) :
    responses.Checked config' := by
  intro concludedAt payload signature hmem hsignature hother'
  obtain ⟨new, hlog, -⟩ := (hsteps.run (Config.wellformed_of_run hdone).replayable).log_append
  have hother : signature ∉ withdrawalSignatures config.canister.log := by
    rw [hlog, withdrawalSignatures, List.filterMap_append] at hother'
    exact fun hin => hother' (List.mem_append_left _ hin)
  have hkind : payload.isFinalization := by
    by_contra hkind
    rw [(payload.concludes_nothing (by simpa using hkind)).1] at hsignature
    cases hsignature
  rcases hsteps.mem_log_finalization (Config.wellformed_of_run hdone).replayable hmem hkind with
    hold | ⟨round, reply, hround, rfl, hevent⟩
  · exact h.checked hold hsignature hother
  · refine reports_of_mem_events hadmits hround hevent hsignature ?_
    rintro withdrawal hinFlight rfl
    obtain ⟨burnIndices, hrecorded⟩ := Config.submissionsRecorded_of_run hdone withdrawal
      ((Config.finalizationCurrent_of_run hdone _ hround).inFlight _ hinFlight)
    exact hother (List.mem_filterMap.mpr ⟨_, hrecorded, rfl⟩)

/-- A new settlement is that of a recorded sweep. -/
theorem settles_of_steps [TransactionSdk.Lawful]
    (hmem : ⟨timestamp, payload⟩ ∈ config'.canister.log)
    (hsignature : payload.settledSignature = some signature) :
    ⟨timestamp, payload⟩ ∈ config.canister.log ∨
      ∃ (sweep : Sweep) (message : TransactionMessage) (status : Option Sweep.TransactionStatusMeta),
        sweep.RecordedIn config.canister.log ∧ responses.Attests signature message status ∧
        ((∃ settled, sweep.settle ⟨message.fetched, status⟩ = .ok settled ∧
            payload = .creditedSweep signature settled.amountReceived settled.mints) ∨
          ∃ mismatch, sweep.settle ⟨message.fetched, status⟩ = .error (.mismatch mismatch) ∧
            payload = .quarantinedSweep signature) := by
  have hkind : payload.isFinalization := by
    by_contra hkind
    rw [(payload.concludes_nothing (by simpa using hkind)).2] at hsignature
    cases hsignature
  rcases hsteps.mem_log_finalization (Config.wellformed_of_run hdone).replayable hmem hkind with
    hold | ⟨round, reply, hround, rfl, hevent⟩
  · exact .inl hold
  · obtain ⟨sweep, message, status, hsweep, hrest⟩ := settles_of_mem_events hadmits hround hevent
      (Config.finalizationCurrent_of_run hdone) hsignature
    obtain ⟨view, hview⟩ := (Config.consistent_of_run hdone).deposits
    exact .inr ⟨sweep, message, status, hview.finalized hsweep, hrest⟩

theorem Grounds.minter_created [NonceCodec.Lawful] (h : responses.Grounds config) :
    responses.Created config' := by
  intro timestamp burnIndices account value hmem
  have hreplay := (Config.wellformed_of_run hdone).replayable
  have hrun := hsteps.run hreplay
  rcases hsteps.mem_log_created hreplay hmem with
    hold | ⟨address, batches, position, batch, reply, hround, rfl, hbatch, rfl, hread⟩
  · obtain ⟨key, hkey, hreads⟩ := h.created hold
    exact ⟨key, hrun.minterPublicKey hkey, hreads⟩
  · obtain ⟨-, bindings, hsigns⟩ := Config.signs_of_run hdone
    obtain ⟨key, hkey, rfl⟩ := hsigns.creating hround
    refine ⟨key, hrun.minterPublicKey hkey, reads_of_yields ?_⟩
    simp only [admits, hround, hbatch, Option.all_some] at hadmits
    unfold readVerifiedNonce at hread
    split at hread
    case h_2 => cases hread
    case h_1 stored =>
      obtain ⟨hauthority, hvalue⟩ := Option.ite_none_right_eq_some.mp hread
      rwa [← hauthority, ← Option.some.inj hvalue]

/-- A message of the minter adds nothing that the responses do not say. -/
theorem Grounds.minter [SolanaSdk.Lawful] [TransactionSdk.Lawful] [NonceCodec.Lawful]
    (h : responses.Grounds config) :
    responses.Grounds config' := by
  obtain ⟨new, hlog, -⟩ := (hsteps.run (Config.wellformed_of_run hdone).replayable).log_append
  have hrecorded {sweep : Sweep} (hrecorded : sweep.RecordedIn config.canister.log) :
      sweep.RecordedIn config'.canister.log := hlog ▸ hrecorded.append new
  constructor
  case landed => exact h.minter_landed hdone hadmits hsteps
  case checked => exact h.minter_checked hdone hadmits hsteps
  case credited =>
    intro timestamp signature amountReceived mints hmem
    rcases settles_of_steps hdone hadmits hsteps hmem rfl with
      hold | ⟨sweep, message, status, hold, hattests, ⟨settled, hsettle, heq⟩ | ⟨_, _, heq⟩⟩
    · obtain ⟨sweep, payer, blockhash, status, hold, hrest⟩ := h.credited hold
      exact ⟨sweep, payer, blockhash, status, hrecorded hold, hrest⟩
    · obtain ⟨-, rfl, rfl⟩ := EventType.creditedSweep.inj heq
      -- the settled message is that of the plan, whose payer is a depositor
      obtain ⟨-, -, built, hlegacy, hbuilt, status, rfl, -⟩ := Sweep.settle_eq_ok hsettle
      obtain rfl := TransactionMessage.eq_legacy_of_fetched hlegacy
      obtain ⟨deposits, minterAddress, hplan, -⟩ := id hold
      obtain ⟨payer, hpayer, hpays⟩ := Sweep.pays_sweepMessage hplan built.recentBlockhash
      rw [hbuilt] at hattests hsettle
      exact ⟨sweep, payer, built.recentBlockhash, status, hrecorded hold, hpayer, hattests,
        hattests.verify hpays.payer_first, hsettle⟩
    · cases heq
  case quarantined =>
    intro timestamp signature hmem
    rcases settles_of_steps hdone hadmits hsteps hmem rfl with
      hold | ⟨sweep, message, status, hold, hattests, ⟨_, _, heq⟩ | ⟨mismatch, hsettle, -⟩⟩
    · obtain ⟨sweep, message, status, mismatch, hold, hrest⟩ := h.quarantined hold
      exact ⟨sweep, message, status, mismatch, hrecorded hold, hrest⟩
    · cases heq
    · exact ⟨sweep, message, status, mismatch, hrecorded hold, hattests, hsettle⟩
  case created => exact h.minter_created hdone hadmits hsteps

end Message

/-- Whatever the SOL RPC canister answers and in whatever order, what the minter records about the chain
comes from responses on which the providers agree, and outcomes and credits from transactions that
their signatures are attributed to. -/
theorem grounds_of_run [SolanaSdk.Lawful] [TransactionSdk.Lawful] [NonceCodec.Lawful]
    {minterId : Principal} {args : InitArgs} {start : Timestamp}
    {actions : List (Timestamp × CompanionAction RpcResponse)}
    (h : companion.runFrom [] minterId args start actions = some (config, responses)) :
    responses.Grounds config := by
  refine (Companion.runFrom_induction (fun config responses => Grounds responses config) ?_ ?_ ?_ h).1
  · intro config hinit
    simp only [Config.init, Canister.init, bind_eq_ok, pure_eq_ok] at hinit
    obtain ⟨canister, ⟨state, -, rfl⟩, rfl⟩ := hinit
    constructor
    case landed =>
      intro _ _ _ _ _ _ _ hsubmitted
      cases List.mem_singleton.mp hsubmitted
    case checked =>
      intro _ _ _ hmem hsignature
      obtain ⟨-, rfl⟩ := Event.mk.inj (List.mem_singleton.mp hmem)
      cases hsignature
    case quarantined =>
      intro _ _ hmem
      cases List.mem_singleton.mp hmem
    case credited | created =>
      intro _ _ _ _ hmem
      cases List.mem_singleton.mp hmem
  · intro done config responses t action config' hdone hgrounds hadmits hstep
    exact hgrounds.minter hdone hadmits (Config.steps_of_step hstep)
  · intro done config responses t response responses' _ hgrounds hmove
    obtain rfl := Option.some.inj hmove
    exact hgrounds.mono (List.subset_append_left _ _)

end Responses

end Grounds

section Sample

attribute [local instance] Solana.sdk

/-- The transactions of a sample chain, a sweep and a withdrawal. -/
@[reducible]
def sampleTransactions : TransactionSdk where
  decode
    | "sweep" => some ⟨[5], .legacy sampleSweepMessage⟩
    | "withdrawal" => some ⟨[6], .legacy (SolanaSdk.newWithBlockhash
        (batchWithdrawalInstructions Solana.productionKey 4 [(5, 1_995_000)])
        (some Solana.productionKey) 77)⟩
    | _ => none
  verify signature key _ :=
    (signature, key) ∈ [(5, sampleDepositAddress), (6, Solana.productionKey)]
  verifyWithResults transaction := List.zipWith
    (fun signature key => (signature, key) ∈ [(5, sampleDepositAddress), (6, Solana.productionKey)])
    transaction.signatures transaction.message.staticAccountKeys
  hashFromStr text := if text = "100" then .ok 100 else .error "not a hash"

attribute [local instance] sampleTransactions Solana.nonceCodec Solana.lawful_nonceCodec

theorem lawful_sampleTransactions : TransactionSdk.Lawful where
  verifyWithResults_eq _ := rfl

attribute [local instance] lawful_sampleTransactions

def sampleResponses : Responses :=
  let nonceAccount (value : Hash) : UiAccount := ⟨SolanaSdk.addressToString SolanaSdk.systemProgramId,
    false, some (Solana.writeNonceVersions (.current (.initialized
      ⟨⟨Solana.productionKey, value⟩, 5_000⟩)))⟩
  [.balance sampleDepositAddress (.ok (.consistent (.ok 30_000_000))),
    .recentBlock (.ok (1, ⟨"100", some 1000⟩)), .recentBlock (.ok (2, ⟨"100", some 1001⟩)),
    .signatureStatuses [5] (.ok (.consistent (.ok [some ⟨true, none⟩]))),
    .transaction 5 (.ok (.consistent (.ok (some ⟨"sweep", some
      ⟨none, 5_000, [30_000_000, 0, 1], [890_880, 29_104_120, 1]⟩⟩)))),
    .nonceAccount 4 (.ok (.consistent (.ok (some (nonceAccount 77))))),
    .nonceAccount 4 (.ok (.consistent (.ok (some (nonceAccount 78))))),
    .transaction 6 (.ok .inconsistent),
    .transaction 6 (.ok (.consistent (.ok (some ⟨"withdrawal", some ⟨none, 5_000, [], []⟩⟩))))]

/-- A deposit is credited and a withdrawal lands. -/
def sampleAttribution : List (Timestamp × CompanionAction RpcResponse) :=
  let landed : Sweep.FetchedTransaction := ⟨.legacy (SolanaSdk.newWithBlockhash
    (batchWithdrawalInstructions Solana.productionKey 4 [(5, 1_995_000)])
    (some Solana.productionKey) 77), some ⟨none, 5_000, [], []⟩⟩
  let actions := sampleManualDeposit ++
    [(24, .withdrawals .requestSignatures), (25, .withdrawals (.signed 0 (some 6))),
      (26, .withdrawals .finish), (40, .finalization .start),
      (41, .finalization (.nonceRead 0 (some ⟨Solana.productionKey, 78⟩))),
      (42, .finalization .fetchLanded), (43, .finalization (.landed 0 (some landed)))]
  sampleResponses.map (fun response => (0, .move response)) ++
    actions.map fun entry => (entry.1, .minter entry.2)

theorem Responses.grounds_sampleAttribution :
    ∃ config responses, companion.runFrom [] sampleMinterId sampleInitArgs 0 sampleAttribution =
        some (config, responses) ∧
      config.canister.state.succeededTransactions.toList = [5, 6] ∧ responses.Grounds config := by
  obtain ⟨⟨config, responses⟩, hpair, htest⟩ : ∃ pair,
      companion.runFrom [] sampleMinterId sampleInitArgs 0 sampleAttribution = some pair ∧
      pair.1.canister.state.succeededTransactions.toList = [5, 6] :=
    exists_of_any (by decide +kernel)
  have := Solana.lawful_sdk
  exact ⟨config, responses, hpair, htest, grounds_of_run hpair⟩

end Sample

end Cksol
