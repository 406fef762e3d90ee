import Cksol.Minter.System
import Cksol.State.Replay

/-! # What a message does

For each task, the cases of its messages: the round before and after, the event that is recorded and
what was checked for it. Invariants of runs are proved by cases on these relations.
-/

namespace Cksol

variable [SolanaSdk] {canister : Canister}

/-! ## Withdrawal processing -/

/-- The messages of a round of `process_pending_withdrawals`. -/
inductive WithdrawalRound.Steps (canister : Canister) (now : Timestamp) :
    Option WithdrawalRound → WithdrawalAction → WithdrawalStep → Prop
  | start {key : SchnorrPublicKey} {started : Canister}
      (hstart : canister.startTask .withdrawalProcessing = some started)
      (hkey : canister.state.minterPublicKey = some key) :
      Steps canister now none .start
        (started, some (.creating (minterAddress key) canister.state.reservedBatches), [])
  | skipped {minterAddress : Address} {batches : List ReservedBatch} {position : ℕ}
      {reply : Option NonceAccountData} :
      Steps canister now (some (.creating minterAddress batches)) (.nonceRead position reply)
        (canister, some (.creating minterAddress (batches.eraseIdx position)), [])
  | created {minterAddress : Address} {batches : List ReservedBatch} {batch : ReservedBatch}
      {position : ℕ} {reply : Option NonceAccountData} {nonceValue : Hash} {message : Message}
      {canister' : Canister}
      (hbatch : batches[position]? = some batch)
      (hread : readVerifiedNonce reply minterAddress = some nonceValue)
      (hunseen : ¬ canister.state.noncePool.hasSeen batch.nonceAccount nonceValue)
      (hbuild : buildBatchWithdrawalMessage minterAddress batch.nonceAccount nonceValue
        (State.withdrawalTransfers batch.requests) = .ok message)
      (hevent : canister.processEvent (.createdWithdrawalTransaction
        (batch.requests.map WithdrawalRequest.burnBlockIndex) batch.nonceAccount nonceValue) now =
          .ok canister') :
      Steps canister now (some (.creating minterAddress batches)) (.nonceRead position reply)
        (canister', some (.creating minterAddress (batches.eraseIdx position)), [])
  | requested {minterAddress : Address} {withdrawals : List BoundWithdrawal}
      (hbound : boundWithdrawals canister.state minterAddress = .ok withdrawals) :
      Steps canister now (some (.creating minterAddress [])) .requestSignatures
        (canister, some (.signing withdrawals), withdrawals)
  | notSigned {withdrawals : List BoundWithdrawal} {position : ℕ} :
      Steps canister now (some (.signing withdrawals)) (.signed position none)
        (canister, some (.signing (withdrawals.eraseIdx position)), [])
  | signed {withdrawals : List BoundWithdrawal} {withdrawal : BoundWithdrawal} {position : ℕ}
      {signature : Signature} {canister' : Canister}
      (hwithdrawal : withdrawals[position]? = some withdrawal)
      (hevent : canister.processEvent (.submittedTransaction signature withdrawal.message [.minter]
        (.withdrawal withdrawal.burnIndices)) now = .ok canister') :
      Steps canister now (some (.signing withdrawals)) (.signed position (some signature))
        (canister', some (.signing (withdrawals.eraseIdx position)), [])
  | ended {round : WithdrawalRound} {action : WithdrawalAction} :
      Steps canister now (some round) action (WithdrawalRound.ended canister)

theorem createTransaction_eq_ok {canister canister' : Canister} {minterAddress : Address}
    {batch : ReservedBatch} {reply : Option NonceAccountData} {now : Timestamp} {created : Bool}
    (h : createTransaction canister minterAddress batch reply now = .ok (canister', created)) :
    canister' = canister ∨ ∃ nonceValue message,
      readVerifiedNonce reply minterAddress = some nonceValue ∧
      ¬ canister.state.noncePool.hasSeen batch.nonceAccount nonceValue ∧
      buildBatchWithdrawalMessage minterAddress batch.nonceAccount nonceValue
        (State.withdrawalTransfers batch.requests) = .ok message ∧
      canister.processEvent (.createdWithdrawalTransaction
        (batch.requests.map WithdrawalRequest.burnBlockIndex) batch.nonceAccount nonceValue) now =
          .ok canister' := by
  unfold createTransaction at h
  split at h
  case h_1 => exact .inl (Prod.mk.inj (Except.ok.inj h)).1.symm
  case h_2 nonceValue hread =>
    split at h
    case isTrue => exact .inl (Prod.mk.inj (Except.ok.inj h)).1.symm
    case isFalse hunseen =>
      dsimp only at h
      split at h
      case h_1 => exact .inl (Prod.mk.inj (Except.ok.inj h)).1.symm
      case h_2 message hbuild =>
        simp only [bind_eq_ok, pure_eq_ok, Prod.mk.injEq] at h
        obtain ⟨canister'', hevent, rfl, -⟩ := h
        exact .inr ⟨nonceValue, message, hread, hunseen, hbuild, hevent⟩

/-- A step of the round is one of its messages. -/
theorem WithdrawalRound.steps_of_step {round : Option WithdrawalRound} {now : Timestamp}
    {action : WithdrawalAction} {result : WithdrawalStep}
    (h : WithdrawalRound.step canister round now action = some result) :
    WithdrawalRound.Steps canister now round action result := by
  unfold WithdrawalRound.step at h
  split at h
  case h_1 =>
    simp only [Option.bind_eq_bind, Option.bind_eq_some_iff] at h
    obtain ⟨started, hstart, key, hkey, h⟩ := h
    obtain rfl := Option.some.inj h
    have hsame : started.state.reservedBatches = canister.state.reservedBatches ∧
        started.state.minterPublicKey = canister.state.minterPublicKey := by
      unfold Canister.startTask at hstart
      split at hstart
      · cases hstart
      · obtain rfl := Option.some.inj hstart
        exact ⟨rfl, rfl⟩
    rw [hsame.1]
    exact .start hstart (hsame.2 ▸ hkey)
  case h_2 position reply minterAddress batches =>
    simp only [Option.bind_eq_bind, Option.bind_eq_some_iff] at h
    obtain ⟨batch, hbatch, h⟩ := h
    rcases orTrap_cases (Option.some.inj h) with ⟨⟨canister', created⟩, hcreate, rfl⟩ | rfl
    · rcases createTransaction_eq_ok hcreate with rfl | ⟨value, message, hread, hunseen, hbuild, hevent⟩
      · exact .skipped
      · exact .created hbatch hread hunseen hbuild hevent
    · exact .ended
  case h_3 minterAddress =>
    rcases orTrap_cases (Option.some.inj h) with ⟨withdrawals, hbound, rfl⟩ | rfl
    · exact .requested hbound
    · exact .ended
  case h_4 position reply withdrawals =>
    simp only [Option.bind_eq_bind, Option.bind_eq_some_iff] at h
    obtain ⟨withdrawal, hwithdrawal, h⟩ := h
    rcases orTrap_cases (Option.some.inj h) with ⟨canister', hsign, rfl⟩ | rfl
    · cases reply with
      | none =>
          obtain rfl := Except.ok.inj hsign
          exact .notSigned
      | some signature => exact .signed hwithdrawal hsign
    · exact .ended
  case h_5 =>
    obtain rfl := Option.some.inj h
    exact .ended
  case h_6 =>
    obtain rfl := Option.some.inj h
    exact .ended
  case h_7 => cases h

/-! ## Finalization -/

/-- The messages of a round of `finalize_transactions`. -/
inductive FinalizeRound.Steps (canister : Canister) (now : Timestamp) :
    Option FinalizeRound → FinalizeAction → FinalizeStep → Prop
  | startReading {started : Canister}
      (hstart : canister.startTask .finalizeTransactions = some started) :
      Steps canister now none .start (started, some (readInFlightNonces canister.state))
  | startChecking {started : Canister}
      (hstart : canister.startTask .finalizeTransactions = some started) :
      Steps canister now none .start
        (started, some (.fetchingBlock canister.state.blockhashTransactions))
  | block {transactions : OrdMap Signature BlockHeight} {reply : Option BlockHeight} :
      Steps canister now (some (.fetchingBlock transactions)) (.block reply)
        (canister, some (.checkingStatuses transactions reply))
  | checked {transactions : OrdMap Signature BlockHeight} {currentBlockHeight : Option BlockHeight}
      {replies : List (Option (List (Option SignatureStatus)))} {canister' : Canister}
      (hevents : canister.processEvents (sweepStatusEvents transactions currentBlockHeight replies)
        now = .ok canister') :
      Steps canister now (some (.checkingStatuses transactions currentBlockHeight))
        (.statuses replies) (canister', some (readInFlightNonces canister'.state))
  | nonceRead {minterAddress : Address} {withdrawals unchanged advanced : List InFlightWithdrawal}
      {withdrawal : InFlightWithdrawal} {position : ℕ} {reply : Option NonceAccountData}
      (hwithdrawal : withdrawals[position]? = some withdrawal) :
      Steps canister now (some (.readingNonces minterAddress withdrawals unchanged advanced))
        (.nonceRead position reply)
        (canister, some (noteNonceRead minterAddress (withdrawals.eraseIdx position) unchanged
          advanced withdrawal (readNonce canister.state withdrawal reply minterAddress)))
  | fetchLanded {minterAddress : Address} {unchanged advanced : List InFlightWithdrawal} :
      Steps canister now (some (.readingNonces minterAddress [] unchanged advanced)) .fetchLanded
        (canister, some (.finalizing advanced))
  | undecided {withdrawals : List InFlightWithdrawal} {position : ℕ}
      {reply : Option Sweep.FetchedTransaction} :
      Steps canister now (some (.finalizing withdrawals)) (.landed position reply)
        (canister, some (.finalizing (withdrawals.eraseIdx position)))
  | landed {withdrawals : List InFlightWithdrawal} {withdrawal : InFlightWithdrawal} {position : ℕ}
      {reply : Option Sweep.FetchedTransaction} {payload : EventType} {canister' : Canister}
      (hwithdrawal : withdrawals[position]? = some withdrawal)
      (hpayload : landedWithdrawalEvent withdrawal reply = some payload)
      (hevent : canister.processEvent payload now = .ok canister') :
      Steps canister now (some (.finalizing withdrawals)) (.landed position reply)
        (canister', some (.finalizing (withdrawals.eraseIdx position)))
  | fetchFinalized :
      Steps canister now (some (.finalizing [])) .fetchFinalized
        (canister, some (.crediting canister.state.sweepsToCredit))
  | credited {sweeps : List (Signature × Sweep)} {replies : List (Option Sweep.FetchedTransaction)}
      {canister' : Canister}
      (hevents : canister.processEvents (creditEvents sweeps replies) now = .ok canister') :
      Steps canister now (some (.crediting sweeps)) (.finalized replies)
        (FinalizeRound.ended canister')
  | ended {round : FinalizeRound} {action : FinalizeAction} :
      Steps canister now (some round) action (FinalizeRound.ended canister)

/-- A step of the round is one of its messages. -/
theorem FinalizeRound.steps_of_step {round : Option FinalizeRound} {now : Timestamp}
    {action : FinalizeAction} {result : FinalizeStep}
    (h : FinalizeRound.step canister round now action = some result) :
    FinalizeRound.Steps canister now round action result := by
  unfold FinalizeRound.step at h
  split at h
  case h_1 =>
    simp only [Option.bind_eq_bind, Option.bind_eq_some_iff] at h
    obtain ⟨started, hstart, h⟩ := h
    have hstarted := Canister.startTask_eq_some hstart
    split at h
    · obtain rfl := Option.some.inj h
      have hsame : readInFlightNonces started.state = readInFlightNonces canister.state := by
        rw [hstarted]
        rfl
      rw [hsame]
      exact .startReading hstart
    · obtain rfl := Option.some.inj h
      have hsame : started.state.blockhashTransactions = canister.state.blockhashTransactions := by
        rw [hstarted]
        rfl
      rw [hsame]
      exact .startChecking hstart
  case h_2 =>
    obtain rfl := Option.some.inj h
    exact .block
  case h_3 =>
    rcases orTrap_cases (Option.some.inj h) with ⟨canister', hevents, rfl⟩ | rfl
    · exact .checked hevents
    · exact .ended
  case h_4 =>
    simp only [Option.bind_eq_bind, Option.bind_eq_some_iff] at h
    obtain ⟨withdrawal, hwithdrawal, h⟩ := h
    obtain rfl := Option.some.inj h
    exact .nonceRead hwithdrawal
  case h_5 =>
    obtain rfl := Option.some.inj h
    exact .fetchLanded
  case h_6 =>
    simp only [Option.bind_eq_bind, Option.bind_eq_some_iff] at h
    obtain ⟨withdrawal, hwithdrawal, h⟩ := h
    rcases orTrap_cases (Option.some.inj h) with ⟨canister', hevents, rfl⟩ | rfl
    · cases hpayload : landedWithdrawalEvent withdrawal _ with
      | none =>
          rw [hpayload] at hevents
          obtain rfl := Except.ok.inj hevents
          exact .undecided
      | some payload =>
          rw [hpayload] at hevents
          simp only [Canister.processEvents, Option.toList_some, List.foldlM_cons, List.foldlM_nil,
            bind_pure] at hevents
          exact .landed hwithdrawal hpayload hevents
    · exact .ended
  case h_7 =>
    obtain rfl := Option.some.inj h
    exact .fetchFinalized
  case h_8 =>
    rcases orTrap_cases (Option.some.inj h) with ⟨canister', hevents, rfl⟩ | rfl
    · exact .credited hevents
    · exact .ended
  case h_9 =>
    obtain rfl := Option.some.inj h
    exact .ended
  case h_10 => cases h

/-! ## Sweeps -/

/-- The messages of a round of `sweep_queued_deposits`. -/
inductive SweepRound.Steps (canister : Canister) (now : Timestamp) :
    Option SweepRound → SweepAction → SweepStep → Prop
  | start {key : SchnorrPublicKey} {started : Canister}
      (hstart : canister.startTask .sweepDeposits = some started)
      (hkey : canister.state.minterPublicKey = some key) :
      Steps canister now none .start
        (started, some (.fetchingBlock (sweepBatches canister.state) (minterAddress key)), [])
  | planned {batches : List (List (DepositSolId × QueuedDeposit))} {sweepDestination : Address}
      {block : Block} {planned : List PlannedSweep}
      (hplanned : planSweeps batches block sweepDestination = .ok planned) :
      Steps canister now (some (.fetchingBlock batches sweepDestination)) (.block (some block))
        (canister, some (.signing planned), planned)
  | notSigned {planned : List PlannedSweep} {position : ℕ} :
      Steps canister now (some (.signing planned)) (.signed position none)
        (canister, some (.signing (planned.eraseIdx position)), [])
  | signed {planned : List PlannedSweep} {sweep : PlannedSweep} {position : ℕ}
      {signature : Signature} {canister' : Canister}
      (hsweep : planned[position]? = some sweep)
      (hevent : canister.processEvent (.submittedTransaction signature sweep.message sweep.signers
        (.sweepDeposit sweep.sweep.deposits.keys sweep.blockHeight)) now = .ok canister') :
      Steps canister now (some (.signing planned)) (.signed position (some signature))
        (canister', some (.signing (planned.eraseIdx position)), [])
  | ended {round : SweepRound} {action : SweepAction} :
      Steps canister now (some round) action (SweepRound.ended canister)

/-- A step of the round is one of its messages. -/
theorem SweepRound.steps_of_step {round : Option SweepRound} {now : Timestamp}
    {action : SweepAction} {result : SweepStep}
    (h : SweepRound.step canister round now action = some result) :
    SweepRound.Steps canister now round action result := by
  unfold SweepRound.step at h
  split at h
  case h_1 =>
    simp only [Option.bind_eq_bind, Option.bind_eq_some_iff] at h
    obtain ⟨started, hstart, key, hkey, h⟩ := h
    have hstarted := Canister.startTask_eq_some hstart
    split at h
    · cases h
    · obtain rfl := Option.some.inj h
      have hsame : sweepBatches started.state = sweepBatches canister.state ∧
          started.state.minterPublicKey = canister.state.minterPublicKey := by
        rw [hstarted]
        exact ⟨rfl, rfl⟩
      rw [hsame.1]
      exact .start hstart (hsame.2 ▸ hkey)
  case h_2 =>
    obtain rfl := Option.some.inj h
    exact .ended
  case h_3 =>
    rcases orTrap_cases (Option.some.inj h) with ⟨planned, hplanned, rfl⟩ | rfl
    · exact .planned hplanned
    · exact .ended
  case h_4 position reply planned =>
    simp only [Option.bind_eq_bind, Option.bind_eq_some_iff] at h
    obtain ⟨sweep, hsweep, h⟩ := h
    rcases orTrap_cases (Option.some.inj h) with ⟨canister', hrecord, rfl⟩ | rfl
    · cases reply with
      | none =>
          obtain rfl := Except.ok.inj hrecord
          exact .notSigned
      | some signature => exact .signed hsweep hrecord
    · exact .ended
  case h_5 =>
    obtain rfl := Option.some.inj h
    exact .ended
  case h_6 =>
    obtain rfl := Option.some.inj h
    exact .ended
  case h_7 => cases h

/-! ## Mints -/

/-- The block of the mint that a reply reports, made by this call or by an earlier one. -/
def TransferReply.mintBlock : TransferReply → Option ℕ
  | .blockIndex block | .error (.duplicate block) => some block
  | _ => none

/-- The messages of a round of `process_pending_mints`. -/
inductive MintRound.Steps (canister : Canister) (calls : ℕ) (now : Timestamp) :
    Option MintRound → MintAction → MintStep → Prop
  | start {started : Canister} (hstart : canister.startTask .mint = some started) :
      Steps canister calls now none .start
        (started, some ⟨mintRoundNext canister.state, none⟩, [])
  | expired {depositId : DepositSolId} {pending : PendingMint}
      {remaining : List (DepositSolId × PendingMint)} {canister' : Canister}
      (hexpired : isBeyondDeduplicationWindow pending now)
      (hevent : canister.processEvent (.quarantinedPendingMint depositId) now = .ok canister') :
      Steps canister calls now (some ⟨(depositId, pending) :: remaining, none⟩) .next
        (canister', some ⟨remaining, none⟩, [])
  | called {depositId : DepositSolId} {pending : PendingMint}
      {remaining : List (DepositSolId × PendingMint)}
      (hlive : ¬ isBeyondDeduplicationWindow pending now) :
      Steps canister calls now (some ⟨(depositId, pending) :: remaining, none⟩) .next
        (canister, some ⟨remaining, some ⟨depositId, pending, calls⟩⟩,
          [mintTransferArg depositId pending])
  | minted {remaining : List (DepositSolId × PendingMint)} {call : MintCall}
      {reply : TransferReply} {blockIndex : ℕ} {canister' : Canister}
      (hreply : reply.mintBlock = some blockIndex) (hindex : blockIndex < 2 ^ 64)
      (hevent : canister.processEvent (.mintedSweptDeposit call.depositId blockIndex) now =
        .ok canister') :
      Steps canister calls now (some ⟨remaining, some call⟩) (.reply reply)
        (canister', some ⟨remaining, none⟩, [])
  | rejected {remaining : List (DepositSolId × PendingMint)} {call : MintCall}
      {reply : TransferReply} {canister' : Canister} (hreply : reply.mintBlock = none)
      (hevent : canister.processEvent (.quarantinedPendingMint call.depositId) now = .ok canister') :
      Steps canister calls now (some ⟨remaining, some call⟩) (.reply reply)
        (canister', some ⟨remaining, none⟩, [])
  | retried {remaining : List (DepositSolId × PendingMint)} {call : MintCall}
      {reply : TransferReply} (hreply : reply.mintBlock = none) :
      Steps canister calls now (some ⟨remaining, some call⟩) (.reply reply)
        (canister, some ⟨remaining, none⟩, [])
  | quarantinedOnTrap {remaining : List (DepositSolId × PendingMint)} {call : MintCall}
      {action : MintAction} {canister' : Canister}
      (hevent : canister.processEvent (.quarantinedPendingMint call.depositId) now = .ok canister') :
      Steps canister calls now (some ⟨remaining, some call⟩) action (MintRound.ended canister')
  | stuck {remaining : List (DepositSolId × PendingMint)} {call : MintCall} {action : MintAction} :
      Steps canister calls now (some ⟨remaining, some call⟩) action (canister, none, [])
  | ended {remaining : List (DepositSolId × PendingMint)} {action : MintAction} :
      Steps canister calls now (some ⟨remaining, none⟩) action (MintRound.ended canister)

/-- What a trap with a call in flight leaves. -/
theorem MintRound.steps_trapped {calls : ℕ} {now : Timestamp}
    {remaining : List (DepositSolId × PendingMint)} {call : MintCall} {action : MintAction} :
    MintRound.Steps canister calls now (some ⟨remaining, some call⟩) action
      (MintRound.trapped canister (some call) now) := by
  obtain ⟨outcome, houtcome⟩ : ∃ outcome, MintRound.trapped canister (some call) now = outcome :=
    ⟨_, rfl⟩
  rw [houtcome]
  rcases orTrap_cases houtcome with ⟨canister', hevent, heq⟩ | heq
  · rw [← heq]
    exact .quarantinedOnTrap hevent
  · rw [heq]
    exact .stuck

/-- A step of the round is one of its messages. -/
theorem MintRound.steps_of_step {round : Option MintRound} {calls : ℕ} {now : Timestamp}
    {action : MintAction} {result : MintStep}
    (h : MintRound.step canister round calls now action = some result) :
    MintRound.Steps canister calls now round action result := by
  unfold MintRound.step at h
  split at h
  case h_1 =>
    simp only [Option.bind_eq_bind, Option.bind_eq_some_iff] at h
    obtain ⟨started, hstart, h⟩ := h
    have hstarted := Canister.startTask_eq_some hstart
    split at h
    · cases h
    · obtain rfl := Option.some.inj h
      have hsame : mintRoundNext started.state = mintRoundNext canister.state := by
        rw [hstarted]
        rfl
      rw [hsame]
      exact .start hstart
  case h_2 depositId pending remaining =>
    rcases orTrap_cases (Option.some.inj h) with ⟨started, hstarted, rfl⟩ | rfl
    · unfold startPendingMint at hstarted
      split at hstarted
      case isTrue hexpired =>
        simp only [bind_eq_ok, pure_eq_ok] at hstarted
        obtain ⟨canister', hevent, rfl⟩ := hstarted
        exact .expired hexpired hevent
      case isFalse hlive =>
        obtain rfl := Except.ok.inj hstarted
        exact .called hlive
    · exact .ended
  case h_3 reply remaining call =>
    rcases orTrap_cases (Option.some.inj h) with ⟨canister', hfinish, rfl⟩ | rfl
    · unfold finishPendingMint at hfinish
      split at hfinish
      case h_1 | h_2 =>
        simp only [bind_eq_ok, toLedgerMintIndex] at hfinish
        obtain ⟨index, hindex, hevent⟩ := hfinish
        split at hindex
        case isTrue hlt =>
          obtain rfl := Except.ok.inj hindex
          exact .minted rfl hlt hevent
        case isFalse => cases hindex
      case h_3 | h_4 | h_5 | h_6 => exact .rejected rfl hfinish
      all_goals
        obtain rfl := Except.ok.inj hfinish
        exact .retried rfl
    · exact MintRound.steps_trapped
  case h_4 =>
    obtain rfl := Option.some.inj h
    exact .ended
  case h_5 remaining inFlight =>
    obtain rfl := Option.some.inj h
    cases inFlight with
    | none => exact .ended
    | some call => exact MintRound.steps_trapped
  case h_6 => cases h

/-! ## The minter -/

/-- The messages that start or end a call of `deposit_sol`. -/
def Action.isDepositCall : Action → Bool
  | .depositSol .. | .balance .. | .depositSolTrap _ => true
  | _ => false

/-- The messages of the minter. -/
inductive Config.Steps (config : Config) (now : Timestamp) : Action → Config → Prop
  | unchanged {action : Action} : Steps config now action config
  | withdrawStarted {account : Account} {amountToBurn : Lamport} {address : String}
      {canister : Canister} {call : WithdrawCall}
      (hwithdraw : withdraw config.canister account amountToBurn address = .ok (canister, call)) :
      Steps config now (.withdraw account amountToBurn address)
        { config with canister, withdrawCalls := config.withdrawCalls ++ [call] }
  | burned {position blockIndex : ℕ} {call : WithdrawCall} {amountToTransfer : Lamport}
      {canister : Canister}
      (hcall : config.withdrawCalls[position]? = some call) (hindex : blockIndex < 2 ^ 64)
      (hamount : checkedSub call.amountToBurn config.canister.state.withdrawalFee =
        some amountToTransfer)
      (hevent : config.canister.processEvent (.acceptedWithdrawalRequest
        ⟨call.account, call.solanaAddress, blockIndex, call.amountToBurn, amountToTransfer⟩) now =
          .ok canister) :
      Steps config now (.burned position (.blockIndex blockIndex)) { config with
        canister := canister.dropWithdrawalGuard call.account
        withdrawCalls := config.withdrawCalls.eraseIdx position }
  | withdrawEnded {action : Action} {position : ℕ} {account : Account} :
      Steps config now action { config with
        canister := config.canister.dropWithdrawalGuard account
        withdrawCalls := config.withdrawCalls.eraseIdx position }
  | depositSolStarted {account : Account} {availableCycles : ℕ} {canister : Canister}
      {call : DepositSolCall}
      (hdeposit : depositSol config.canister config.minterId account availableCycles =
        .ok (.awaitsBalance canister call)) :
      Steps config now (.depositSol account availableCycles)
        { config with canister, depositSolCalls := config.depositSolCalls ++ [call] }
  | deposited {position refundedCycles acceptedCycles : ℕ} {balance : DepositBalance}
      {call : DepositSolCall} {canister : Canister}
      (hcall : config.depositSolCalls[position]? = some call)
      (hbalance : call.minimumDepositAmount ≤ balance.lamports)
      (hevent : config.canister.processEvent (.queuedDeposit config.canister.state.deposits.nextId
        ⟨call.account, call.address, balance, none⟩) now = .ok canister) :
      Steps config now (.balance position (.balance balance.lamports) refundedCycles acceptedCycles)
        { config with
          canister := canister.dropDepositSolGuard call.account
          depositSolCalls := config.depositSolCalls.eraseIdx position }
  | depositSolEnded {action : Action} {position : ℕ} {account : Account}
      (hcall : action.isDepositCall = true) :
      Steps config now action { config with
        canister := config.canister.dropDepositSolGuard account
        depositSolCalls := config.depositSolCalls.eraseIdx position }
  | watched {account : Account} {watchlist : Watchlist} :
      Steps config now (.watchDepositAddress account) { config with
        canister := config.canister.updateTransient fun transient => { transient with watchlist } }
  | queued {deposit : QueuedDeposit} {canister : Canister}
      (hevent : config.canister.processEvent
        (.queuedDeposit config.canister.state.deposits.nextId deposit) now = .ok canister) :
      Steps config now (.queueDeposit deposit) { config with canister }
  | keyFetched {key : SchnorrPublicKey} {canister : Canister}
      (hnone : config.canister.state.minterPublicKey = none)
      (hevent : config.canister.processEvent (.minterPublicKeyFetched key) now = .ok canister) :
      Steps config now (.publicKey key) { config with canister }
  | withdrawals {action : WithdrawalAction} {canister : Canister} {round : Option WithdrawalRound}
      {requested : List BoundWithdrawal}
      (hsteps : WithdrawalRound.Steps config.canister now config.withdrawals action
        (canister, round, requested)) :
      Steps config now (.withdrawals action) { config with
        canister
        withdrawals := round
        signRequests := config.signRequests ++ requested.map .withdrawal }
  | finalization {action : FinalizeAction} {canister : Canister} {round : Option FinalizeRound}
      (hsteps : FinalizeRound.Steps config.canister now config.finalization action
        (canister, round)) :
      Steps config now (.finalization action) { config with canister, finalization := round }
  | sweeps {action : SweepAction} {canister : Canister} {round : Option SweepRound}
      {planned : List PlannedSweep}
      (hsteps : SweepRound.Steps config.canister now config.sweeps action
        (canister, round, planned)) :
      Steps config now (.sweeps action) { config with
        canister
        sweeps := round
        signRequests := config.signRequests ++ planned.flatMap SignRequest.ofSweep }
  | mints {action : MintAction} {canister : Canister} {round : Option MintRound}
      {transfers : List TransferArg}
      (hsteps : MintRound.Steps config.canister config.transfers.length now config.mints action
        (canister, round, transfers)) :
      Steps config now (.mints action)
        { config with canister, mints := round, transfers := config.transfers ++ transfers }
  | upgraded {args : Option UpgradeArgs} {canister : Canister}
      (hupgrade : config.canister.postUpgrade args now = .ok canister) :
      Steps config now (.upgrade args)
        (idle config.minterId canister config.signRequests config.transfers)

namespace Config

variable {config config' : Config} {now : Timestamp}

/-- The reply to a burn. -/
theorem steps_of_burned {position : ℕ} {reply : BurnReply}
    (h : config.step now (.burned position reply) = some config') :
    config.Steps now (.burned position reply) config' := by
  simp only [step, Option.bind_eq_bind, Option.bind_eq_some_iff] at h
  obtain ⟨call, hcall, h⟩ := h
  obtain rfl := Option.some.inj h
  cases hresult : withdrawBurned config.canister call reply now with
  | error panic => exact .withdrawEnded
  | ok result =>
      simp only [withdrawBurned, bind_eq_ok] at hresult
      obtain ⟨burnResult, hburn, hresult⟩ := hresult
      cases burnResult with
      | error error =>
          simp only [pure_eq_ok] at hresult
          obtain rfl := hresult
          exact .withdrawEnded
      | ok blockIndex =>
          simp only [bind_eq_ok, orPanic_eq_ok, pure_eq_ok] at hresult
          obtain ⟨amountToTransfer, hamount, canister, hevent, rfl⟩ := hresult
          cases reply with
          | blockIndex replied =>
              simp only [burn, bind_eq_ok, pure_eq_ok, toU64] at hburn
              obtain ⟨index, hindex, hburn⟩ := hburn
              obtain rfl := Except.ok.inj hburn
              split at hindex
              case isTrue hlt => exact .burned hcall hlt hamount hevent
              case isFalse => cases hindex
          | error error =>
              simp only [burn, bind_eq_ok, pure_eq_ok] at hburn
              obtain ⟨_, -, hburn⟩ := hburn
              cases hburn
          | callError error => cases Except.ok.inj hburn

/-- The reply to the balance query of a call. -/
theorem steps_of_balance {position refundedCycles acceptedCycles : ℕ} {reply : BalanceReply}
    (h : config.step now (.balance position reply refundedCycles acceptedCycles) = some config') :
    config.Steps now (.balance position reply refundedCycles acceptedCycles) config' := by
  simp only [step, Option.bind_eq_bind, Option.bind_eq_some_iff] at h
  obtain ⟨call, hcall, h⟩ := h
  obtain rfl := Option.some.inj h
  cases hresult : depositSolBalance config.canister call reply refundedCycles acceptedCycles now with
  | error panic => exact .depositSolEnded rfl
  | ok result =>
      simp only [depositSolBalance, bind_eq_ok] at hresult
      obtain ⟨⟨⟩, -, hresult⟩ := hresult
      cases hbalance : balanceAboveMinimum reply call.minimumDepositAmount with
      | error error =>
          simp only [hbalance, pure_eq_ok] at hresult
          obtain rfl := hresult
          exact .depositSolEnded rfl
      | ok lamports =>
          simp only [hbalance, bind_eq_ok, orPanic_eq_ok, pure_eq_ok, queueDeposit] at hresult
          obtain ⟨balance, hnew, ⟨_, _⟩, ⟨canister, hevent, heq⟩, rfl⟩ := hresult
          obtain ⟨rfl, rfl⟩ := Prod.mk.inj heq
          unfold DepositBalance.new at hnew
          split at hnew
          case isFalse => cases hnew
          case isTrue hrent =>
            obtain rfl := Option.some.inj hnew
            unfold balanceAboveMinimum at hbalance
            split at hbalance
            · cases hbalance
            · split at hbalance
              · cases hbalance
              case isFalse hmin =>
                obtain rfl := Except.ok.inj hbalance
                exact .deposited hcall (UInt64.not_lt.mp hmin) hevent

theorem steps_of_watch {account : Account}
    (h : config.step now (.watchDepositAddress account) = some config') :
    config.Steps now (.watchDepositAddress account) config' := by
  obtain rfl := Option.some.inj h
  cases hresult : watchDepositAddress config.canister config.minterId account now with
  | error panic => exact .unchanged
  | ok result =>
      simp only [watchDepositAddress, bind_eq_ok] at hresult
      obtain ⟨⟨⟩, -, hresult⟩ := hresult
      split at hresult
      · obtain rfl := pure_eq_ok.mp hresult
        exact .unchanged
      · obtain rfl := pure_eq_ok.mp hresult
        exact .unchanged
      · simp only [bind_eq_ok, pure_eq_ok] at hresult
        obtain ⟨⟨watchlist, status⟩, -, rfl⟩ := hresult
        exact .watched

/-- A step is one of the messages. -/
theorem steps_of_step {action : Action} (h : config.step now action = some config') :
    config.Steps now action config' := by
  cases action with
  | withdraw account amountToBurn address =>
      simp only [step] at h
      split at h
      case h_1 canister call hwithdraw =>
        obtain rfl := Option.some.inj h
        exact .withdrawStarted hwithdraw
      case h_2 =>
        obtain rfl := Option.some.inj h
        exact .unchanged
  | burned position reply => exact steps_of_burned h
  | withdrawTrap position =>
      simp only [step, Option.bind_eq_bind, Option.bind_eq_some_iff] at h
      obtain ⟨call, -, h⟩ := h
      obtain rfl := Option.some.inj h
      exact .withdrawEnded
  | depositSol account availableCycles =>
      simp only [step] at h
      split at h
      case h_1 canister call hdeposit =>
        obtain rfl := Option.some.inj h
        exact .depositSolStarted hdeposit
      all_goals
        obtain rfl := Option.some.inj h
        exact .unchanged
  | balance position reply refundedCycles acceptedCycles => exact steps_of_balance h
  | depositSolTrap position =>
      simp only [step, Option.bind_eq_bind, Option.bind_eq_some_iff] at h
      obtain ⟨call, -, h⟩ := h
      obtain rfl := Option.some.inj h
      exact .depositSolEnded rfl
  | watchDepositAddress account => exact steps_of_watch h
  | queueDeposit deposit =>
      obtain rfl := Option.some.inj h
      cases hresult : queueDeposit config.canister deposit now with
      | error panic => exact .unchanged
      | ok result =>
          simp only [queueDeposit, bind_eq_ok, pure_eq_ok] at hresult
          obtain ⟨canister, hevent, rfl⟩ := hresult
          exact .queued hevent
  | publicKey key =>
      obtain rfl := Option.some.inj h
      cases hresult : recordPublicKey config.canister key now with
      | error panic => exact .unchanged
      | ok canister =>
          unfold recordPublicKey at hresult
          split at hresult
          · obtain rfl := Except.ok.inj hresult
            exact .unchanged
          case h_2 hnone => exact .keyFetched hnone hresult
  | withdrawals action =>
      simp only [step, Option.bind_eq_bind, Option.bind_eq_some_iff] at h
      obtain ⟨⟨canister, round, requested⟩, hstep, h⟩ := h
      obtain rfl := Option.some.inj h
      exact .withdrawals (WithdrawalRound.steps_of_step hstep)
  | finalization action =>
      simp only [step, Option.bind_eq_bind, Option.bind_eq_some_iff] at h
      obtain ⟨⟨canister, round⟩, hstep, h⟩ := h
      obtain rfl := Option.some.inj h
      exact .finalization (FinalizeRound.steps_of_step hstep)
  | sweeps action =>
      simp only [step, Option.bind_eq_bind, Option.bind_eq_some_iff] at h
      obtain ⟨⟨canister, round, planned⟩, hstep, h⟩ := h
      obtain rfl := Option.some.inj h
      exact .sweeps (SweepRound.steps_of_step hstep)
  | mints action =>
      simp only [step, Option.bind_eq_bind, Option.bind_eq_some_iff] at h
      obtain ⟨⟨canister, round, transfers⟩, hstep, h⟩ := h
      obtain rfl := Option.some.inj h
      exact .mints (MintRound.steps_of_step hstep)
  | upgrade args =>
      simp only [step] at h
      split at h
      case h_1 canister hupgrade =>
        obtain rfl := Option.some.inj h
        exact .upgraded hupgrade
      case h_2 =>
        obtain rfl := Option.some.inj h
        exact .unchanged

end Config

end Cksol
