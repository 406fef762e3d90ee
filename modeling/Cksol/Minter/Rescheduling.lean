import Cksol.Minter.SweepRounds
import Cksol.State.MintHistory

/-! # When a round runs its task again

A timer runs each task at a regular interval, and a round may set a further timer to run its task
earlier. It decides by locals of its function: snapshots of the state taken before its awaits, and what
its calls returned. The observed minter keeps them next to the configuration, with the events that the
round recorded, and tells of each round that ends without a trap which timer it set. A round that
returns in its first message records nothing, sets no timer, and is no step of the minter.
-/

namespace Cksol

open Std

/-- The events that a message recorded. -/
def newEvents (before after : Canister) : List EventType :=
  (after.log.drop before.log.length).map Event.payload

section Rounds

variable [SolanaSdk] {requested : List BoundWithdrawal} {progress : SweepProgress}
  {round round' : Option MintRound} {transfers : List TransferArg} {state : State} {calls : ℕ}

/-! ## `sweep_queued_deposits` -/

/-- What a round went through: the state whose queue it took, the recent block, the answers of the
signer and the events it recorded. -/
structure SweepProgress where
  started : State
  block : Option Block
  replies : List (Option Signature)
  recorded : List EventType

namespace SweepProgress

def next (progress : SweepProgress) (state : State) (recorded : List EventType) :
    SweepAction → SweepProgress
  | .start => ⟨state, none, [], recorded⟩
  | .block reply => { progress with block := reply, recorded := progress.recorded ++ recorded }
  | .signed _ reply => { progress with
      replies := progress.replies ++ [reply]
      recorded := progress.recorded ++ recorded }
  | .finish | .trap => { progress with recorded := progress.recorded ++ recorded }

/-- The scope guard that sets the timer is created once the block is known, and defused when the round
left no deposit in the queue. -/
def timer (progress : SweepProgress) : Option Duration :=
  if progress.block.isSome && leavesDepositsQueued progress.started then some 0 else none

end SweepProgress

/-! ## `process_pending_mints` -/

/-- What `process_pending_mints` started from, and what it recorded. -/
structure MintProgress where
  started : State
  recorded : List EventType

/-- `MintRound::next`: whether more mints are pending than the round takes. -/
def morePendingMintsThanOneRound (state : State) : Bool :=
  maxPendingMintsPerRound < state.deposits.pendingMints.size

namespace MintProgress

def next (progress : MintProgress) (state : State) (recorded : List EventType) :
    MintAction → MintProgress
  | .start => ⟨state, recorded⟩
  | _ => { progress with recorded := progress.recorded ++ recorded }

def selectedDepositIds (progress : MintProgress) : List DepositSolId :=
  (mintRoundNext progress.started).map Prod.fst

/-- `round_made_progress`, in the state at the end of the round. -/
def madeProgress (progress : MintProgress) (state : State) : Bool :=
  progress.selectedDepositIds.any fun depositId => !state.deposits.pendingMints.contains depositId

def timer (progress : MintProgress) (state : State) : Option Duration :=
  if progress.madeProgress state && morePendingMintsThanOneRound progress.started then some 0
  else none

end MintProgress

/-! ## `process_pending_withdrawals` -/

/-- The counts that `process_pending_withdrawals` decides by. -/
structure WithdrawalProgress where
  numCreated : ℕ
  numSigned : ℕ
  recorded : List EventType

/-- Whether `create_transaction` returns that it created a transaction. -/
def WithdrawalRound.created (canister : Canister) (round : Option WithdrawalRound) (now : Timestamp)
    (position : ℕ) (reply : Option NonceAccountData) : Bool :=
  match round with
  | some (.creating minterAddress batches) => batches[position]?.any fun batch =>
      (createTransaction canister minterAddress batch reply now).toOption.any Prod.snd
  | _ => false

namespace WithdrawalProgress

def next (progress : WithdrawalProgress) (canister : Canister) (round : Option WithdrawalRound)
    (now : Timestamp) (recorded : List EventType) : WithdrawalAction → WithdrawalProgress
  | .start => ⟨0, 0, recorded⟩
  | .nonceRead position reply => { progress with
      numCreated := progress.numCreated +
        (WithdrawalRound.created canister round now position reply).toNat
      recorded := progress.recorded ++ recorded }
  | .signed _ reply => { progress with
      numSigned := progress.numSigned + reply.isSome.toNat
      recorded := progress.recorded ++ recorded }
  | _ => { progress with recorded := progress.recorded ++ recorded }

def madeProgress (progress : WithdrawalProgress) : Bool :=
  0 < progress.numCreated || 0 < progress.numSigned

def timer (progress : WithdrawalProgress) (state : State) : Option Duration :=
  if progress.madeProgress &&
      (state.canCreateWithdrawalTransaction || state.hasUnsignedWithdrawalTransaction) then
    some withdrawalProcessingRetryDelay
  else none

end WithdrawalProgress

/-! ## `finalize_transactions` -/

/-- The snapshots of a round: the state whose sweeps it checked, and how many sweeps were finalized
when it fetched some of them. -/
structure FinalizeProgress where
  started : State
  finalizedCount : ℕ

/-- `credit_finalized_sweeps`: whether it asks for another round, having recorded these events. -/
def moreSweepsToCredit (finalizedCount : ℕ) (settled : List EventType) : Bool :=
  0 < settled.length && settled.length < finalizedCount

namespace FinalizeProgress

def next (progress : FinalizeProgress) (state : State) : FinalizeAction → FinalizeProgress
  | .start => ⟨state, 0⟩
  | .fetchFinalized => { progress with finalizedCount := state.deposits.finalized.bySignature.size }
  | _ => progress

/-- `check_sweep_transactions`: whether more sweeps are submitted than the round checks. -/
def moreTransactionsToCheck (progress : FinalizeProgress) : Bool :=
  maxConcurrentRpcCalls * maxSignaturesPerStatusCheck < progress.started.blockhashTransactions.size

def timer (progress : FinalizeProgress) (more : Bool) : Option Duration :=
  if progress.moreTransactionsToCheck || more then some finalizeTransactionsRetryDelay else none

end FinalizeProgress

/-! ## The observed minter -/

/-- A round that ended without a trap, and the timer it set. -/
inductive RoundEnd where
  | sweeps (progress : SweepProgress) (timer : Option Duration)
  | mints (progress : MintProgress) (timer : Option Duration)
  | withdrawals (progress : WithdrawalProgress) (timer : Option Duration)
  /-- The events that `credit_finalized_sweeps` recorded and what it returned. -/
  | finalization (credited : List EventType) (moreSweepsToCredit : Bool) (timer : Option Duration)

def SweepProgress.ended (progress : SweepProgress) : SweepAction → Option RoundEnd
  | .block none | .finish => some (.sweeps progress progress.timer)
  | _ => none

def MintProgress.ended (progress : MintProgress) (state : State) : MintAction → Option RoundEnd
  | .finish => some (.mints progress (progress.timer state))
  | _ => none

def WithdrawalProgress.ended (progress : WithdrawalProgress) (state : State) :
    WithdrawalAction → Option RoundEnd
  | .finish => some (.withdrawals progress (progress.timer state))
  | _ => none

def FinalizeProgress.ended (progress : FinalizeProgress) (canister : Canister)
    (round : Option FinalizeRound) (now : Timestamp) (recorded : List EventType)
    (action : FinalizeAction) : Option RoundEnd :=
  match action, round with
  | .finalized replies, some (.crediting sweeps) =>
      let settled := creditEvents sweeps replies
      let more := moreSweepsToCredit progress.finalizedCount settled
      orTrap (canister.processEvents settled now) none
        fun _ => some (.finalization recorded more (progress.timer more))
  | _, _ => none

/-- The minter, with the locals of the latest round of each task. -/
structure Observed where
  config : Config
  sweeps : SweepProgress
  mints : MintProgress
  withdrawals : WithdrawalProgress
  finalization : FinalizeProgress

namespace Observed

/-- A canister with nothing in flight, before the first round of each task. -/
def idle (minterId : Principal) (canister : Canister) (signRequests : List SignRequest)
    (transfers : List TransferArg) : Observed where
  config := .idle minterId canister signRequests transfers
  sweeps := ⟨canister.state, none, [], []⟩
  mints := ⟨canister.state, []⟩
  withdrawals := ⟨0, 0, []⟩
  finalization := ⟨canister.state, 0⟩

/-- One message of the minter, and the round that it ends. -/
def step (observed : Observed) (now : Timestamp) (action : Action) :
    Option (Observed × Option RoundEnd) := do
  let canister := observed.config.canister
  let config ← observed.config.step now action
  let recorded := newEvents canister config.canister
  match action with
  | .sweeps action =>
      let sweeps := observed.sweeps.next canister.state recorded action
      return ({ observed with config, sweeps }, sweeps.ended action)
  | .mints action =>
      let mints := observed.mints.next canister.state recorded action
      return ({ observed with config, mints }, mints.ended canister.state action)
  | .withdrawals action =>
      let withdrawals :=
        observed.withdrawals.next canister observed.config.withdrawals now recorded action
      return ({ observed with config, withdrawals }, withdrawals.ended canister.state action)
  | .finalization action =>
      let finalization := observed.finalization.next canister.state action
      return ({ observed with config, finalization },
        finalization.ended canister observed.config.finalization now recorded action)
  | _ => return ({ observed with config }, none)

/-- The rounds that end in a run, up to a message that nothing awaits. -/
def roundEnds (observed : Observed) : List (Timestamp × Action) → List RoundEnd
  | [] => []
  | (now, action) :: rest =>
      match observed.step now action with
      | some (observed, ended) => ended.toList ++ observed.roundEnds rest
      | none => []

/-- The rounds that end in a run from the installation of the canister. -/
def roundEndsFrom (minterId : Principal) (args : InitArgs) (now : Timestamp)
    (actions : List (Timestamp × Action)) : Option (List RoundEnd) :=
  (Canister.init args now).toOption.map fun canister =>
    (idle minterId canister [] []).roundEnds actions

end Observed

/-! ## No hot loop -/

/-- A round that recorded no event sets no timer before the regular interval, and a credit that
recorded none does not ask for another round. -/
def RoundEnd.NoHotLoop : RoundEnd → Prop
  | .sweeps progress timer => progress.recorded = [] → ∀ delay ∈ timer, sweepDepositsDelay ≤ delay
  | .mints progress timer =>
      progress.recorded = [] → ∀ delay ∈ timer, processPendingMintsDelay ≤ delay
  | .withdrawals progress timer =>
      progress.recorded = [] → ∀ delay ∈ timer, withdrawalProcessingDelay ≤ delay
  | .finalization credited more _ => credited = [] → more = false

/-- A round of sweeps got no block, or took all deposits of the queue, or had a sweep signed. -/
def RoundEnd.TakesAllOrSigns : RoundEnd → Prop
  | .sweeps progress _ => progress.block = none ∨
      progress.started.deposits.queued.size ≤ maxDepositsPerRound ∨
      ∃ signature, some signature ∈ progress.replies
  | _ => True

instance (ended : RoundEnd) : Decidable ended.NoHotLoop :=
  match ended with
  | .sweeps progress timer =>
      inferInstanceAs (Decidable (progress.recorded = [] → ∀ delay ∈ timer, sweepDepositsDelay ≤ delay))
  | .mints progress timer => inferInstanceAs
      (Decidable (progress.recorded = [] → ∀ delay ∈ timer, processPendingMintsDelay ≤ delay))
  | .withdrawals progress timer => inferInstanceAs
      (Decidable (progress.recorded = [] → ∀ delay ∈ timer, withdrawalProcessingDelay ≤ delay))
  | .finalization credited more _ => inferInstanceAs (Decidable (credited = [] → more = false))

instance (ended : RoundEnd) : Decidable ended.TakesAllOrSigns :=
  match ended with
  | .sweeps progress timer => decidable_of_iff (progress.block = none ∨
      progress.started.deposits.queued.size ≤ maxDepositsPerRound ∨
      progress.replies.any Option.isSome) (by
        simp [RoundEnd.TakesAllOrSigns, Option.isSome_iff_exists])
  | .mints .. | .withdrawals .. | .finalization .. => .isTrue trivial

/-! ### The events of a message -/

section NewEvents

variable {canister canister' : Canister} {now : Timestamp}

omit [SolanaSdk] in
theorem newEvents_append {state : State} (new : List Event) :
    newEvents canister ⟨state, canister.log ++ new⟩ = new.map Event.payload := by
  rw [newEvents, List.drop_left]

omit [SolanaSdk] in
@[simp] theorem newEvents_self : newEvents canister canister = [] := by
  rw [newEvents, List.drop_length, List.map_nil]

omit [SolanaSdk] in
@[simp] theorem newEvents_endTask (task : TaskType) :
    newEvents canister (canister'.endTask task) = newEvents canister canister' :=
  rfl

theorem newEvents_of_processEvent {payload : EventType}
    (h : canister.processEvent payload now = .ok canister') :
    newEvents canister canister' = [payload] := by
  obtain ⟨state, -, rfl⟩ := Canister.processEvent_eq_ok.mp h
  exact newEvents_append _

theorem log_of_processEvents {payloads : List EventType}
    (h : canister.processEvents payloads now = .ok canister') :
    canister'.log = canister.log ++ payloads.map (⟨now, ·⟩) := by
  induction payloads generalizing canister with
  | nil =>
      obtain rfl := Except.ok.inj h
      simp
  | cons payload payloads ih =>
      simp only [Canister.processEvents, List.foldlM_cons, bind_eq_ok] at h
      obtain ⟨middle, hevent, hrest⟩ := h
      obtain ⟨state, -, rfl⟩ := Canister.processEvent_eq_ok.mp hevent
      rw [ih hrest, List.append_assoc]
      rfl

omit [SolanaSdk] in
theorem newEvents_of_startTask {task : TaskType} (h : canister.startTask task = some canister') :
    newEvents canister canister' = [] := by
  rw [Canister.startTask_eq_some h]
  exact newEvents_self

end NewEvents

/-! ### Sweeps -/

/-- A round recorded an event if and only if a sweep was signed. -/
def SweepProgress.Consistent (progress : SweepProgress) : Prop :=
  progress.recorded = [] ↔ ∀ reply ∈ progress.replies, reply = none

omit [SolanaSdk] in
/-- The timer that a round sets, if any, comes before the regular interval. -/
theorem SweepProgress.timer_waits_iff (progress : SweepProgress) :
    (∀ delay ∈ progress.timer, sweepDepositsDelay ≤ delay) ↔
      progress.block = none ∨ progress.started.deposits.queued.size ≤ maxDepositsPerRound := by
  have htimer : progress.timer = none ↔
      progress.block = none ∨ progress.started.deposits.queued.size ≤ maxDepositsPerRound := by
    rw [← Nat.not_lt, ← leavesDepositsQueued_iff]
    cases hblock : progress.block <;> simp [timer, hblock]
  rw [← htimer, timer]
  split
  · simp [sweepDepositsDelay, Duration.fromMins, Duration.fromSecs]
  · simp

omit [SolanaSdk] in
theorem SweepProgress.Consistent.noHotLoop_iff (h : progress.Consistent) :
    (RoundEnd.sweeps progress progress.timer).NoHotLoop ↔
      (RoundEnd.sweeps progress progress.timer).TakesAllOrSigns := by
  have hsigned : (∃ signature, some signature ∈ progress.replies) ↔ progress.recorded ≠ [] := by
    rw [ne_eq, show progress.recorded = [] ↔ _ from h]
    simp [Option.ne_none_iff_exists']
  rw [RoundEnd.NoHotLoop, RoundEnd.TakesAllOrSigns, hsigned, progress.timer_waits_iff, ← or_assoc,
    imp_iff_not_or, or_comm]

/-- A message records an event if and only if it got a signature, unless it trapped. -/
theorem SweepRound.Steps.consistent {canister canister' : Canister} {now : Timestamp}
    {round round' : Option SweepRound} {action : SweepAction} {planned : List PlannedSweep}
    (hsteps : SweepRound.Steps canister now round action (canister', round', planned))
    (h : round.isSome → progress.Consistent)
    (hends : round'.isSome ∨ action = .finish ∨ action = .block none) :
    (progress.next canister.state (newEvents canister canister') action).Consistent := by
  cases hsteps with
  | start hstart =>
      rw [newEvents_of_startTask hstart]
      simp [SweepProgress.next, SweepProgress.Consistent]
  | planned =>
      rw [newEvents_self, SweepProgress.next, List.append_nil]
      exact h rfl
  | notSigned =>
      rw [newEvents_self]
      simpa [SweepProgress.next, SweepProgress.Consistent, or_imp, forall_and] using h rfl
  | signed _ hevent =>
      rw [newEvents_of_processEvent hevent]
      simp [SweepProgress.next, SweepProgress.Consistent]
  | ended =>
      rw [newEvents_endTask, newEvents_self]
      rcases hends with hsome | rfl | rfl
      · cases hsome
      · simpa [SweepProgress.next] using h rfl
      · simpa [SweepProgress.next, SweepProgress.Consistent] using h rfl

omit [SolanaSdk] in
theorem SweepProgress.mem_ended {action : SweepAction} {ended : RoundEnd}
    (h : ended ∈ progress.ended action) :
    ended = .sweeps progress progress.timer ∧ (action = .finish ∨ action = .block none) := by
  unfold SweepProgress.ended at h
  split at h
  case h_1 => exact ⟨(Option.some.inj h).symm, .inr rfl⟩
  case h_2 => exact ⟨(Option.some.inj h).symm, .inl rfl⟩
  case h_3 => cases h

theorem SweepRound.Steps.noHotLoop_iff {canister canister' : Canister} {now : Timestamp}
    {round round' : Option SweepRound} {action : SweepAction} {planned : List PlannedSweep}
    {ended : RoundEnd}
    (hsteps : SweepRound.Steps canister now round action (canister', round', planned))
    (h : round.isSome → progress.Consistent)
    (hended : ended ∈ (progress.next canister.state (newEvents canister canister') action).ended
      action) : ended.NoHotLoop ↔ ended.TakesAllOrSigns := by
  obtain ⟨rfl, haction⟩ := SweepProgress.mem_ended hended
  exact (hsteps.consistent h (.inr haction)).noHotLoop_iff

/-! ### Mints -/

/-- While a round recorded no event, the mints it selected are pending. -/
def MintProgress.Consistent (progress : MintProgress) (state : State) : Prop :=
  progress.recorded = [] → ∀ depositId ∈ progress.selectedDepositIds,
    depositId ∈ state.deposits.pendingMints

omit [SolanaSdk] in
theorem MintProgress.Consistent.noHotLoop {progress : MintProgress} (h : progress.Consistent state) :
    (RoundEnd.mints progress (progress.timer state)).NoHotLoop := by
  intro hrecorded
  have hprogress : progress.madeProgress state = false := by
    rw [madeProgress, List.any_eq_false]
    intro depositId hselected
    simpa using h hrecorded depositId hselected
  simp [timer, hprogress]

omit [SolanaSdk] in
/-- A round selects pending mints, and further messages keep what it selected. -/
theorem MintProgress.Consistent.next {progress : MintProgress} {action : MintAction}
    (recorded : List EventType) (h : action ≠ .start → progress.Consistent state) :
    (progress.next state recorded action).Consistent state := by
  intro hrecorded depositId hselected
  cases action with
  | start =>
      obtain ⟨⟨depositId, pending⟩, hnext, rfl⟩ := List.mem_map.mp hselected
      exact OrdMap.mem_iff_exists.mpr
        ⟨pending, ExtTreeMap.mem_toList_iff_getElem?_eq_some.mp (List.mem_of_mem_take hnext)⟩
  | _ => exact h (by simp) (List.append_eq_nil_iff.mp hrecorded).1 depositId hselected

theorem MintRound.Steps.pendingMints_eq {canister canister' : Canister} {now : Timestamp}
    {action : MintAction}
    (hsteps : MintRound.Steps canister calls now round action (canister', round', transfers))
    (hnew : newEvents canister canister' = []) :
    canister'.state.deposits.pendingMints = canister.state.deposits.pendingMints := by
  cases hsteps with
  | start hstart =>
      rw [Canister.startTask_eq_some hstart]
      rfl
  | expired _ hevent | minted _ _ hevent | rejected _ hevent | quarantinedOnTrap hevent =>
      have hsome := newEvents_of_processEvent hevent
      rw [← newEvents_endTask .mint] at hsome
      exact absurd (hsome.symm.trans hnew) (List.cons_ne_nil _ _)
  | _ => rfl

/-- A message of a round keeps the selected mints pending unless it records an event. -/
theorem MintRound.Steps.consistent {canister canister' : Canister} {now : Timestamp}
    {action : MintAction} {progress : MintProgress}
    (hsteps : MintRound.Steps canister calls now round action (canister', round', transfers))
    (h : round.isSome → progress.Consistent canister.state) :
    (progress.next canister.state (newEvents canister canister') action).Consistent canister.state ∧
    (progress.next canister.state (newEvents canister canister') action).Consistent
      canister'.state := by
  have hbefore : (progress.next canister.state (newEvents canister canister') action).Consistent
      canister.state := by
    refine MintProgress.Consistent.next _ fun haction => h ?_
    cases hsteps with
    | start => exact absurd rfl haction
    | _ => rfl
  refine ⟨hbefore, fun hrecorded => ?_⟩
  have hnew : newEvents canister canister' = [] := by
    cases action with
    | start => exact hrecorded
    | _ => exact (List.append_eq_nil_iff.mp hrecorded).2
  rw [hsteps.pendingMints_eq hnew]
  exact hbefore hrecorded

theorem MintRound.Steps.noHotLoop_iff {canister canister' : Canister} {now : Timestamp}
    {action : MintAction} {progress : MintProgress} {ended : RoundEnd}
    (hsteps : MintRound.Steps canister calls now round action (canister', round', transfers))
    (h : round.isSome → progress.Consistent canister.state)
    (hended : ended ∈ (progress.next canister.state (newEvents canister canister') action).ended
      canister.state action) : ended.NoHotLoop ↔ ended.TakesAllOrSigns := by
  cases action with
  | finish =>
      obtain rfl := Option.some.inj hended
      exact iff_of_true (hsteps.consistent h).1.noHotLoop trivial
  | _ => cases hended

/-! ### Withdrawals -/

/-- A round that created or signed a transaction recorded an event. -/
def WithdrawalProgress.Consistent (progress : WithdrawalProgress) : Prop :=
  progress.recorded = [] → progress.numCreated = 0 ∧ progress.numSigned = 0

omit [SolanaSdk] in
theorem WithdrawalProgress.Consistent.noHotLoop {progress : WithdrawalProgress}
    (h : progress.Consistent) :
    (RoundEnd.withdrawals progress (progress.timer state)).NoHotLoop := by
  intro hrecorded
  obtain ⟨hcreated, hsigned⟩ := h hrecorded
  simp [timer, madeProgress, hcreated, hsigned]

/-- `create_transaction` returns `true` once it recorded the transaction. -/
theorem newEvents_of_createTransaction {canister canister' : Canister} {minterAddress : Address}
    {batch : ReservedBatch} {reply : Option NonceAccountData} {now : Timestamp}
    (h : createTransaction canister minterAddress batch reply now = .ok (canister', true)) :
    newEvents canister canister' ≠ [] := by
  unfold createTransaction at h
  split at h
  case h_1 => cases h
  case h_2 =>
    split at h
    case isTrue => cases h
    case isFalse =>
      dsimp only at h
      split at h
      case h_1 => cases h
      case h_2 =>
        simp only [bind_eq_ok, pure_eq_ok, Prod.mk.injEq] at h
        obtain ⟨_, hevent, rfl, -⟩ := h
        rw [newEvents_of_processEvent hevent]
        exact List.cons_ne_nil _ _

/-- A message that had a transaction created recorded an event, unless it trapped. -/
theorem WithdrawalRound.newEvents_of_created {canister canister' : Canister}
    {round : Option WithdrawalRound} {round' : WithdrawalRound} {now : Timestamp} {position : ℕ}
    {reply : Option NonceAccountData}
    (hstep : WithdrawalRound.step canister round now (.nonceRead position reply) =
      some (canister', some round', requested))
    (hcreated : WithdrawalRound.created canister round now position reply) :
    newEvents canister canister' ≠ [] := by
  unfold created at hcreated
  split at hcreated
  case h_2 => cases hcreated
  case h_1 minterAddress batches =>
    obtain ⟨batch, hbatch, hcreated⟩ := (Option.any_eq_true _ _).mp hcreated
    obtain ⟨⟨_, created⟩, hcreate, rfl⟩ := (Option.any_eq_true _ _).mp hcreated
    rw [toOption_eq_some] at hcreate
    simp only [step, hbatch, hcreate, orTrap, Option.bind_eq_bind, Option.bind_some, Option.pure_def,
      Option.some.injEq, Prod.mk.injEq] at hstep
    obtain ⟨rfl, -⟩ := hstep
    exact newEvents_of_createTransaction hcreate

/-- A message that had a transaction signed recorded an event, unless it trapped. -/
theorem WithdrawalRound.newEvents_of_signed {canister canister' : Canister}
    {round : Option WithdrawalRound} {round' : WithdrawalRound} {now : Timestamp} {position : ℕ}
    {signature : Signature}
    (hsteps : WithdrawalRound.Steps canister now round (.signed position (some signature))
      (canister', some round', requested)) :
    newEvents canister canister' ≠ [] := by
  cases hsteps with
  | signed _ hevent =>
      rw [newEvents_of_processEvent hevent]
      exact List.cons_ne_nil _ _

/-- A message of a round that creates or signs a transaction records an event. -/
theorem WithdrawalRound.step_consistent {canister canister' : Canister}
    {round round' : Option WithdrawalRound} {now : Timestamp} {action : WithdrawalAction}
    {progress : WithdrawalProgress}
    (hstep : WithdrawalRound.step canister round now action = some (canister', round', requested))
    (h : round.isSome → progress.Consistent) (hends : round'.isSome ∨ action = .finish) :
    (progress.next canister round now (newEvents canister canister') action).Consistent := by
  have hsteps := steps_of_step hstep
  have hround : action ≠ .start → round.isSome := by
    intro haction
    cases hsteps with
    | start => exact absurd rfl haction
    | _ => rfl
  intro hrecorded
  cases action with
  | start => exact ⟨rfl, rfl⟩
  | nonceRead position reply =>
      obtain ⟨hold, hnew⟩ := List.append_eq_nil_iff.mp hrecorded
      obtain ⟨hcreated, hsigned⟩ := h (hround (by simp)) hold
      obtain ⟨round', rfl⟩ := Option.isSome_iff_exists.mp (hends.resolve_right (by simp))
      refine ⟨?_, hsigned⟩
      have hnone : created canister round now position reply = false :=
        Bool.eq_false_iff.mpr fun htrue => newEvents_of_created hstep htrue hnew
      simp [WithdrawalProgress.next, hnone, hcreated]
  | signed position reply =>
      obtain ⟨hold, hnew⟩ := List.append_eq_nil_iff.mp hrecorded
      obtain ⟨hcreated, hsigned⟩ := h (hround (by simp)) hold
      obtain ⟨round', rfl⟩ := Option.isSome_iff_exists.mp (hends.resolve_right (by simp))
      refine ⟨hcreated, ?_⟩
      cases reply with
      | none => exact hsigned
      | some signature => exact absurd hnew (newEvents_of_signed hsteps)
  | requestSignatures | finish | trap =>
      exact h (hround (by simp)) (List.append_eq_nil_iff.mp hrecorded).1

theorem WithdrawalRound.noHotLoop_iff {canister canister' : Canister}
    {round round' : Option WithdrawalRound} {now : Timestamp} {action : WithdrawalAction}
    {progress : WithdrawalProgress} {ended : RoundEnd}
    (hstep : WithdrawalRound.step canister round now action = some (canister', round', requested))
    (h : round.isSome → progress.Consistent)
    (hended : ended ∈ (progress.next canister round now (newEvents canister canister') action).ended
      canister.state action) : ended.NoHotLoop ↔ ended.TakesAllOrSigns := by
  cases action with
  | finish =>
      obtain rfl := Option.some.inj hended
      exact iff_of_true (WithdrawalRound.step_consistent hstep h (.inr rfl)).noHotLoop trivial
  | _ => cases hended

/-! ### Credits -/

/-- A credit that asks for another round recorded an event. -/
theorem FinalizeRound.noHotLoop_iff {canister canister' : Canister}
    {round round' : Option FinalizeRound} {now : Timestamp} {action : FinalizeAction}
    {progress : FinalizeProgress} {ended : RoundEnd}
    (hstep : FinalizeRound.step canister round now action = some (canister', round'))
    (h : ended ∈ progress.ended canister round now (newEvents canister canister') action) :
    ended.NoHotLoop ↔ ended.TakesAllOrSigns := by
  unfold FinalizeProgress.ended at h
  split at h
  case h_2 => cases h
  case h_1 replies sweeps =>
    rcases orTrap_cases h with ⟨credited, hcredited, hended⟩ | hnone
    · obtain rfl := Option.some.inj hended
      have hnew : newEvents canister canister' = creditEvents sweeps replies := by
        simp only [step, orTrap, hcredited, Option.some.injEq, FinalizeRound.ended, Prod.mk.injEq]
          at hstep
        obtain ⟨rfl, -⟩ := hstep
        rw [newEvents_endTask, newEvents, log_of_processEvents hcredited, List.drop_left,
          List.map_map]
        exact List.map_id _
      refine iff_of_true (fun hnil => ?_) trivial
      rw [← hnew, hnil]
      rfl
    · cases hnone

/-! ### Runs -/

section Frame

variable {config config' : Config} {now : Timestamp} {action : Action}

/-- Only a message of a task starts a round of it. -/
theorem Config.Steps.isSome_rounds (h : config.Steps now action config') :
    (config'.sweeps.isSome → config.sweeps.isSome ∨ ∃ step, action = .sweeps step) ∧
    (config'.mints.isSome → config.mints.isSome ∨ ∃ step, action = .mints step) ∧
    (config'.withdrawals.isSome → config.withdrawals.isSome ∨ ∃ step, action = .withdrawals step) := by
  cases h <;> simp +contextual [idle]

/-- While a round of mints is under way, only its messages settle pending mints. -/
theorem Config.Steps.mem_pendingMints (h : config.Steps now action config')
    (hother : ∀ step, action ≠ .mints step) (hround : config'.mints.isSome) {id : DepositSolId}
    (hid : id ∈ config.canister.state.deposits.pendingMints) :
    id ∈ config'.canister.state.deposits.pendingMints := by
  rcases h.run_or_upgraded with hrun | ⟨args, canister, rfl, -, rfl⟩
  · refine hrun.invariant (fun reached => id ∈ reached.state.deposits.pendingMints) ?_ ?_ hid
    · exact fun reached transient hid => hid
    · intro state log t payload state' hrecords hid heffect
      refine heffect.mem_pendingMints ?_ ?_ hid
      · rintro mintBlockIndex rfl
        obtain ⟨step, rfl⟩ := hrecords.recordedBy
        exact hother step rfl
      · rintro rfl
        obtain ⟨step, rfl⟩ := hrecords.recordedBy
        exact hother step rfl
  -- an upgrade drops the round
  · cases hround

end Frame

namespace Observed

/-- What the locals of each round under way tell of the events it recorded. -/
structure Consistent (observed : Observed) : Prop where
  sweeps : observed.config.sweeps.isSome → observed.sweeps.Consistent
  mints : observed.config.mints.isSome → observed.mints.Consistent observed.config.canister.state
  withdrawals : observed.config.withdrawals.isSome → observed.withdrawals.Consistent

omit [SolanaSdk] in
theorem consistent_idle (minterId : Principal) (canister : Canister)
    (signRequests : List SignRequest) (transfers : List TransferArg) :
    (idle minterId canister signRequests transfers).Consistent where
  sweeps h := by cases h
  mints h := by cases h
  withdrawals h := by cases h

variable {observed observed' : Observed} {now : Timestamp}

/-- The tasks that did not take a message. -/
theorem Consistent.frame (h : observed.Consistent) {action : Action} {config : Config}
    (hsteps : observed.config.Steps now action config) :
    ((∀ step, action ≠ .sweeps step) → config.sweeps.isSome → observed.sweeps.Consistent) ∧
    ((∀ step, action ≠ .mints step) → config.mints.isSome →
      observed.mints.Consistent config.canister.state) ∧
    ((∀ step, action ≠ .withdrawals step) → config.withdrawals.isSome →
      observed.withdrawals.Consistent) := by
  obtain ⟨hsweeps, hmints, hwithdrawals⟩ := hsteps.isSome_rounds
  refine ⟨fun hother hsome => ?_, fun hother hsome => ?_, fun hother hsome => ?_⟩
  · exact h.sweeps ((hsweeps hsome).resolve_right fun ⟨step, heq⟩ => hother step heq)
  · intro hrecorded depositId hselected
    have hold := h.mints ((hmints hsome).resolve_right fun ⟨step, heq⟩ => hother step heq)
    exact hsteps.mem_pendingMints hother hsome (hold hrecorded depositId hselected)
  · exact h.withdrawals ((hwithdrawals hsome).resolve_right fun ⟨step, heq⟩ => hother step heq)

/-- A message keeps the locals consistent. A round that it ends is in no hot loop unless it was one of
sweeps that left deposits queued and had none signed. -/
theorem Consistent.step (h : observed.Consistent) {action : Action} {ended : Option RoundEnd}
    (hstep : observed.step now action = some (observed', ended)) :
    observed'.Consistent ∧ ∀ round ∈ ended, (round.NoHotLoop ↔ round.TakesAllOrSigns) := by
  simp only [Observed.step, Option.bind_eq_bind, Option.bind_eq_some_iff] at hstep
  obtain ⟨config, hconfig, hstep⟩ := hstep
  obtain ⟨hsweeps, hmints, hwithdrawals⟩ := h.frame (Config.steps_of_step hconfig)
  cases action with
  | sweeps action =>
      obtain ⟨rfl, rfl⟩ := Prod.mk.inj (Option.some.inj hstep)
      simp only [Config.step, Option.bind_eq_bind, Option.bind_eq_some_iff] at hconfig
      obtain ⟨⟨canister, round, planned⟩, hround, hconfig⟩ := hconfig
      obtain rfl := Option.some.inj hconfig
      have hsteps := SweepRound.steps_of_step hround
      refine ⟨⟨fun hsome => ?_, hmints (by simp), hwithdrawals (by simp)⟩, fun ended hended => ?_⟩
      · exact hsteps.consistent h.sweeps (.inl hsome)
      · exact hsteps.noHotLoop_iff h.sweeps hended
  | mints action =>
      obtain ⟨rfl, rfl⟩ := Prod.mk.inj (Option.some.inj hstep)
      simp only [Config.step, Option.bind_eq_bind, Option.bind_eq_some_iff] at hconfig
      obtain ⟨⟨canister, round, transfers⟩, hround, hconfig⟩ := hconfig
      obtain rfl := Option.some.inj hconfig
      have hsteps := MintRound.steps_of_step hround
      refine ⟨⟨hsweeps (by simp), fun _ => ?_, hwithdrawals (by simp)⟩, fun ended hended => ?_⟩
      · exact (hsteps.consistent h.mints).2
      · exact hsteps.noHotLoop_iff h.mints hended
  | withdrawals action =>
      obtain ⟨rfl, rfl⟩ := Prod.mk.inj (Option.some.inj hstep)
      simp only [Config.step, Option.bind_eq_bind, Option.bind_eq_some_iff] at hconfig
      obtain ⟨⟨canister, round, requested⟩, hround, hconfig⟩ := hconfig
      obtain rfl := Option.some.inj hconfig
      refine ⟨⟨hsweeps (by simp), hmints (by simp), fun hsome => ?_⟩, fun ended hended => ?_⟩
      · exact WithdrawalRound.step_consistent hround h.withdrawals (.inl hsome)
      · exact WithdrawalRound.noHotLoop_iff hround h.withdrawals hended
  | finalization action =>
      obtain ⟨rfl, rfl⟩ := Prod.mk.inj (Option.some.inj hstep)
      simp only [Config.step, Option.bind_eq_bind, Option.bind_eq_some_iff] at hconfig
      obtain ⟨⟨canister, round⟩, hround, hconfig⟩ := hconfig
      obtain rfl := Option.some.inj hconfig
      refine ⟨⟨hsweeps (by simp), hmints (by simp), hwithdrawals (by simp)⟩, fun ended hended => ?_⟩
      exact FinalizeRound.noHotLoop_iff hround hended
  | _ =>
      obtain ⟨rfl, rfl⟩ := Prod.mk.inj (Option.some.inj hstep)
      refine ⟨⟨hsweeps (by simp), hmints (by simp), hwithdrawals (by simp)⟩, ?_⟩
      exact fun _ hended => absurd hended (Option.not_mem_none _)

theorem Consistent.roundEnds (h : observed.Consistent) {actions : List (Timestamp × Action)} :
    ∀ ended ∈ observed.roundEnds actions, (ended.NoHotLoop ↔ ended.TakesAllOrSigns) := by
  induction actions generalizing observed with
  | nil => simp [Observed.roundEnds]
  | cons entry actions ih =>
      obtain ⟨now, action⟩ := entry
      intro ended hended
      rw [Observed.roundEnds] at hended
      split at hended
      case h_1 observed' ended' hstep =>
        obtain ⟨hnext, hends⟩ := h.step hstep
        rcases List.mem_append.mp hended with hfirst | hrest
        · exact hends ended (Option.mem_toList.mp hfirst)
        · exact ih hnext ended hrest
      case h_2 => cases hended

/-- From any state of the canister, and whatever its calls return: a round that ends without a trap
and recorded no event leaves its task to the regular interval, a round of sweeps exactly when it got no
block, or took all queued deposits, or had a sweep signed. -/
theorem noHotLoop_iff_of_mem_roundEnds (minterId : Principal) (canister : Canister)
    (signRequests : List SignRequest) (transfers : List TransferArg)
    (actions : List (Timestamp × Action)) (ended : RoundEnd)
    (hended : ended ∈ (idle minterId canister signRequests transfers).roundEnds actions) :
    ended.NoHotLoop ↔ ended.TakesAllOrSigns :=
  (consistent_idle minterId canister signRequests transfers).roundEnds ended hended

end Observed

end Rounds

section Sample

attribute [local instance] Solana.sdk

/-- The mint of the sample deposit. -/
def sampleMintRound : List (Timestamp × Action) :=
  [(13, .mints .start), (14, .mints .next), (15, .mints (.reply (.blockIndex 2))),
    (16, .mints .finish)]

/-- A round of each task. -/
theorem noHotLoop_sampleRounds :
    ∃ rounds, Observed.roundEndsFrom sampleMinterId sampleInitArgs 0
        (sampleDeposit ++ sampleMintRound ++ sampleWithdrawal) = some rounds ∧
      rounds.length = 4 ∧ ∀ ended ∈ rounds, ended.NoHotLoop := by
  have hrun : ((Observed.roundEndsFrom sampleMinterId sampleInitArgs 0
      (sampleDeposit ++ sampleMintRound ++ sampleWithdrawal)).any fun rounds =>
        decide (rounds.length = 4 ∧ ∀ ended ∈ rounds, ended.TakesAllOrSigns)) = true := by
    decide +kernel
  obtain ⟨rounds, hrounds, hrun⟩ := (Option.any_eq_true _ _).mp hrun
  obtain ⟨hlength, htakes⟩ := of_decide_eq_true hrun
  obtain ⟨canister, -, rfl⟩ := Option.map_eq_some_iff.mp hrounds
  refine ⟨_, hrounds, hlength, fun ended hended => ?_⟩
  exact (Observed.noHotLoop_iff_of_mem_roundEnds _ _ _ _ _ ended hended).mpr (htakes ended hended)

/-- One deposit more than a round of sweeps takes. -/
def leftOverDeposits : List (Timestamp × Action) :=
  (1, .publicKey ⟨7, 8⟩) :: (List.range (maxDepositsPerRound + 1)).map fun i =>
    (2, .queueDeposit ⟨⟨.single (.ofNat i), none⟩, .ofNat 256 (1000 + i), .sample, none⟩)

/-- A round of sweeps in which no signing succeeds. -/
def unsignedSweepRound : List (Timestamp × Action) :=
  [(3, .sweeps .start), (4, .sweeps (.block (some ⟨100, 1000⟩)))] ++
    List.replicate maxConcurrentRpcCalls (5, .sweeps (.signed 0 none)) ++ [(6, .sweeps .finish)]

/-- Two rounds in a row record nothing, and each sets a timer to run the next one at once. -/
theorem hotLoop_unsignedSweepRound :
    ∃ rounds, Observed.roundEndsFrom sampleMinterId sampleInitArgs 0
        (leftOverDeposits ++ unsignedSweepRound ++ unsignedSweepRound) = some rounds ∧
      rounds.length = 2 ∧ ∀ ended ∈ rounds, ¬ ended.NoHotLoop := by
  have hrun : ((Observed.roundEndsFrom sampleMinterId sampleInitArgs 0
      (leftOverDeposits ++ unsignedSweepRound ++ unsignedSweepRound)).any fun rounds =>
        decide (rounds.length = 2 ∧ ∀ ended ∈ rounds, ¬ ended.NoHotLoop)) = true := by
    decide +kernel
  obtain ⟨rounds, hrounds, hrun⟩ := (Option.any_eq_true _ _).mp hrun
  exact ⟨rounds, hrounds, of_decide_eq_true hrun⟩

end Sample

end Cksol
