import Cksol.Minter.Steps
import Cksol.Solana.Compile
import Cksol.State.Tables

/-! # Runs of the minter

Whatever the tasks do, the canister only ever processes events and changes transient fields, so the
invariants of events hold in every configuration that a run reaches.
-/

namespace Cksol

namespace EventType

/-- The events of `process_pending_withdrawals`. -/
def isWithdrawal : EventType → Bool
  | createdWithdrawalTransaction .. | submittedTransaction _ _ _ (.withdrawal _) => true
  | _ => false

/-- The events of `finalize_transactions`. -/
def isFinalization : EventType → Bool
  | succeededTransaction _ | failedTransaction _ | expiredTransaction _ | creditedSweep ..
  | quarantinedSweep _ => true
  | _ => false

/-- The event of `sweep_queued_deposits`. -/
def isSweep : EventType → Bool
  | submittedTransaction _ _ _ (.sweepDeposit ..) => true
  | _ => false

/-- The events of `process_pending_mints`. -/
def isMint : EventType → Bool
  | mintedSweptDeposit .. | quarantinedPendingMint _ => true
  | _ => false

end EventType

/-- The events that the messages of an action record. -/
def Action.Records (action : Action) (payload : EventType) : Prop :=
  match action with
  | .burned _ (.blockIndex blockIndex) =>
      ∃ request, payload = .acceptedWithdrawalRequest request ∧ request.burnBlockIndex = blockIndex
  | .balance .. | .queueDeposit _ => ∃ depositId deposit, payload = .queuedDeposit depositId deposit
  | .publicKey key => payload = .minterPublicKeyFetched key
  | .withdrawals _ => payload.isWithdrawal
  | .finalization _ => payload.isFinalization
  | .sweeps _ => payload.isSweep
  | .mints _ => payload.isMint
  | .upgrade (some args) => payload = .upgrade args
  | _ => False

/-- The actions that record an event. -/
def EventType.RecordedBy (payload : EventType) (action : Action) : Prop :=
  match payload with
  | .init _ => False
  | .upgrade args => action = .upgrade (some args)
  | .acceptedWithdrawalRequest request =>
      ∃ position, action = .burned position (.blockIndex request.burnBlockIndex)
  | .queuedDeposit .. =>
      (∃ position reply refundedCycles acceptedCycles,
        action = .balance position reply refundedCycles acceptedCycles) ∨
      ∃ deposit, action = .queueDeposit deposit
  | .minterPublicKeyFetched key => action = .publicKey key
  | .createdWithdrawalTransaction .. | .submittedTransaction _ _ _ (.withdrawal _) =>
      ∃ step, action = .withdrawals step
  | .submittedTransaction _ _ _ (.sweepDeposit ..) => ∃ step, action = .sweeps step
  | .succeededTransaction _ | .failedTransaction _ | .expiredTransaction _ | .creditedSweep ..
  | .quarantinedSweep _ => ∃ step, action = .finalization step
  | .mintedSweptDeposit .. | .quarantinedPendingMint _ => ∃ step, action = .mints step

/-- The event tells which action recorded it. -/
theorem Action.Records.recordedBy {action : Action} {payload : EventType}
    (h : action.Records payload) : payload.RecordedBy action := by
  unfold Action.Records at h
  split at h
  case h_1 =>
    obtain ⟨request, rfl, rfl⟩ := h
    exact ⟨_, rfl⟩
  case h_2 =>
    obtain ⟨depositId, deposit, rfl⟩ := h
    exact .inl ⟨_, _, _, _, rfl⟩
  case h_3 =>
    obtain ⟨depositId, deposit, rfl⟩ := h
    exact .inr ⟨_, rfl⟩
  case h_4 =>
    subst h
    rfl
  case h_9 =>
    subst h
    rfl
  case h_10 => cases h
  -- the events of the tasks
  all_goals
    simp only [EventType.isWithdrawal, EventType.isFinalization, EventType.isSweep,
      EventType.isMint] at h
    split at h <;> first | exact ⟨_, rfl⟩ | cases h

theorem EventType.RecordedBy.finalization {action : Action} {payload : EventType}
    (h : payload.RecordedBy action) (hkind : payload.isFinalization) :
    ∃ step, action = .finalization step := by
  cases payload with
  | succeededTransaction | failedTransaction | expiredTransaction | creditedSweep
  | quarantinedSweep => exact h
  | _ => cases hkind

section Runs

variable [SolanaSdk] {payload : EventType}

namespace Canister

variable {Emits Emits' : State → Timestamp → EventType → Prop} {canister canister' : Canister}

/-- Events of the given kind, in any state. -/
def Only (kind : EventType → Bool) : State → Timestamp → EventType → Prop :=
  fun _ _ payload => kind payload

theorem Run.mono (h : Run Emits canister canister')
    (himp : ∀ state now payload, Emits state now payload → Emits' state now payload) :
    Run Emits' canister canister' := by
  induction h with
  | refl => exact .refl
  | tail _ hstep ih =>
      cases hstep with
      | event hemits h => exact ih.trans (Run.event h (himp _ _ _ hemits))
      | transient transient => exact ih.trans (Run.transient _ transient)

/-- A run appends events that were admitted. -/
theorem Run.log_append (h : Run Emits canister canister') :
    ∃ new, canister'.log = canister.log ++ new ∧
      ∀ event ∈ new, ∃ state, Emits state event.timestamp event.payload := by
  induction h with
  | refl => exact ⟨[], (List.append_nil _).symm, by simp⟩
  | tail _ hstep ih =>
      obtain ⟨new, hlog, hnew⟩ := ih
      cases hstep with
      | event hemits h =>
          obtain ⟨state, -, rfl⟩ := processEvent_eq_ok.mp h
          refine ⟨new ++ [_], by rw [hlog, List.append_assoc], ?_⟩
          intro event hevent
          rcases List.mem_append.mp hevent with hold | hlast
          · exact hnew event hold
          · obtain rfl := List.mem_singleton.mp hlast
            exact ⟨_, hemits⟩
      | transient => exact ⟨new, hlog, hnew⟩

/-- An event is an old one, or one that the run admits. -/
theorem Run.mem_log (h : Run Emits canister canister') {event : Event} (hmem : event ∈ canister'.log) :
    event ∈ canister.log ∨ ∃ state, Emits state event.timestamp event.payload := by
  obtain ⟨new, hlog, hnew⟩ := h.log_append
  rw [hlog] at hmem
  exact (List.mem_append.mp hmem).imp_right (hnew event)

/-- An event that a run does not admit is an old one. -/
theorem Run.mem_log_of_not (h : Run Emits canister canister') {timestamp : Timestamp}
    {payload : EventType} (hemits : ∀ state t, ¬ Emits state t payload)
    (hmem : ⟨timestamp, payload⟩ ∈ canister'.log) : ⟨timestamp, payload⟩ ∈ canister.log :=
  (h.mem_log hmem).resolve_right fun ⟨state, hstate⟩ => hemits state timestamp hstate

theorem Run.updateTransient {f : State.Transient → State.Transient}
    (h : canister' = canister.updateTransient f) : Run Emits canister canister' := by
  rw [h]
  exact .transient canister _

theorem Run.startTask {task : TaskType} (h : canister.startTask task = some canister') :
    Run Emits canister canister' :=
  .updateTransient (startTask_eq_some h)

theorem Run.endTask (task : TaskType) : Run Emits canister (canister.endTask task) :=
  .updateTransient rfl

theorem Run.dropWithdrawalGuard (account : Account) :
    Run Emits canister (canister.dropWithdrawalGuard account) :=
  .updateTransient rfl

theorem Run.dropDepositSolGuard (account : Account) :
    Run Emits canister (canister.dropDepositSolGuard account) :=
  .updateTransient rfl

/-- The events of one message, in their order, while a condition on the state lasts. -/
theorem Run.processEvents_while (P : State → Prop) {payloads : List EventType} {now : Timestamp}
    (hemits : ∀ payload ∈ payloads, ∀ state state', P state → state.Effect now payload state' →
      Emits state now payload)
    (hlasts : ∀ payload ∈ payloads, ∀ state state', P state → state.Effect now payload state' →
      P state') (hstate : P canister.state)
    (h : canister.processEvents payloads now = .ok canister') : Run Emits canister canister' := by
  induction payloads generalizing canister with
  | nil =>
      obtain rfl := Except.ok.inj h
      exact .refl
  | cons payload payloads ih =>
      simp only [Canister.processEvents, List.foldlM_cons, bind_eq_ok] at h
      obtain ⟨middle, hevent, hrest⟩ := h
      obtain ⟨state, happly, hmiddle⟩ := processEvent_eq_ok.mp hevent
      have heffect := State.effect_of_apply happly
      have hfirst := hemits payload List.mem_cons_self _ _ hstate heffect
      have hstate' : P middle.state := by
        rw [hmiddle]
        exact hlasts payload List.mem_cons_self _ _ hstate heffect
      have hlast := ih (fun p hp => hemits p (List.mem_cons_of_mem _ hp))
        (fun p hp => hlasts p (List.mem_cons_of_mem _ hp)) hstate' hrest
      exact (Run.event hevent hfirst).trans hlast

/-- The events of one message, in their order. -/
theorem Run.processEvents {payloads : List EventType} {now : Timestamp}
    (hemits : ∀ payload ∈ payloads, ∀ state, Emits state now payload)
    (h : canister.processEvents payloads now = .ok canister') : Run Emits canister canister' :=
  .processEvents_while (fun _ => True) (fun payload hp state _ _ _ => hemits payload hp state)
    (fun _ _ _ _ _ _ => trivial) trivial h

end Canister

open Canister (Run Only)

/-! ## The rounds -/

theorem WithdrawalRound.Steps.run {canister canister' : Canister} {now : Timestamp}
    {round round' : Option WithdrawalRound} {action : WithdrawalAction}
    {requested : List BoundWithdrawal}
    (h : WithdrawalRound.Steps canister now round action (canister', round', requested)) :
    Run (Only EventType.isWithdrawal) canister canister' := by
  cases h with
  | start hstart hkey => exact .startTask hstart
  | created hbatch hread hunseen hbuild hevent => exact .event hevent rfl
  | signed hwithdrawal hevent => exact .event hevent rfl
  | ended => exact .endTask _
  | _ => exact .refl

omit [SolanaSdk] in
theorem isFinalization_of_mem_sweepStatusEvents {transactions : OrdMap Signature BlockHeight}
    {currentBlockHeight : Option BlockHeight}
    {replies : List (Option (List (Option SignatureStatus)))}
    (h : payload ∈ sweepStatusEvents transactions currentBlockHeight replies) :
    payload.isFinalization := by
  simp only [sweepStatusEvents, List.mem_append, List.mem_map] at h
  rcases h with (⟨signature, -, rfl⟩ | ⟨signature, -, rfl⟩) | ⟨signature, -, rfl⟩ <;> rfl

omit [SolanaSdk] in
theorem isFinalization_of_landedWithdrawalEvent {withdrawal : InFlightWithdrawal}
    {reply : Option Sweep.FetchedTransaction}
    (h : landedWithdrawalEvent withdrawal reply = some payload) : payload.isFinalization := by
  unfold landedWithdrawalEvent at h
  split at h
  · cases h
  · split at h
    · cases h
    · split at h
      · obtain rfl := Option.some.inj h
        rfl
      · obtain rfl := Option.some.inj h
        rfl
      · cases h

theorem creditEvent_eq_some {signature : Signature} {sweep : Sweep}
    {reply : Option Sweep.FetchedTransaction} (h : creditEvent signature sweep reply = some payload) :
    (∃ fetched settled, reply = some fetched ∧ sweep.settle fetched = .ok settled ∧
      payload = .creditedSweep signature settled.amountReceived settled.mints) ∨
      payload = .quarantinedSweep signature := by
  unfold creditEvent at h
  split at h
  · cases h
  case h_2 fetched =>
    split at h
    case h_1 settled hsettle =>
      exact .inl ⟨fetched, settled, rfl, hsettle, (Option.some.inj h).symm⟩
    case h_2 => cases h
    case h_3 => exact .inr (Option.some.inj h).symm

theorem mem_creditEvents {round : List (Signature × Sweep)}
    {replies : List (Option Sweep.FetchedTransaction)} (h : payload ∈ creditEvents round replies) :
    ∃ entry ∈ round, ∃ reply, creditEvent entry.1 entry.2 reply = some payload := by
  simp only [creditEvents, List.mem_filterMap] at h
  obtain ⟨⟨entry, reply⟩, hmem, hpayload⟩ := h
  exact ⟨entry, (List.of_mem_zip hmem).1, reply, hpayload⟩

theorem FinalizeRound.Steps.run {canister canister' : Canister} {now : Timestamp}
    {round round' : Option FinalizeRound} {action : FinalizeAction}
    (h : FinalizeRound.Steps canister now round action (canister', round')) :
    Run (Only EventType.isFinalization) canister canister' := by
  cases h with
  | startReading hstart => exact .startTask hstart
  | startChecking hstart => exact .startTask hstart
  | checked hevents =>
      exact .processEvents (fun _ hp _ => isFinalization_of_mem_sweepStatusEvents hp) hevents
  | landed hwithdrawal hpayload hevent =>
      exact .event hevent (isFinalization_of_landedWithdrawalEvent hpayload)
  | credited hevents =>
      refine (Run.processEvents ?_ hevents).trans (Run.endTask _)
      intro payload hp _
      obtain ⟨entry, -, reply, hpayload⟩ := mem_creditEvents hp
      rcases creditEvent_eq_some hpayload with ⟨_, _, _, _, rfl⟩ | rfl <;> rfl
  | ended => exact .endTask _
  | _ => exact .refl

theorem SweepRound.Steps.run {canister canister' : Canister} {now : Timestamp}
    {round round' : Option SweepRound} {action : SweepAction} {planned : List PlannedSweep}
    (h : SweepRound.Steps canister now round action (canister', round', planned)) :
    Run (Only EventType.isSweep) canister canister' := by
  cases h with
  | start hstart hkey => exact .startTask hstart
  | signed hsweep hevent => exact .event hevent rfl
  | ended => exact .endTask _
  | _ => exact .refl

theorem MintRound.Steps.run {canister canister' : Canister} {calls : ℕ} {now : Timestamp}
    {round round' : Option MintRound} {action : MintAction} {transfers : List TransferArg}
    (h : MintRound.Steps canister calls now round action (canister', round', transfers)) :
    Run (Only EventType.isMint) canister canister' := by
  cases h with
  | start hstart => exact .startTask hstart
  | expired hexpired hevent => exact .event hevent rfl
  | minted hreply hindex hevent => exact .event hevent rfl
  | rejected hreply hevent => exact .event hevent rfl
  | quarantinedOnTrap hevent => exact (Run.event hevent rfl).trans (Run.endTask _)
  | ended => exact .endTask _
  | _ => exact .refl

/-! ## The minter -/

theorem Canister.Run.postUpgrade {canister canister' : Canister} {args : Option UpgradeArgs}
    {now : Timestamp} (hreplay : canister.Replayable)
    (h : canister.postUpgrade args now = .ok canister') :
    Run (fun _ _ => (Action.upgrade args).Records) canister canister' := by
  rcases Canister.postUpgrade_eq_ok hreplay h with ⟨-, rfl⟩ | ⟨upgradeArgs, rfl, hevent⟩
  · exact .transient canister .initial
  · exact (Run.transient canister .initial).trans (Run.event hevent rfl)

theorem withdraw_eq_ok {canister canister' : Canister} {account : Account} {amountToBurn : Lamport}
    {address : String} {call : WithdrawCall}
    (h : withdraw canister account amountToBurn address = .ok (canister', call)) :
    canister.state.minimumWithdrawalAmount ≤ amountToBurn ∧ call.amountToBurn = amountToBurn ∧
      call.account = account ∧
      validateDestination canister.state call.solanaAddress = .ok ⟨⟩ ∧
      ∃ guards, canister' = canister.updateTransient fun transient =>
        { transient with withdrawalGuards := guards } := by
  simp only [withdraw, bind_eq_ok, check_eq_ok, mapError_eq_ok, pure_eq_ok, Prod.mk.injEq] at h
  obtain ⟨⟨⟩, hmin, address, -, ⟨⟩, hvalid, ⟨⟩, -, guards, -, rfl, rfl⟩ := h
  exact ⟨hmin, rfl, rfl, hvalid, guards, rfl⟩

theorem depositSol_eq_ok {canister canister' : Canister} {minterId : Principal} {account : Account}
    {availableCycles : ℕ} {call : DepositSolCall}
    (h : depositSol canister minterId account availableCycles = .ok (.awaitsBalance canister' call)) :
    (call.account = account ∧ call.depositSolFee = canister.state.depositSolFee ∧
      call.minimumDepositAmount = canister.state.minimumDepositAmount) ∧
      checkDepositSol canister.state account availableCycles = .ok (.ok none) ∧
      ∃ guards, Guard.new canister.state.pendingDepositSolRequestGuards account = .ok guards ∧
        canister' = canister.updateTransient fun transient =>
          { transient with depositSolGuards := guards } := by
  simp only [depositSol, bind_eq_ok] at h
  obtain ⟨⟨⟩, -, h⟩ := h
  split at h
  · cases pure_eq_ok.mp h
  case h_2 guards hguards =>
    simp only [bind_eq_ok] at h
    obtain ⟨checked, hchecked, h⟩ := h
    split at h
    · cases pure_eq_ok.mp h
    · cases pure_eq_ok.mp h
    · split at h
      · cases pure_eq_ok.mp h
      · have heq := pure_eq_ok.mp h
        injection heq with hcanister hcall
        subst hcanister hcall
        exact ⟨⟨rfl, rfl, rfl⟩, hchecked, guards, hguards, rfl⟩

/-- A message of the minter is a run of its canister with the events of its action, or an upgrade. -/
theorem Config.Steps.run_or_upgraded {config config' : Config} {now : Timestamp} {action : Action}
    (h : config.Steps now action config') :
    Run (fun _ _ => action.Records) config.canister config'.canister ∨
      ∃ args canister, action = .upgrade args ∧
        config.canister.postUpgrade args now = .ok canister ∧
        config' = idle config.minterId canister config.signRequests config.transfers := by
  cases h with
  | unchanged => exact .inl .refl
  | withdrawStarted hwithdraw =>
      obtain ⟨-, -, -, -, guards, hguards⟩ := withdraw_eq_ok hwithdraw
      exact .inl (.updateTransient hguards)
  | burned hcall hindex hamount hevent =>
      exact .inl ((Run.event hevent ⟨_, rfl, rfl⟩).trans (Run.dropWithdrawalGuard _))
  | withdrawEnded => exact .inl (Run.dropWithdrawalGuard _)
  | depositSolStarted hdeposit =>
      obtain ⟨-, -, guards, -, hguards⟩ := depositSol_eq_ok hdeposit
      exact .inl (.updateTransient hguards)
  | deposited hcall hbalance hevent =>
      exact .inl ((Run.event hevent ⟨_, _, rfl⟩).trans (Run.dropDepositSolGuard _))
  | depositSolEnded => exact .inl (Run.dropDepositSolGuard _)
  | watched => exact .inl (.transient config.canister _)
  | queued hevent => exact .inl (.event hevent ⟨_, _, rfl⟩)
  | keyFetched hnone hevent => exact .inl (.event hevent rfl)
  | withdrawals hsteps => exact .inl hsteps.run
  | finalization hsteps => exact .inl hsteps.run
  | sweeps hsteps => exact .inl hsteps.run
  | mints hsteps => exact .inl hsteps.run
  | upgraded hupgrade => exact .inr ⟨_, _, rfl, hupgrade, rfl⟩

/-- Every message of the minter is a run of its canister, with the events of its action. -/
theorem Config.Steps.run {config config' : Config} {now : Timestamp} {action : Action}
    (hreplay : config.canister.Replayable) (h : config.Steps now action config') :
    Run (fun _ _ => action.Records) config.canister config'.canister := by
  rcases h.run_or_upgraded with hrun | ⟨args, canister, rfl, hupgrade, rfl⟩
  · exact hrun
  · exact .postUpgrade hreplay hupgrade

namespace Config

variable {config config' : Config}

/-- Run rule: an invariant of the actions taken and the configuration, kept by every step. -/
theorem run_invariant (P : List (Timestamp × Action) → Config → Prop)
    {actions : List (Timestamp × Action)} (hinit : P [] config)
    (hstep : ∀ done config now action config', P done config → config.Steps now action config' →
      P (done ++ [(now, action)]) config')
    (h : config.run actions = some config') : P actions config' :=
  Machine.run_induction P hinit (fun done config entry config' hP hlast =>
    hstep done config entry.1 entry.2 config' hP (steps_of_step hlast)) h

/-- What holds of the canister in every configuration that a run reaches. -/
structure Wellformed (config : Config) : Prop where
  replayable : config.canister.Replayable
  tables : config.canister.Tables

theorem wellformed_of_init {minterId : Principal} {args : InitArgs} {now : Timestamp}
    (h : init minterId args now = .ok config) : config.Wellformed := by
  obtain ⟨canister, hcanister, rfl⟩ := init_eq_ok.mp h
  exact ⟨Canister.replayable_of_init hcanister, .of_init hcanister⟩

theorem Wellformed.steps {now : Timestamp} {action : Action} (h : config.Wellformed)
    (hsteps : config.Steps now action config') : config'.Wellformed := by
  have hrun := hsteps.run h.replayable
  exact ⟨h.replayable.run hrun, h.tables.run hrun⟩

/-- A run of the minter is a run of its canister. -/
theorem run_canister {actions : List (Timestamp × Action)} (hwellformed : config.Wellformed)
    (h : config.run actions = some config') :
    Run (fun _ _ payload => ∃ entry ∈ actions, entry.2.Records payload) config.canister
      config'.canister := by
  refine (run_invariant (fun done reached => reached.Wellformed ∧
    Run (fun _ _ payload => ∃ entry ∈ done, entry.2.Records payload) config.canister
      reached.canister) ⟨hwellformed, .refl⟩ ?_ h).2
  rintro done reached now action reached' ⟨hreached, hrun⟩ hsteps
  refine ⟨hreached.steps hsteps, (hrun.mono ?_).trans ((hsteps.run hreached.replayable).mono ?_)⟩
  · rintro state t payload ⟨entry, hentry, hrecords⟩
    exact ⟨entry, List.mem_append_left _ hentry, hrecords⟩
  · intro state t payload hrecords
    exact ⟨_, List.mem_append_right _ (List.mem_singleton_self _), hrecords⟩

variable {minterId : Principal} {args : InitArgs} {now : Timestamp}
  {actions later : List (Timestamp × Action)}

theorem runFrom_eq_some :
    runFrom minterId args now actions = some config ↔
      ∃ initial, init minterId args now = .ok initial ∧ initial.run actions = some config := by
  simp only [runFrom, Machine.runFrom, Option.bind_eq_some_iff, toOption_eq_some, run]

theorem runFrom_append (h : runFrom minterId args now actions = some config)
    (hlater : config.run later = some config') :
    runFrom minterId args now (actions ++ later) = some config' :=
  (Machine.runFrom_append h).trans hlater

/-- Run rule for a property of the actions as well: the run up to each step is at hand. -/
theorem runFrom_induction (P : List (Timestamp × Action) → Config → Prop)
    (hinit : ∀ config, init minterId args now = .ok config → P [] config)
    (hstep : ∀ done config t action config', runFrom minterId args now done = some config →
      P done config → config.Steps t action config' → P (done ++ [(t, action)]) config')
    (h : runFrom minterId args now actions = some config) : P actions config :=
  Machine.runFrom_induction P (fun config hconfig => hinit config (toOption_eq_some.mp hconfig))
    (fun done config entry config' hdone hP hlast =>
      hstep done config entry.1 entry.2 config' hdone hP (steps_of_step hlast)) h

theorem wellformed_of_run (h : runFrom minterId args now actions = some config) :
    config.Wellformed :=
  runFrom_induction (fun _ config => config.Wellformed) (fun _ hinit => wellformed_of_init hinit)
    (fun _ _ _ _ _ _ hwellformed hsteps => hwellformed.steps hsteps) h

/-- Run rule from the installation of the canister, where the tables are available at every step. -/
theorem runFrom_invariant (P : List (Timestamp × Action) → Config → Prop)
    (hinit : ∀ config, init minterId args now = .ok config → P [] config)
    (hstep : ∀ done config now action config', config.Wellformed → P done config →
      config.Steps now action config' → P (done ++ [(now, action)]) config')
    (h : runFrom minterId args now actions = some config) :
    config.Wellformed ∧ P actions config :=
  ⟨wellformed_of_run h, runFrom_induction P hinit (fun done config t action config' hdone hP =>
    hstep done config t action config' (wellformed_of_run hdone) hP) h⟩

/-- Run rule on the messages themselves, for what their relation `Steps` leaves open. -/
theorem runFrom_step_invariant (P : Config → Prop)
    (hinit : ∀ config, init minterId args now = .ok config → P config)
    (hstep : ∀ config t action config', (t, action) ∈ actions → config.Wellformed → P config →
      config.step t action = some config' → P config')
    (h : runFrom minterId args now actions = some config) : P config := by
  refine Machine.runFrom_induction (fun done config => done ⊆ actions → P config) ?_ ?_ h
    (List.Subset.refl _)
  · intro config hconfig _
    exact hinit config (toOption_eq_some.mp hconfig)
  · intro done config entry config' hdone hP hlast hsubset
    obtain ⟨hbefore, hentry⟩ := List.append_subset.mp hsubset
    exact hstep config entry.1 entry.2 config' (hentry (List.mem_singleton_self _))
      (wellformed_of_run hdone) (hP hbefore) hlast

end Config

/-! ## The tables of a reachable state -/

open NonceReference (RefersTo)

/-- The pool, the transactions and the requests agree with each other and with the log. -/
structure Canister.TablesAgree (log : List Event) (state : State) : Prop where
  /-- An account is bound exactly when one created transaction or one submitted withdrawal refers to
  it. -/
  bound_iff : ∀ account : Address,
    (∃ seen, state.noncePool.accounts[account]? = some ⟨.bound, seen⟩) ↔
      ∃! reference, RefersTo state.createdWithdrawalTxs state.submittedTransactions account reference
  /-- The value of a referring transaction is in the seen set of the account. -/
  value_seen : ∀ (account : Address) reference,
    RefersTo state.createdWithdrawalTxs state.submittedTransactions account reference →
    ∃ nonceAccount, state.noncePool.accounts[account]? = some nonceAccount ∧
      reference.nonceValue ∈ nonceAccount.seenNonceValues
  /-- The created requests are the union of the burn indices of the created transactions. -/
  created_iff : ∀ i, i ∈ state.createdWithdrawalRequests ↔
    ∃ (account : Address) (transaction : CreatedWithdrawalTransaction),
      state.createdWithdrawalTxs[account]? = some transaction ∧ i ∈ transaction.burnIndices
  /-- That union is disjoint. -/
  created_disjoint : ∀ (account account' : Address) transaction transaction' i,
    state.createdWithdrawalTxs[account]? = some transaction →
    state.createdWithdrawalTxs[account']? = some transaction' →
    i ∈ transaction.burnIndices → i ∈ transaction'.burnIndices → account = account'
  created_nodup : ∀ (account : Address) transaction,
    state.createdWithdrawalTxs[account]? = some transaction → transaction.burnIndices.Nodup
  /-- The signature of a sent request is that of a submitted withdrawal. -/
  sent_submitted : ∀ (i : LedgerBurnIndex) request, state.sentWithdrawalRequests[i]? = some request →
    IsWithdrawal state.submittedTransactions request.signature
  /-- A submitted withdrawal was recorded with its batch, and serves a sent request unless the batch
  is empty. -/
  submitted_serves : ∀ signature, IsWithdrawal state.submittedTransactions signature →
    (∃ burnIndices, Submits log signature burnIndices) ∧
      ∀ burnIndices, Submits log signature burnIndices → burnIndices ≠ [] →
        ∃ (i : LedgerBurnIndex) (request : SentWithdrawalRequest),
          i ∈ burnIndices ∧ state.sentWithdrawalRequests[i]? = some request ∧
            request.signature = signature
  /-- The submitted sweeps are the swept ones. -/
  swept_iff : ∀ signature,
    (∃ blockHeight, state.submittedTransactions.get signature = some (.sweepDeposit blockHeight)) ↔
      signature ∈ state.deposits.swept.bySignature
  submitted_not_succeeded : ∀ signature transaction,
    state.submittedTransactions.get signature = some transaction →
    signature ∉ state.succeededTransactions
  submitted_not_failed : ∀ signature transaction,
    state.submittedTransactions.get signature = some transaction →
    state.failedTransactions.get signature = none
  succeeded_not_failed : ∀ signature ∈ state.succeededTransactions,
    state.failedTransactions.get signature = none

omit [SolanaSdk] in
/-- The agreement of the tables, field by field from their invariants. -/
theorem Canister.Tables.agree {canister : Canister} (h : canister.Tables) :
    TablesAgree canister.log canister.state where
  bound_iff account := by
    constructor
    · rintro ⟨seen, hbound⟩
      obtain ⟨reference, hrefers⟩ := h.nonces.referred hbound
      exact ⟨reference, hrefers, fun other hother => h.nonces.unique hother hrefers⟩
    · rintro ⟨reference, hrefers, -⟩
      obtain ⟨seen, hbound, -⟩ := h.nonces.bound hrefers
      exact ⟨seen, hbound⟩
  value_seen account reference hrefers := by
    obtain ⟨seen, hbound, hvalue⟩ := h.nonces.bound hrefers
    exact ⟨_, hbound, hvalue⟩
  created_iff i := by
    rw [OrdMap.mem_iff_exists]
    constructor
    · rintro ⟨request, hrequest⟩
      exact h.requests.covered hrequest
    · rintro ⟨account, transaction, htransaction, hmem⟩
      exact h.requests.present htransaction i hmem
  created_disjoint _ _ _ _ _ htx htx' := h.requests.disjoint htx htx'
  created_nodup _ _ htx := h.requests.nodup htx
  sent_submitted _ _ hrequest := h.sent.submitted hrequest
  submitted_serves signature hwithdrawal := by
    refine ⟨h.sent.recorded hwithdrawal, fun burnIndices hsubmits hnonempty => ?_⟩
    obtain ⟨i, hi⟩ := List.exists_mem_of_ne_nil burnIndices hnonempty
    obtain ⟨request, hrequest, hsignature⟩ := h.sent.served hsubmits hwithdrawal i hi
    exact ⟨i, request, hi, hrequest, hsignature⟩
  swept_iff signature := by
    rw [OrdMap.mem_iff_exists]
    exact h.sweeps signature
  submitted_not_succeeded _ _ hget := h.signatures.not_succeeded hget
  submitted_not_failed _ _ hget := h.signatures.not_failed hget
  succeeded_not_failed _ hmem := h.signatures.disjoint hmem

namespace Config

/-- In every reachable state the tables agree, and from there on the pool and every seen set only
grow. -/
theorem tablesAgree_of_run {minterId : Principal} {args : InitArgs} {now : Timestamp}
    {actions : List (Timestamp × Action)} {config : Config}
    (h : runFrom minterId args now actions = some config) :
    Canister.TablesAgree config.canister.log config.canister.state ∧
      ∀ later config', config.run later = some config' →
        config.canister.state.noncePool.Grows config'.canister.state.noncePool := by
  have hwellformed := wellformed_of_run h
  exact ⟨hwellformed.tables.agree, fun later config' hlater => (run_canister hwellformed hlater).grows⟩

end Config

end Runs

section Sample

attribute [local instance] Solana.sdk

def sampleMinterId : Principal := .single 3

def sampleAccount : Account := ⟨.single 9, none⟩

/-- The deposit address of the sample account. -/
def sampleDepositAddress : Address :=
  Solana.deriveSubkey Solana.productionKey Solana.productionChainCode (derivationPath sampleAccount)

/-- The key is fetched, and a deposit is queued, swept, finalized and credited. -/
def sampleDeposit : List (Timestamp × Action) :=
  let message := SolanaSdk.newWithBlockhash [SolanaSdk.transfer 11 7 29_104_120] (some 11) 100
  [(1, .publicKey ⟨7, 8⟩),
    (2, .queueDeposit ⟨sampleAccount, 11, .sample, none⟩),
    (3, .sweeps .start), (4, .sweeps (.block (some ⟨100, 1000⟩))),
    (5, .sweeps (.signed 0 (some 5))), (6, .sweeps .finish),
    (7, .finalization .start), (8, .finalization (.block (some 1001))),
    (9, .finalization (.statuses [some [some ⟨true, none⟩]])),
    (10, .finalization .fetchLanded), (11, .finalization .fetchFinalized),
    (12, .finalization (.finalized [some ⟨.legacy message, some
      ⟨none, 5_000, [30_000_000, 0, 1], [890_880, 29_104_120, 1]⟩⟩]))]

/-- A withdrawal is accepted, created, signed and submitted. -/
def sampleWithdrawal : List (Timestamp × Action) :=
  [(20, .withdraw sampleAccount 2_000_000 "11111111111111111111111111111116"),
    (21, .burned 0 (.blockIndex 3)),
    (22, .withdrawals .start), (23, .withdrawals (.nonceRead 0 (some ⟨7, 77⟩))),
    (24, .withdrawals .requestSignatures), (25, .withdrawals (.signed 0 (some 6))),
    (26, .withdrawals .finish)]

theorem Config.tablesAgree_sampleWithdrawal :
    ∃ config, runFrom sampleMinterId sampleInitArgs 0 (sampleDeposit ++ sampleWithdrawal) =
        some config ∧ Canister.TablesAgree config.canister.log config.canister.state := by
  have hsome : (runFrom sampleMinterId sampleInitArgs 0
      (sampleDeposit ++ sampleWithdrawal)).isSome = true := by decide +kernel
  obtain ⟨config, hrun⟩ := Option.isSome_iff_exists.mp hsome
  exact ⟨config, hrun, (tablesAgree_of_run hrun).1⟩

end Sample

end Cksol
