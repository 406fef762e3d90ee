import Cksol.Minter.Runs

/-! # Guards of the timer tasks

The guard of a task is held from the start of a round to its end, so a second round of the task does not
start while one is in progress.
-/

namespace Cksol

open Std Canister

section Guards

variable [SolanaSdk] {canister canister' : Canister} {now : Timestamp} {task other : TaskType}

theorem activeTasks_of_processEvent {payload : EventType}
    (h : canister.processEvent payload now = .ok canister') :
    canister'.state.activeTasks = canister.state.activeTasks := by
  obtain ⟨state, happly, rfl⟩ := processEvent_eq_ok.mp h
  cases State.effect_of_apply happly <;> rfl

theorem activeTasks_of_processEvents {payloads : List EventType}
    (h : canister.processEvents payloads now = .ok canister') :
    canister'.state.activeTasks = canister.state.activeTasks := by
  induction payloads generalizing canister with
  | nil => rw [Except.ok.inj h]
  | cons payload payloads ih =>
      rw [processEvents, List.foldlM_cons, bind_eq_ok] at h
      obtain ⟨middle, hevent, h⟩ := h
      rw [ih h, activeTasks_of_processEvent hevent]

/-- What a message of a round does to the guards: that of its task is held while the round lasts, and
the others stay. -/
structure KeepsGuards (task : TaskType) (canister canister' : Canister) (before after : Bool) :
    Prop where
  own : (before → task ∈ canister.state.activeTasks) → after → task ∈ canister'.state.activeTasks
  others : ∀ other, other ≠ task → other ∈ canister.state.activeTasks →
    other ∈ canister'.state.activeTasks

namespace KeepsGuards

variable {before after : Bool}

omit [SolanaSdk] in
theorem of_same (h : canister'.state.activeTasks = canister.state.activeTasks)
    (hbefore : after → before) : KeepsGuards task canister canister' before after := by
  constructor
  · intro hactive hafter
    rw [h]
    exact hactive (hbefore hafter)
  · intro other _ hother
    rw [h]
    exact hother

omit [SolanaSdk] in
theorem of_startTask (h : canister.startTask task = some canister') :
    KeepsGuards task canister canister' before after := by
  rw [startTask_eq_some h]
  exact ⟨fun _ _ => List.mem_cons_self, fun _ _ => List.mem_cons_of_mem _⟩

omit [SolanaSdk] in
theorem of_endTask (h : canister'.state.activeTasks = canister.state.activeTasks) :
    KeepsGuards task canister (canister'.endTask task) before false := by
  refine ⟨nofun, fun other hne hother => ?_⟩
  have hmem : other ∈ canister'.state.activeTasks.filter (· ≠ task) :=
    List.mem_filter.mpr ⟨h ▸ hother, decide_eq_true hne⟩
  exact hmem

end KeepsGuards

theorem WithdrawalRound.Steps.keepsGuards {round round' : Option WithdrawalRound}
    {action : WithdrawalAction} {requested : List BoundWithdrawal}
    (h : WithdrawalRound.Steps canister now round action (canister', round', requested)) :
    KeepsGuards .withdrawalProcessing canister canister' round.isSome round'.isSome := by
  cases h with
  | start hstart => exact .of_startTask hstart
  | created hbatch hread hunseen hbuild hevent =>
      exact .of_same (activeTasks_of_processEvent hevent) fun _ => rfl
  | signed hwithdrawal hevent => exact .of_same (activeTasks_of_processEvent hevent) fun _ => rfl
  | ended => exact .of_endTask rfl
  | _ => exact .of_same rfl fun _ => rfl

theorem FinalizeRound.Steps.keepsGuards {round round' : Option FinalizeRound}
    {action : FinalizeAction}
    (h : FinalizeRound.Steps canister now round action (canister', round')) :
    KeepsGuards .finalizeTransactions canister canister' round.isSome round'.isSome := by
  cases h with
  | startReading hstart | startChecking hstart => exact .of_startTask hstart
  | checked hevents => exact .of_same (activeTasks_of_processEvents hevents) fun _ => rfl
  | landed hwithdrawal hpayload hevent =>
      exact .of_same (activeTasks_of_processEvent hevent) fun _ => rfl
  | credited hevents => exact .of_endTask (activeTasks_of_processEvents hevents)
  | ended => exact .of_endTask rfl
  | _ => exact .of_same rfl fun _ => rfl

theorem SweepRound.Steps.keepsGuards {round round' : Option SweepRound} {action : SweepAction}
    {planned : List PlannedSweep}
    (h : SweepRound.Steps canister now round action (canister', round', planned)) :
    KeepsGuards .sweepDeposits canister canister' round.isSome round'.isSome := by
  cases h with
  | start hstart => exact .of_startTask hstart
  | signed hsweep hevent => exact .of_same (activeTasks_of_processEvent hevent) fun _ => rfl
  | ended => exact .of_endTask rfl
  | _ => exact .of_same rfl fun _ => rfl

theorem MintRound.Steps.keepsGuards {calls : ℕ} {round round' : Option MintRound}
    {action : MintAction} {transfers : List TransferArg}
    (h : MintRound.Steps canister calls now round action (canister', round', transfers)) :
    KeepsGuards .mint canister canister' round.isSome round'.isSome := by
  cases h with
  | start hstart => exact .of_startTask hstart
  | expired hexpired hevent => exact .of_same (activeTasks_of_processEvent hevent) fun _ => rfl
  | minted hreply hindex hevent => exact .of_same (activeTasks_of_processEvent hevent) fun _ => rfl
  | rejected hreply hevent => exact .of_same (activeTasks_of_processEvent hevent) fun _ => rfl
  | quarantinedOnTrap hevent => exact .of_endTask (activeTasks_of_processEvent hevent)
  | ended => exact .of_endTask rfl
  | _ => exact .of_same rfl fun _ => rfl

namespace Config

variable {config config' : Config} {action : Action}

/-- Every round in progress holds the guard of its task. -/
structure RoundsGuarded (config : Config) : Prop where
  withdrawals : config.withdrawals.isSome →
    .withdrawalProcessing ∈ config.canister.state.activeTasks
  finalization : config.finalization.isSome →
    .finalizeTransactions ∈ config.canister.state.activeTasks
  sweeps : config.sweeps.isSome → .sweepDeposits ∈ config.canister.state.activeTasks
  mints : config.mints.isSome → .mint ∈ config.canister.state.activeTasks

theorem RoundsGuarded.steps (h : config.RoundsGuarded) (hsteps : config.Steps now action config') :
    config'.RoundsGuarded := by
  -- a message that is not of a round leaves all guards
  have hframe {canister : Canister}
      (hsame : canister.state.activeTasks = config.canister.state.activeTasks) :
      { config with canister }.RoundsGuarded := by
    refine ⟨?_, ?_, ?_, ?_⟩ <;> dsimp only <;> rw [hsame]
    · exact h.withdrawals
    · exact h.finalization
    · exact h.sweeps
    · exact h.mints
  cases hsteps with
  | unchanged => exact h
  | withdrawStarted hwithdraw =>
      obtain ⟨-, -, -, -, guards, rfl⟩ := withdraw_eq_ok hwithdraw
      exact ⟨h.withdrawals, h.finalization, h.sweeps, h.mints⟩
  | burned hcall hindex hamount hevent =>
      have hguarded := hframe (activeTasks_of_processEvent hevent)
      exact ⟨hguarded.withdrawals, hguarded.finalization, hguarded.sweeps, hguarded.mints⟩
  | depositSolStarted hdeposit =>
      obtain ⟨-, -, guards, -, rfl⟩ := depositSol_eq_ok hdeposit
      exact ⟨h.withdrawals, h.finalization, h.sweeps, h.mints⟩
  | deposited hcall hbalance hevent =>
      have hguarded := hframe (activeTasks_of_processEvent hevent)
      exact ⟨hguarded.withdrawals, hguarded.finalization, hguarded.sweeps, hguarded.mints⟩
  | withdrawEnded | depositSolEnded | watched =>
      exact ⟨h.withdrawals, h.finalization, h.sweeps, h.mints⟩
  | queued hevent | keyFetched hnone hevent => exact hframe (activeTasks_of_processEvent hevent)
  | withdrawals hsteps =>
      have hkeeps := hsteps.keepsGuards
      exact ⟨hkeeps.own h.withdrawals, fun hround => hkeeps.others _ nofun (h.finalization hround),
        fun hround => hkeeps.others _ nofun (h.sweeps hround),
        fun hround => hkeeps.others _ nofun (h.mints hround)⟩
  | finalization hsteps =>
      have hkeeps := hsteps.keepsGuards
      exact ⟨fun hround => hkeeps.others _ nofun (h.withdrawals hround), hkeeps.own h.finalization,
        fun hround => hkeeps.others _ nofun (h.sweeps hround),
        fun hround => hkeeps.others _ nofun (h.mints hround)⟩
  | sweeps hsteps =>
      have hkeeps := hsteps.keepsGuards
      exact ⟨fun hround => hkeeps.others _ nofun (h.withdrawals hround),
        fun hround => hkeeps.others _ nofun (h.finalization hround), hkeeps.own h.sweeps,
        fun hround => hkeeps.others _ nofun (h.mints hround)⟩
  | mints hsteps =>
      have hkeeps := hsteps.keepsGuards
      exact ⟨fun hround => hkeeps.others _ nofun (h.withdrawals hround),
        fun hround => hkeeps.others _ nofun (h.finalization hround),
        fun hround => hkeeps.others _ nofun (h.sweeps hround), hkeeps.own h.mints⟩
  | upgraded => exact ⟨nofun, nofun, nofun, nofun⟩

theorem roundsGuarded_of_run {minterId : Principal} {args : InitArgs}
    {actions : List (Timestamp × Action)} (h : runFrom minterId args now actions = some config) :
    config.RoundsGuarded := by
  refine (runFrom_invariant (fun _ config => config.RoundsGuarded) ?_ ?_ h).2
  · intro config hinit
    obtain ⟨canister, hcanister, rfl⟩ := init_eq_ok.mp hinit
    constructor <;> exact fun hround => absurd hround Bool.false_ne_true
  · exact fun done config now action config' _ hguarded hsteps => hguarded.steps hsteps

end Config

end Guards

end Cksol
