import Cksol.Minter.Payouts
import Cksol.State.Statuses

/-! # Statuses along a run

A run of the minter is a sequence of events and of transient changes. Each of them moves a reported
status by one step at most, so between any two states of the run a status took a path of such steps.
-/

namespace Cksol

open Std Relation Canister

/-- Every status stays or makes one move. -/
structure Canister.StatusStep (canister canister' : Canister) : Prop where
  deposit : ∀ id, ReflGen DepositSolStatus.Next (canister.state.deposits.status id)
    (canister'.state.deposits.status id)
  withdrawal : ∀ i, ReflGen WithdrawSolStatus.Next (canister.state.withdrawalStatus i)
    (canister'.state.withdrawalStatus i)

section Statuses

variable [SolanaSdk] {Emits : State → Timestamp → EventType → Prop} {canister canister' : Canister}

/-- The changes of a run that move each status by one step at most. -/
abbrev Canister.StatusPath (Emits : State → Timestamp → EventType → Prop) :
    Canister → Canister → Prop :=
  ReflTransGen fun canister canister' => Step Emits canister canister' ∧ canister.StatusStep canister'

theorem Canister.Run.statusPath {view : View} {withdrawals : WithdrawalView}
    (hdeposits : DepositHistory canister.log canister.state.deposits view)
    (hwithdrawals : Withdrawals canister.log canister.state withdrawals)
    (hrun : Run Emits canister canister') (hfresh : (acceptedIndices canister'.log).Nodup) :
    StatusPath Emits canister canister' := by
  induction hrun with
  | refl => exact .refl
  | @tail middle last hrun hstep ih =>
      obtain ⟨view, hdeposits⟩ := hdeposits.run hrun
      cases hstep with
      | event hemits hevent =>
          have hevent' := hevent
          obtain ⟨state, happly, rfl⟩ := processEvent_eq_ok.mp hevent
          have heffect := State.effect_of_apply happly
          -- no index is accepted twice in the shorter log either
          have hbefore := hfresh
          rw [Withdrawals.acceptedIndices_append] at hbefore
          have hbefore := List.Nodup.of_append_left hbefore
          obtain ⟨withdrawals, hwithdrawals, -⟩ := hwithdrawals.run hrun hbefore
          refine (ih hbefore).tail ⟨.event hemits hevent', ⟨?_, ?_⟩⟩
          · exact fun id => hdeposits.tracks.status_effect heffect id
          · exact fun i => hwithdrawals.status_effect heffect hfresh i
      | transient transient =>
          exact (ih hfresh).tail ⟨.transient _ transient, ⟨fun _ => .refl, fun _ => .refl⟩⟩

namespace Canister.StatusPath

theorem deposit (h : StatusPath Emits canister canister') (id : DepositSolId) :
    ReflTransGen DepositSolStatus.Next (canister.state.deposits.status id)
      (canister'.state.deposits.status id) := by
  induction h with
  | refl => exact .refl
  | tail _ hstep ih => exact ih.trans (hstep.2.deposit id).to_reflTransGen

theorem withdrawal (h : StatusPath Emits canister canister') (i : LedgerBurnIndex) :
    ReflTransGen WithdrawSolStatus.Next (canister.state.withdrawalStatus i)
      (canister'.state.withdrawalStatus i) := by
  induction h with
  | refl => exact .refl
  | tail _ hstep ih => exact ih.trans (hstep.2.withdrawal i).to_reflTransGen

end Canister.StatusPath

namespace Config

variable {config config' : Config} {now : Timestamp}

/-- What the statuses did from one state of a run to a later one. -/
structure StatusesAdvance (Emits : State → Timestamp → EventType → Prop) (config config' : Config) :
    Prop where
  /-- The changes in between each make one move at most. -/
  path : StatusPath Emits config.canister config'.canister
  deposit : ∀ id, ReflTransGen DepositSolStatus.Next (config.canister.state.deposits.status id)
    (config'.canister.state.deposits.status id)
  deposit_final : ∀ id, (config.canister.state.deposits.status id).isFinal →
    config'.canister.state.deposits.status id = config.canister.state.deposits.status id
  withdrawal : ∀ i, ReflTransGen WithdrawSolStatus.Next (config.canister.state.withdrawalStatus i)
    (config'.canister.state.withdrawalStatus i)
  withdrawal_final : ∀ i, (config.canister.state.withdrawalStatus i).isFinal →
    config'.canister.state.withdrawalStatus i = config.canister.state.withdrawalStatus i

theorem StatusesAdvance.of_path (h : StatusPath Emits config.canister config'.canister) :
    StatusesAdvance Emits config config' where
  path := h
  deposit := h.deposit
  deposit_final id hfinal := DepositSolStatus.eq_of_isFinal hfinal (h.deposit id)
  withdrawal := h.withdrawal
  withdrawal_final i hfinal := WithdrawSolStatus.eq_of_isFinal hfinal (h.withdrawal i)

/-- A run of the minter from a state that its histories describe. -/
theorem statusPath_of_run {view : View} {withdrawals : WithdrawalView} (hwellformed : config.Wellformed)
    (hdeposits : DepositHistory config.canister.log config.canister.state.deposits view)
    (hwithdrawals : Withdrawals config.canister.log config.canister.state withdrawals)
    {actions : List (Timestamp × Action)} (hrun : config.run actions = some config')
    (hfresh : (acceptedIndices config'.canister.log).Nodup) :
    StatusPath (fun _ _ payload => ∃ entry ∈ actions, entry.2.Records payload) config.canister
      config'.canister :=
  (run_canister hwellformed hrun).statusPath hdeposits hwithdrawals hfresh

/-- In every run whose burns have distinct block indices, the statuses start at `notFound` and only
move forward, through any number of upgrades. -/
theorem statusesAdvance_of_run {minterId : Principal} {args : InitArgs}
    {actions later : List (Timestamp × Action)}
    (h : runFrom minterId args now actions = some config) (hlater : config.run later = some config')
    (hburns : (burnBlockIndices (actions ++ later)).Nodup) :
    (∀ id, ReflTransGen DepositSolStatus.Next .notFound
        (config.canister.state.deposits.status id)) ∧
      (∀ i, ReflTransGen WithdrawSolStatus.Next .notFound
        (config.canister.state.withdrawalStatus i)) ∧
      StatusesAdvance (fun _ _ payload => ∃ entry ∈ later, entry.2.Records payload) config config' := by
  have hfresh' : (acceptedIndices config'.canister.log).Nodup :=
    hburns.sublist (acceptedIndices_sublist (runFrom_append h hlater))
  have hfresh : (acceptedIndices config.canister.log).Nodup := by
    rw [burnBlockIndices, List.filterMap_append] at hburns
    exact (List.Nodup.of_append_left hburns).sublist (acceptedIndices_sublist h)
  have hwellformed := wellformed_of_run h
  obtain ⟨initial, hinit, hrun⟩ := runFrom_eq_some.mp h
  have hstart := wellformed_of_init hinit
  obtain ⟨canister, hcanister, rfl⟩ := init_eq_ok.mp hinit
  have hdeposits := DepositHistory.of_init hcanister
  have hwithdrawals := Withdrawals.of_init hcanister
  have hpath := statusPath_of_run hstart hdeposits hwithdrawals hrun hfresh
  refine ⟨fun id => ?_, fun i => ?_, ?_⟩
  · have hnone : canister.state.deposits.status id = .notFound := hdeposits.tracks.status_eq id
    rw [← hnone]
    exact hpath.deposit id
  · rw [← hwithdrawals.follows.withdrawalStatus_of_none (i := i) rfl]
    exact hpath.withdrawal i
  · obtain ⟨view, hdeposits⟩ := hdeposits.run (run_canister hstart hrun)
    obtain ⟨withdrawals, hwithdrawals, -⟩ := hwithdrawals.run (run_canister hstart hrun) hfresh
    exact .of_path (statusPath_of_run hwellformed hdeposits hwithdrawals hlater hfresh')

end Config

end Statuses

section Sample

attribute [local instance] Solana.sdk

/-- A deposit is credited, a withdrawal is sent, and an upgrade replays the log. -/
theorem Config.statusesAdvance_sampleUpgrade :
    ∃ config config', runFrom sampleMinterId sampleInitArgs 0 sampleDeposit = some config ∧
      config.run (sampleWithdrawal ++ [(30, .upgrade none)]) = some config' ∧
      config'.canister.state.withdrawalStatus 3 = .txSent 6 ∧
      StatusesAdvance (fun _ _ payload =>
        ∃ entry ∈ sampleWithdrawal ++ [(30, .upgrade none)], entry.2.Records payload)
        config config' := by
  have hsome : ((runFrom sampleMinterId sampleInitArgs 0 sampleDeposit).any fun config =>
      (config.run (sampleWithdrawal ++ [(30, .upgrade none)])).any fun config' =>
        config'.canister.state.withdrawalStatus 3 = .txSent 6) = true := by decide +kernel
  obtain ⟨config, hconfig, htest⟩ := (Option.any_eq_true _ _).mp hsome
  obtain ⟨config', hconfig', hstatus⟩ := (Option.any_eq_true _ _).mp htest
  exact ⟨config, config', hconfig, hconfig', of_decide_eq_true hstatus,
    (statusesAdvance_of_run hconfig hconfig' (by decide +kernel)).2.2⟩

end Sample

end Cksol
