import Mathlib.Data.List.Pairwise
import Cksol.Minter.Signing
import Cksol.State.WithdrawalStages

/-! # No double payout

The ledger returns a distinct block index for every burn, so no index is accepted twice; every
request is then in one map at a time and part of one signed message at most.
-/

namespace Cksol

/-- The block index of a successful burn that the ledger reports. -/
def Action.burnIndex : Action → Option LedgerBurnIndex
  | .burned _ (.blockIndex blockIndex) => some blockIndex
  | _ => none

/-- The block indices of the successful burns of a run. -/
def burnBlockIndices (actions : List (Timestamp × Action)) : List LedgerBurnIndex :=
  actions.filterMap fun entry => entry.2.burnIndex

section Payouts

variable [SolanaSdk]

open Canister (Run)
open Relation

theorem acceptedIndices_of_run {Emits : State → Timestamp → EventType → Prop}
    {canister canister' : Canister} (h : Run Emits canister canister')
    (hemits : ∀ state t request, ¬ Emits state t (.acceptedWithdrawalRequest request)) :
    acceptedIndices canister'.log = acceptedIndices canister.log := by
  refine h.invariant (fun canister' => acceptedIndices canister'.log = acceptedIndices canister.log)
    ?_ ?_ rfl
  · intro canister' transient hsame
    exact hsame
  · intro state log now payload state' hpayload hsame _
    have hnone : Event.acceptedIndex ⟨now, payload⟩ = none := by
      cases payload with
      | acceptedWithdrawalRequest request => exact absurd hpayload (hemits state now request)
      | _ => rfl
    rw [Withdrawals.acceptedIndices_append, hnone, Option.toList_none, List.append_nil]
    exact hsame

namespace Config

variable {config config' : Config} {now : Timestamp} {action : Action}

/-- A message accepts the index of the burn it reports, or none. -/
theorem Steps.acceptedIndices (hreplay : config.canister.Replayable)
    (h : config.Steps now action config') :
    acceptedIndices config'.canister.log = acceptedIndices config.canister.log ∨
      ∃ blockIndex, action.burnIndex = some blockIndex ∧
        acceptedIndices config'.canister.log =
          acceptedIndices config.canister.log ++ [blockIndex] := by
  by_cases hburned : ∃ position blockIndex, action = .burned position (.blockIndex blockIndex)
  · obtain ⟨position, blockIndex, rfl⟩ := hburned
    cases h with
    | burned hcall hindex hamount hevent =>
        obtain ⟨state, -, rfl⟩ := Canister.processEvent_eq_ok.mp hevent
        exact .inr ⟨blockIndex, rfl, Withdrawals.acceptedIndices_append _⟩
    | unchanged | withdrawEnded | depositSolEnded => exact .inl rfl
  · refine .inl (acceptedIndices_of_run (h.run hreplay) fun state t request hrecords => ?_)
    obtain ⟨position, heq⟩ := hrecords.recordedBy
    exact hburned ⟨position, _, heq⟩

/-- The accepted indices are those of burns that the ledger reported, in their order. -/
theorem acceptedIndices_sublist {minterId : Principal} {args : InitArgs}
    {actions : List (Timestamp × Action)} (h : runFrom minterId args now actions = some config) :
    (acceptedIndices config.canister.log).Sublist (burnBlockIndices actions) := by
  refine (runFrom_invariant (fun actions config =>
    (acceptedIndices config.canister.log).Sublist (burnBlockIndices actions)) ?_ ?_ h).2
  · intro config hinit
    simp only [init, Canister.init, bind_eq_ok, mapError_eq_ok, pure_eq_ok] at hinit
    obtain ⟨canister, ⟨state, -, rfl⟩, rfl⟩ := hinit
    exact List.nil_sublist _
  · intro done config now action config' hwellformed hsublist hsteps
    rw [burnBlockIndices, List.filterMap_append]
    rcases hsteps.acceptedIndices hwellformed.replayable with hsame | ⟨blockIndex, hindex, hnew⟩
    · rw [hsame]
      exact hsublist.trans (List.sublist_append_left _ _)
    · rw [hnew]
      refine hsublist.append ?_
      simp [hindex]

/-- No accepted index is paid twice. -/
structure PaidOnce (config : Config) : Prop where
  /-- An accepted index is in exactly one request map, with the request and the time of its
  acceptance. -/
  one_map : ∀ i request, Accepts config.canister.log i request →
    ∃ stage, config.canister.state.withdrawalAt stage i = some request ∧
      ∀ stage' request', config.canister.state.withdrawalAt stage' i = some request' →
        stage' = stage
  /-- The maps hold no other index. -/
  accepted : ∀ stage i request, config.canister.state.withdrawalAt stage i = some request →
    Accepts config.canister.log i request
  /-- The created transactions of the log bind an index once at most. -/
  bound_once : (boundIndices config.canister.log).Nodup
  /-- The submitted transactions of the log serve an index once at most. -/
  served_once : (servedIndices config.canister.log).Nodup
  /-- No index is part of two different messages passed to the signer. -/
  one_message : ∀ withdrawal withdrawal' i, .withdrawal withdrawal ∈ config.signRequests →
    .withdrawal withdrawal' ∈ config.signRequests → i ∈ withdrawal.burnIndices →
    i ∈ withdrawal'.burnIndices → withdrawal.message = withdrawal'.message

omit [SolanaSdk] in
/-- An index that is bound once is bound by one event. -/
theorem eq_of_boundIndices {log : List Event} (h : (boundIndices log).Nodup) {event event' : Event}
    (hmem : event ∈ log) (hmem' : event' ∈ log) {i : LedgerBurnIndex}
    (hi : i ∈ event.boundIndices) (hi' : i ∈ event'.boundIndices) : event = event' := by
  by_contra hne
  have hdisjoint := (List.nodup_flatMap.mp h).2
  have hsymm : Std.Symm (Function.onFun List.Disjoint Event.boundIndices) :=
    ⟨fun _ _ hxy _ hx hy => hxy hy hx⟩
  exact hdisjoint.forall hmem hmem' hne hi hi'

/-- The requests of a run whose burns have distinct block indices. -/
theorem withdrawals_of_run {minterId : Principal} {args : InitArgs}
    {actions : List (Timestamp × Action)} (h : runFrom minterId args now actions = some config)
    (hburns : (burnBlockIndices actions).Nodup) :
    ∃ view, Withdrawals config.canister.log config.canister.state view := by
  obtain ⟨initial, hinit, hrun⟩ := runFrom_eq_some.mp h
  have hstart := wellformed_of_init hinit
  obtain ⟨canister, hcanister, rfl⟩ := init_eq_ok.mp hinit
  obtain ⟨view, hview, -⟩ := (Withdrawals.of_init hcanister).run (run_canister hstart hrun)
    (hburns.sublist (acceptedIndices_sublist h))
  exact ⟨view, hview⟩

/-- In every run whose burns have distinct block indices, each accepted request is in one map, bound
and served once and part of one message; from there on it only moves forward, unchanged. -/
theorem paidOnce_of_run {minterId : Principal} {args : InitArgs}
    {actions : List (Timestamp × Action)}
    (h : runFrom minterId args now actions = some config)
    (hburns : (burnBlockIndices actions).Nodup) :
    config.PaidOnce ∧
      ∀ later config', config.run later = some config' →
        (burnBlockIndices (actions ++ later)).Nodup →
        ∀ stage i request, config.canister.state.withdrawalAt stage i = some request →
          ∃ stage', config'.canister.state.withdrawalAt stage' i = some request ∧
            ReflTransGen WithdrawalStage.Next stage stage' := by
  obtain ⟨hwellformed, bindings, hsigns⟩ := signs_of_run h
  obtain ⟨view, hview⟩ := withdrawals_of_run h hburns
  refine ⟨⟨?_, ?_, hview.bound_nodup, hview.served_nodup, ?_⟩, ?_⟩
  · intro i request haccepts
    obtain ⟨stage, hstage⟩ := (hview.accepted i request).mpr haccepts
    refine ⟨stage, (hview.follows stage i request).mpr hstage, ?_⟩
    intro stage' request' hstage'
    rw [hview.follows, hstage] at hstage'
    exact (Prod.mk.inj (Option.some.inj hstage')).1.symm
  · intro stage i request hstage
    exact (hview.accepted i request).mp ⟨stage, (hview.follows stage i request).mp hstage⟩
  · intro withdrawal withdrawal' i hrequest hrequest' hi hi'
    obtain ⟨binding, hbinding, -, hindices, hbuilds⟩ := hsigns.requested hrequest
    obtain ⟨binding', hbinding', -, hindices', hbuilds'⟩ := hsigns.requested hrequest'
    obtain ⟨t, hevent⟩ := hsigns.history.logged binding hbinding
    obtain ⟨t', hevent'⟩ := hsigns.history.logged binding' hbinding'
    -- the events of the two bindings share the index, so they are one event
    have hsame := eq_of_boundIndices hview.bound_nodup hevent hevent'
      (show i ∈ binding.burnIndices by rwa [hindices])
      (show i ∈ binding'.burnIndices by rwa [hindices'])
    obtain ⟨-, haccount, hvalue⟩ :=
      EventType.createdWithdrawalTransaction.inj (Event.mk.inj hsame).2
    obtain rfl := hsigns.history.injective binding hbinding binding' hbinding' haccount hvalue
    exact hbuilds.unique hbuilds'
  · intro later config' hlater hburns' stage i request hstage
    obtain ⟨view', hview', hadvances⟩ := hview.run (run_canister hwellformed hlater)
      (hburns'.sublist (acceptedIndices_sublist (runFrom_append h hlater)))
    obtain ⟨stage', hstage', hnext⟩ :=
      hadvances i stage request ((hview.follows stage i request).mp hstage)
    exact ⟨stage', (hview'.follows stage' i request).mpr hstage', hnext⟩

end Config

end Payouts

section Sample

attribute [local instance] Solana.sdk

theorem Config.paidOnce_sampleWithdrawal :
    ∃ config, runFrom sampleMinterId sampleInitArgs 0 (sampleDeposit ++ sampleWithdrawal) =
        some config ∧ (burnBlockIndices (sampleDeposit ++ sampleWithdrawal)).Nodup ∧
      config.PaidOnce := by
  have hsome : (runFrom sampleMinterId sampleInitArgs 0
      (sampleDeposit ++ sampleWithdrawal)).isSome = true := by decide +kernel
  have hburns : (burnBlockIndices (sampleDeposit ++ sampleWithdrawal)).Nodup := by decide +kernel
  obtain ⟨config, hrun⟩ := Option.isSome_iff_exists.mp hsome
  exact ⟨config, hrun, hburns, (paidOnce_of_run hrun hburns).1⟩

end Sample

end Cksol
