import Cksol.State.Effects

/-! # Credited sweeps

A signature enters the finalized sweeps once, when its transaction succeeds, and leaves them with a
credit or a quarantine, so no signature is credited twice.
-/

namespace Cksol

open Std

/-- The signature that an event credits. -/
def EventType.creditedSignature : EventType → Option Signature
  | creditedSweep signature _ _ => some signature
  | _ => none

/-- The sweeps that were credited, in order. -/
def creditedSignatures (log : List Event) : List Signature :=
  log.filterMap fun event => event.payload.creditedSignature

theorem creditedSignatures_append (log : List Event) (timestamp : Timestamp) (payload : EventType) :
    creditedSignatures (log ++ [⟨timestamp, payload⟩]) =
      creditedSignatures log ++ payload.creditedSignature.toList := by
  rw [creditedSignatures, List.filterMap_append]
  cases hcredited : payload.creditedSignature <;> simp [creditedSignatures, hcredited]

/-- A sweep joins the finalized ones when its transaction succeeds, and leaves them with its credit or
its quarantine. -/
theorem State.Effect.finalized_cases [SolanaSdk] {state state' : State} {timestamp : Timestamp}
    {payload : EventType} (heffect : state.Effect timestamp payload state') :
    (payload.creditedSignature = none ∧ state'.deposits.finalized = state.deposits.finalized ∧
      ∀ signature ∈ state.succeededTransactions, signature ∈ state'.succeededTransactions) ∨
    (∃ signature sweep, payload = .succeededTransaction signature ∧
      signature ∉ state.succeededTransactions ∧
      state.deposits.finalized.bySignature[signature]? = none ∧
      state'.deposits.finalized = ⟨state.deposits.finalized.bySignature.insert signature sweep⟩ ∧
      state'.succeededTransactions = state.succeededTransactions.insert signature) ∨
    ∃ signature sweep, ((∃ amountReceived mints, payload =
        .creditedSweep signature amountReceived mints) ∨ payload = .quarantinedSweep signature) ∧
      state.deposits.finalized.bySignature[signature]? = some sweep ∧
      state'.deposits.finalized = ⟨state.deposits.finalized.bySignature.erase signature⟩ ∧
      state'.succeededTransactions = state.succeededTransactions := by
  cases heffect with
  | succeededSweep _ hnew _ hfinalize =>
      obtain ⟨sweep, -, hnone, rfl⟩ := Deposits.finalizeSwept_eq_ok hfinalize
      exact .inr (.inl ⟨_, sweep, rfl, hnew, hnone, rfl, rfl⟩)
  | creditedSweep hcredit =>
      obtain ⟨hsweep, -, _, -, rfl⟩ := Deposits.creditSweep_eq_ok hcredit
      exact .inr (.inr ⟨_, _, .inl ⟨_, _, rfl⟩, hsweep, rfl, rfl⟩)
  | quarantinedSweep hquarantine =>
      obtain ⟨sweep, hsweep, rfl⟩ := Deposits.quarantineSweep_eq_ok hquarantine
      exact .inr (.inr ⟨_, sweep, .inr rfl, hsweep, rfl, rfl⟩)
  | succeededWithdrawal =>
      exact .inl ⟨rfl, rfl, fun _ hmem => OrdSet.mem_insert_iff.mpr (.inr hmem)⟩
  | sweptDeposits _ _ _ _ hsweep =>
      obtain ⟨_, _, -, -, -, -, -, -, rfl⟩ := Deposits.sweep_eq_ok hsweep
      exact .inl ⟨rfl, rfl, fun _ h => h⟩
  | failedSweep _ _ _ hdrop | expiredSweep _ _ _ hdrop =>
      obtain ⟨_, -, -, rfl⟩ := Deposits.dropSwept_eq_ok hdrop
      exact .inl ⟨rfl, rfl, fun _ h => h⟩
  | queuedDeposit hqueue =>
      obtain ⟨-, -, _, -, rfl⟩ := Deposits.queue_eq_ok hqueue
      exact .inl ⟨rfl, rfl, fun _ h => h⟩
  | minted hmint =>
      obtain ⟨_, -, -, rfl⟩ := Deposits.mint_eq_ok hmint
      exact .inl ⟨rfl, rfl, fun _ h => h⟩
  | quarantinedPendingMint hquarantine =>
      obtain ⟨_, -, rfl⟩ := Deposits.quarantinePendingMint_eq_ok hquarantine
      exact .inl ⟨rfl, rfl, fun _ h => h⟩
  | _ => exact .inl ⟨rfl, rfl, fun _ h => h⟩

/-- Finalized sweeps have succeeded, and each is credited once. -/
structure CreditHistory (log : List Event) (state : State) : Prop where
  finalized : ∀ {signature : Signature} {sweep : Sweep},
    state.deposits.finalized.bySignature[signature]? = some sweep →
    signature ∈ state.succeededTransactions
  credited : ∀ signature ∈ creditedSignatures log,
    signature ∈ state.succeededTransactions ∧
      state.deposits.finalized.bySignature[signature]? = none
  nodup : (creditedSignatures log).Nodup

namespace CreditHistory

variable [SolanaSdk] {log : List Event} {state state' : State} {timestamp : Timestamp}
  {payload : EventType}

omit [SolanaSdk] in
/-- An event that finalizes and credits nothing. -/
theorem frame (h : CreditHistory log state) (hpayload : payload.creditedSignature = none)
    (hsucceeded : ∀ signature, signature ∈ state.succeededTransactions →
      signature ∈ state'.succeededTransactions)
    (hfinalized : ∀ {signature : Signature} {sweep : Sweep},
      state'.deposits.finalized.bySignature[signature]? = some sweep →
      state.deposits.finalized.bySignature[signature]? = some sweep) :
    CreditHistory (log ++ [⟨timestamp, payload⟩]) state' := by
  have hlog : creditedSignatures (log ++ [⟨timestamp, payload⟩]) = creditedSignatures log := by
    rw [creditedSignatures_append, hpayload, Option.toList_none, List.append_nil]
  refine ⟨fun hsweep => hsucceeded _ (h.finalized (hfinalized hsweep)), ?_, hlog ▸ h.nodup⟩
  intro signature hmem
  rw [hlog] at hmem
  obtain ⟨hold, hnone⟩ := h.credited signature hmem
  refine ⟨hsucceeded _ hold, Option.eq_none_iff_forall_ne_some.mpr fun sweep hsweep => ?_⟩
  rw [hfinalized hsweep] at hnone
  cases hnone

omit [SolanaSdk] in
/-- A credited signature has succeeded before, so a sweep that is finalized was not credited. -/
theorem finalize (h : CreditHistory log state) {signature : Signature} {sweep : Sweep}
    (hnew : signature ∉ state.succeededTransactions)
    (hfinalized : state'.deposits.finalized =
      ⟨state.deposits.finalized.bySignature.insert signature sweep⟩)
    (hsucceeded : state'.succeededTransactions = state.succeededTransactions.insert signature) :
    CreditHistory (log ++ [⟨timestamp, .succeededTransaction signature⟩]) state' := by
  have hlog : creditedSignatures (log ++ [⟨timestamp, .succeededTransaction signature⟩]) =
      creditedSignatures log := by
    rw [creditedSignatures_append]
    exact List.append_nil _
  refine ⟨?_, ?_, hlog ▸ h.nodup⟩
  · intro signature' sweep' hsweep
    rw [hfinalized, OrdMap.getElem?_insert_eq] at hsweep
    rw [hsucceeded, OrdSet.mem_insert_iff]
    split at hsweep
    case isTrue heq => exact .inl heq
    case isFalse => exact .inr (h.finalized hsweep)
  · intro signature' hmem
    rw [hlog] at hmem
    obtain ⟨hold, hnone⟩ := h.credited signature' hmem
    have hne : signature ≠ signature' := fun heq => hnew (heq ▸ hold)
    rw [hfinalized, hsucceeded, OrdMap.getElem?_insert_eq, if_neg hne]
    exact ⟨OrdSet.mem_insert_iff.mpr (.inr hold), hnone⟩

omit [SolanaSdk] in
/-- The sweep that is credited leaves the finalized ones, where no credited one was. -/
theorem credit (h : CreditHistory log state) {signature : Signature} {sweep : Sweep}
    {amountReceived : Lamport} {mints : List CreditedDeposit}
    (hsweep : state.deposits.finalized.bySignature[signature]? = some sweep)
    (hfinalized : state'.deposits.finalized =
      ⟨state.deposits.finalized.bySignature.erase signature⟩)
    (hsucceeded : state'.succeededTransactions = state.succeededTransactions) :
    CreditHistory (log ++ [⟨timestamp, .creditedSweep signature amountReceived mints⟩]) state' := by
  have hlog : creditedSignatures (log ++ [⟨timestamp,
      .creditedSweep signature amountReceived mints⟩]) = creditedSignatures log ++ [signature] := by
    rw [creditedSignatures_append]
    rfl
  have hfresh : signature ∉ creditedSignatures log := by
    intro hmem
    rw [(h.credited signature hmem).2] at hsweep
    cases hsweep
  refine ⟨?_, ?_, ?_⟩
  · intro signature' sweep' hsweep'
    rw [hfinalized] at hsweep'
    rw [hsucceeded]
    exact h.finalized (OrdMap.getElem?_of_erase hsweep')
  · intro signature' hmem
    rw [hlog, List.mem_append, List.mem_singleton] at hmem
    rw [hfinalized, hsucceeded, OrdMap.getElem?_erase_eq]
    rcases hmem with hold | rfl
    · obtain ⟨hsucceeded, hnone⟩ := h.credited signature' hold
      refine ⟨hsucceeded, ?_⟩
      split
      · rfl
      · exact hnone
    · exact ⟨h.finalized hsweep, if_pos rfl⟩
  · rw [hlog, ← List.concat_eq_append]
    exact h.nodup.concat hfresh

theorem effect (h : CreditHistory log state) (heffect : state.Effect timestamp payload state') :
    CreditHistory (log ++ [⟨timestamp, payload⟩]) state' := by
  rcases heffect.finalized_cases with ⟨hcredited, hfinalized, hsucceeded⟩ |
    ⟨signature, sweep, rfl, hnew, -, hfinalized, hsucceeded⟩ |
    ⟨signature, sweep, hpayload, hsweep, hfinalized, hsucceeded⟩
  · refine h.frame hcredited hsucceeded fun hsweep => ?_
    rw [← hfinalized]
    exact hsweep
  · exact h.finalize hnew hfinalized hsucceeded
  · rcases hpayload with ⟨amountReceived, mints, rfl⟩ | rfl
    · exact h.credit hsweep hfinalized hsucceeded
    · refine h.frame rfl (fun _ hmem => hsucceeded ▸ hmem) fun hget => ?_
      rw [hfinalized] at hget
      exact OrdMap.getElem?_of_erase hget

theorem run {Emits : State → Timestamp → EventType → Prop} {canister canister' : Canister}
    (h : CreditHistory canister.log canister.state)
    (hrun : Canister.Run Emits canister canister') :
    CreditHistory canister'.log canister'.state := by
  refine hrun.invariant (fun canister => CreditHistory canister.log canister.state) ?_ ?_ h
  · exact fun canister transient h => ⟨h.finalized, h.credited, h.nodup⟩
  · exact fun state log now payload state' _ h heffect => h.effect heffect

theorem of_init {canister : Canister} {args : InitArgs} {now : Timestamp}
    (h : Canister.init args now = .ok canister) : CreditHistory canister.log canister.state := by
  obtain ⟨_, pool, -, -, rfl⟩ := Canister.exists_of_init h
  refine ⟨?_, ?_, ?_⟩
  · simp [Deposits.default, Sweeps.empty]
  · simp [creditedSignatures, EventType.creditedSignature]
  · simp [creditedSignatures, EventType.creditedSignature]

end CreditHistory

end Cksol
