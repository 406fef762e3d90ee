import Cksol.Minter.Finalizing
import Cksol.Minter.Reservations
import Cksol.State.Conservation
import Cksol.State.Credits

/-! # What the minter has checked when it records an event

Some events are recorded for what a task read before an await. What the task kept still fits the state
when the event is recorded: a sweep is settled by the plan recorded for it, and a created batch serves
the requests that are pending under its indices.
-/

namespace Cksol

open Std Canister

variable {canister canister' : Canister}

section Emissions

variable [SolanaSdk] {entry : Signature × Sweep} {state : State}

/-- What the rounds guarantee of an event beyond what its processing checks. -/
structure Emits (state : State) (now : Timestamp) (payload : EventType) : Prop where
  settled : SettledCredits state now payload
  accepted : ∀ {request : WithdrawalRequest}, payload = .acceptedWithdrawalRequest request →
    request.amountToTransfer.toNat + state.withdrawalFee.toNat = request.burnedAmount.toNat
  created : ∀ {burnIndices : List LedgerBurnIndex} {account : Address} {value : Hash},
    payload = .createdWithdrawalTransaction burnIndices account value →
    burnIndices ≠ [] ∧
      (burnIndices.map (state.pendingWithdrawalRequests.weightAt State.transferAmount)).sum +
        batchWithdrawalTxFee.toNat < 2 ^ 64

/-- Any other event is recorded in any state. -/
theorem emits_of_kind {now : Timestamp} {payload : EventType}
    (hcredited : ∀ signature amountReceived mints,
      payload ≠ .creditedSweep signature amountReceived mints)
    (haccepted : ∀ request, payload ≠ .acceptedWithdrawalRequest request)
    (hcreated : ∀ burnIndices account value,
      payload ≠ .createdWithdrawalTransaction burnIndices account value) :
    Emits state now payload where
  settled _ _ _ heq := absurd heq (hcredited _ _ _)
  accepted heq := absurd heq (haccepted _)
  created heq := absurd heq (hcreated _ _ _)

/-- A batch that waits to be created may be. -/
theorem emits_of_reserves {now : Timestamp} {batches : List ReservedBatch}
    (h : state.Reserves batches) {position : ℕ} {batch : ReservedBatch}
    (hbatch : batches[position]? = some batch) {account : Address} {value : Hash} :
    Emits state now (.createdWithdrawalTransaction batch.burnIndices account value) := by
  have hmem := List.mem_of_getElem? hbatch
  refine ⟨fun _ _ _ heq => (nomatch heq), nofun, fun heq => ?_⟩
  obtain ⟨rfl, -, -⟩ := EventType.createdWithdrawalTransaction.inj heq
  refine ⟨fun hnil => h.nonempty _ hmem (List.map_eq_nil_iff.mp hnil), ?_⟩
  exact (h.cost_eq hmem).trans_lt (h.fits _ hmem)

/-! ## Sweeps fetched for a credit -/

/-- The sweep is the one recorded as finalized under the signature, as long as there is one. -/
def State.Fetched (state : State) (entry : Signature × Sweep) : Prop :=
  entry.1 ∈ state.succeededTransactions ∧
    ∀ sweep, state.deposits.finalized.bySignature[entry.1]? = some sweep → sweep = entry.2

/-- A signature that has succeeded is not finalized anew. -/
theorem State.Fetched.effect {state state' : State} {timestamp : Timestamp} {payload : EventType}
    (h : state.Fetched entry) (heffect : state.Effect timestamp payload state') :
    state'.Fetched entry := by
  obtain ⟨hsucceeded, hsame⟩ := h
  rcases heffect.finalized_cases with ⟨-, hfinalized, hkept⟩ |
    ⟨signature, _, -, hnew, -, hfinalized, hinserted⟩ | ⟨signature, _, -, -, hfinalized, hkept⟩
  · refine ⟨hkept _ hsucceeded, ?_⟩
    rw [hfinalized]
    exact hsame
  · have hne : signature ≠ entry.1 := fun heq => hnew (heq ▸ hsucceeded)
    refine ⟨hinserted ▸ OrdSet.mem_insert_iff.mpr (.inr hsucceeded), fun sweep hsweep => ?_⟩
    rw [hfinalized, OrdMap.getElem?_insert_eq, if_neg hne] at hsweep
    exact hsame sweep hsweep
  · refine ⟨hkept ▸ hsucceeded, fun sweep hsweep => ?_⟩
    rw [hfinalized] at hsweep
    exact hsame sweep (OrdMap.getElem?_of_erase hsweep)

theorem State.Fetched.run {Emits : State → Timestamp → EventType → Prop}
    (h : canister.state.Fetched entry) (hrun : Run Emits canister canister') :
    canister'.state.Fetched entry := by
  refine hrun.invariant (fun canister => canister.state.Fetched entry) ?_ ?_ h
  · exact fun canister transient h => h
  · exact fun state log now payload state' _ h heffect => h.effect heffect

omit [SolanaSdk] in
/-- A round fetches the sweeps that are finalized when it gets to them. -/
theorem State.fetched_of_mem_sweepsToCredit {log : List Event} (hcredits : CreditHistory log state)
    (h : entry ∈ state.sweepsToCredit) : state.Fetched entry := by
  have hsweep := OrdMap.mem_toList_iff.mp (List.mem_of_mem_take h)
  refine ⟨hcredits.finalized hsweep, fun sweep hsweep' => ?_⟩
  exact Option.some.inj (hsweep'.symm.trans hsweep)

/-- The credits of a round settle recorded sweeps. -/
theorem emits_of_creditEvents {now : Timestamp} {sweeps : List (Signature × Sweep)}
    {replies : List (Option Sweep.FetchedTransaction)}
    (hfetched : ∀ entry ∈ sweeps, canister.state.Fetched entry)
    (h : canister.processEvents (creditEvents sweeps replies) now = .ok canister') :
    Run (fun state t payload => Emits state t payload ∧ payload.isFinalization) canister
      canister' := by
  refine .processEvents_while (fun state => ∀ entry ∈ sweeps, state.Fetched entry) ?_ ?_ hfetched h
  · intro payload hpayload state state' hstate heffect
    obtain ⟨entry, hentry, reply, hevent⟩ := mem_creditEvents hpayload
    rcases creditEvent_eq_some hevent with ⟨fetched, settled, -, hsettle, rfl⟩ | rfl
    · refine ⟨⟨fun _ _ _ heq => ?_, nofun, nofun⟩, rfl⟩
      cases heffect with
      | creditedSweep hcredit =>
          obtain ⟨hsweep, -⟩ := Deposits.creditSweep_eq_ok hcredit
          obtain rfl := (hstate entry hentry).2 _ hsweep
          obtain ⟨rfl, rfl, rfl⟩ := EventType.creditedSweep.inj heq
          exact ⟨entry.2, fetched, hsweep, hsettle⟩
    · exact ⟨emits_of_kind (by simp) (by simp) (by simp), rfl⟩
  · exact fun payload _ state state' hstate heffect entry hentry =>
      (hstate entry hentry).effect heffect

/-! ## The minter -/

namespace Config

variable {config config' : Config} {now : Timestamp} {action : Action}

/-- What the rounds kept across their awaits fits the state. -/
structure Prepared (config : Config) : Prop where
  credits : CreditHistory config.canister.log config.canister.state
  pending : PendingRecorded config.canister.log config.canister.state
  crediting : ∀ sweeps, config.finalization = some (.crediting sweeps) →
    ∀ entry ∈ sweeps, config.canister.state.Fetched entry
  creating : ∀ minterAddress batches, config.withdrawals = some (.creating minterAddress batches) →
    config.canister.state.Reserves batches

theorem prepared_of_init {minterId : Principal} {args : InitArgs}
    (h : init minterId args now = .ok config) : config.Prepared := by
  obtain ⟨canister, hcanister, rfl⟩ := init_eq_ok.mp h
  refine ⟨.of_init hcanister, .of_init hcanister, fun sweeps hround => ?_,
    fun address batches hround => ?_⟩
  · cases hround
  · cases hround

/-- Every message of the minter records events it has checked. -/
theorem Steps.emits (h : config.Prepared) (hwellformed : config.Wellformed)
    (hsteps : config.Steps now action config') :
    Run (fun state t payload => Emits state t payload ∧ action.Records payload) config.canister
      config'.canister := by
  have hrun := hsteps.run hwellformed.replayable
  cases hsteps with
  | unchanged => exact .refl
  | burned hcall hindex hamount hevent =>
      refine (Run.event hevent ⟨⟨fun _ _ _ heq => (nomatch heq), fun heq => ?_, nofun⟩, _, rfl,
        rfl⟩).trans (Run.dropWithdrawalGuard _)
      obtain rfl := EventType.acceptedWithdrawalRequest.inj heq
      exact checkedSub_eq_some.mp hamount
  | withdrawEnded => exact Run.dropWithdrawalGuard _
  | depositSolEnded => exact Run.dropDepositSolGuard _
  -- what a created transaction costs was checked when its batch was reserved
  | withdrawals hsteps =>
      generalize hround : config.withdrawals = before at hsteps
      cases hsteps with
      | created hbatch hread hunseen hbuild hevent =>
          exact .event hevent ⟨emits_of_reserves (h.creating _ _ hround) hbatch, rfl⟩
      | signed hwithdrawal hevent =>
          exact .event hevent ⟨emits_of_kind (by simp) (by simp) (by simp), rfl⟩
      | start hstart hkey => exact .startTask hstart
      | ended => exact .endTask _
      | _ => exact .refl
  | finalization hsteps =>
      generalize hround : config.finalization = before at hsteps
      cases hsteps with
      | checked hevents =>
          refine .processEvents (fun payload hpayload state => ?_) hevents
          obtain ⟨signature, -, rfl | rfl | rfl⟩ := mem_sweepStatusEvents hpayload
          all_goals exact ⟨emits_of_kind (by simp) (by simp) (by simp), rfl⟩
      | landed hwithdrawal hpayload hevent =>
          rcases landedWithdrawalEvent_eq_some hpayload with rfl | rfl
          all_goals exact .event hevent ⟨emits_of_kind (by simp) (by simp) (by simp), rfl⟩
      | credited hevents =>
          exact (emits_of_creditEvents (h.crediting _ hround) hevents).trans (Run.endTask _)
      | startReading hstart => exact .startTask hstart
      | startChecking hstart => exact .startTask hstart
      | ended => exact .endTask _
      | _ => exact .refl
  | _ =>
      -- no other task records one of the three kinds of events
      refine hrun.mono fun state t payload hrecords => ⟨?_, hrecords⟩
      cases payload with
      | creditedSweep | acceptedWithdrawalRequest | createdWithdrawalTransaction =>
          obtain ⟨_, heq⟩ := hrecords.recordedBy
          cases heq
      | _ => exact emits_of_kind (by simp) (by simp) (by simp)

/-- The sweeps that a round fetched with its last message. -/
theorem fetched_of_steps {before after : Option FinalizeRound} {action : FinalizeAction}
    {sweeps : List (Signature × Sweep)} (hcredits : CreditHistory canister.log canister.state)
    (hafter : after = some (.crediting sweeps))
    (hsteps : FinalizeRound.Steps canister now before action (canister', after)) :
    ∀ entry ∈ sweeps, canister'.state.Fetched entry := by
  have hread (state : State) : FinalizeRound.readInFlightNonces state ≠ .crediting sweeps := by
    unfold FinalizeRound.readInFlightNonces
    split <;> exact nofun
  cases hsteps with
  | fetchFinalized =>
      obtain rfl := FinalizeRound.crediting.inj (Option.some.inj hafter)
      exact fun entry hentry => State.fetched_of_mem_sweepsToCredit hcredits hentry
  | startReading | checked => exact absurd (Option.some.inj hafter) (hread _)
  | nonceRead =>
      unfold FinalizeRound.noteNonceRead at hafter
      split at hafter <;> cases hafter
  | _ => cases hafter

/-- The batches of a round after one of its messages. -/
theorem reserves_of_steps {round : Option WithdrawalRound} {action : WithdrawalAction}
    {requested : List BoundWithdrawal} {address : Address} {batches : List ReservedBatch}
    (hpending : PendingRecorded canister.log canister.state)
    (hreserves : ∀ address batches, round = some (.creating address batches) →
      canister.state.Reserves batches) (hsteps : WithdrawalRound.Steps canister now round action
      (canister', some (.creating address batches), requested)) :
    canister'.state.Reserves batches := by
  cases hsteps with
  | start hstart hkey =>
      rw [startTask_eq_some hstart]
      obtain ⟨h, -⟩ := State.reserves_reservedBatches hpending
      exact ⟨h.pending, h.disjoint, h.nonempty, h.fits⟩
  | skipped => exact (hreserves _ _ rfl).sublist (List.eraseIdx_sublist ..)
  | created hbatch hread hunseen hbuild hevent =>
      obtain ⟨state, happly, rfl⟩ := processEvent_eq_ok.mp hevent
      exact (hreserves _ _ rfl).create hbatch (State.effect_of_apply happly)

theorem Prepared.steps (h : config.Prepared) (hwellformed : config.Wellformed)
    (hsteps : config.Steps now action config') : config'.Prepared := by
  have hrun := hsteps.run hwellformed.replayable
  refine ⟨h.credits.run hrun, h.pending.run hrun, ?_, ?_⟩
  · intro sweeps hround entry hentry
    cases hsteps with
    | finalization hsteps => exact fetched_of_steps h.credits hround hsteps entry hentry
    | upgraded => cases hround
    | _ => exact (h.crediting sweeps hround entry hentry).run hrun
  · intro address batches hround
    cases hsteps with
    | withdrawals hsteps =>
        dsimp only at hround
        rw [hround] at hsteps
        exact reserves_of_steps h.pending h.creating hsteps
    | upgraded => cases hround
    | unchanged => exact h.creating _ _ hround
    | withdrawEnded | depositSolEnded =>
        obtain ⟨hpending, hdisjoint, hnonempty, hfits⟩ := h.creating _ _ hround
        exact ⟨hpending, hdisjoint, hnonempty, hfits⟩
    | _ =>
        refine (h.creating _ _ hround).run hrun fun state t burnIndices account value hrecords => ?_
        obtain ⟨step, heq⟩ := hrecords.recordedBy
        cases heq

/-- A run of the minter is a run of its canister in which every event was checked. -/
theorem emits_of_run {minterId : Principal} {args : InitArgs} {actions : List (Timestamp × Action)}
    (h : runFrom minterId args now actions = some config) :
    config.Prepared ∧ ∃ initial, Canister.init args now = .ok initial ∧
      Run Emits initial config.canister := by
  refine (runFrom_invariant (fun _ config => config.Prepared ∧ ∃ initial,
    Canister.init args now = .ok initial ∧ Run Emits initial config.canister) ?_ ?_ h).2
  · intro config hinit
    refine ⟨prepared_of_init hinit, ?_⟩
    obtain ⟨canister, hcanister, rfl⟩ := init_eq_ok.mp hinit
    exact ⟨canister, hcanister, .refl⟩
  · rintro done config now action config' hwellformed ⟨hprepared, initial, hinit, hrun⟩ hsteps
    exact ⟨hprepared.steps hwellformed hsteps, initial, hinit,
      hrun.trans ((hsteps.emits hprepared hwellformed).mono fun _ _ _ h => h.1)⟩

end Config

end Emissions

end Cksol
