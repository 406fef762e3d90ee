import Cksol.Common.Sums
import Cksol.Minter.Accounting

/-! # The rent floor of the main address

The parameter constraints make every deposit bring at least the rent exemption threshold to the main
address, and a withdrawal round holds the threshold back from the batches it reserves. So the balance
is zero, before the first credit, or at least the threshold.
-/

namespace Cksol

open Std Canister

variable {log : List Event} {state state' : State}

/-! ## Deposits above the minimum -/

/-- The rent exemption threshold twice, once left on a deposit address and once brought to the main one,
and the fee of one signature. -/
def minimumSweptBalance : ℕ := 2 * rentExemptionThreshold.toNat + feePerSignature.toNat

/-- Every deposit was queued with that balance at least. -/
def DepositsAbove (log : List Event) : Prop :=
  ∀ entry ∈ queuedDeposits log, minimumSweptBalance ≤ entry.2.balance.lamports.toNat

theorem DepositsAbove.of_append {log new : List Event} (h : DepositsAbove (log ++ new)) :
    DepositsAbove log := by
  intro entry hentry
  refine h entry ?_
  rw [queuedDeposits_append]
  exact List.mem_append_left _ hentry

/-- The deposits of a recorded sweep leave the threshold on each address and bring it to the main one
once for each of them. -/
theorem Sweep.totalBalance_ge (h : DepositsAbove log) {sweep : Sweep}
    (hrecorded : sweep.RecordedIn log) :
    minimumSweptBalance * sweep.depositCount ≤ sweep.totalBalance := by
  obtain ⟨deposits, minterAddress, hplan, -, hqueued⟩ := hrecorded
  obtain ⟨payer, payerAmount, hunique, -⟩ := plan_eq_ok hplan
  obtain ⟨-, hget⟩ := unique_eq_ok hunique
  have habove : ∀ entry ∈ sweep.deposits.toList,
      minimumSweptBalance ≤ entry.2.balance.lamports.toNat := by
    intro entry hentry
    have hmem := (hget entry.1 entry.2).mp (OrdMap.mem_toList_iff.mp hentry)
    exact h entry (hqueued entry hmem)
  rw [← length_toList_deposits, totalBalance, OrdMap.sumBy]
  exact mul_length_le_sum habove

/-- A recorded sweep brings in the threshold at least. -/
theorem Sweep.expectedReceived_ge (h : DepositsAbove log) {sweep : Sweep}
    (hrecorded : sweep.RecordedIn log) (hfits : SumsFit log) :
    rentExemptionThreshold.toNat ≤ sweep.expectedReceived.toNat := by
  have hge := totalBalance_ge h hrecorded
  have hlt := hfits.totalBalance_lt hrecorded
  have hbalance := sweep.totalBalance_eq
  obtain ⟨deposits, minterAddress, hplan, -⟩ := hrecorded
  have hpos := depositCount_pos hplan
  have hexpected := toNat_expectedReceived hplan hlt
  simp only [minimumSweptBalance, toNat_rentExemptionThreshold, toNat_feePerSignature] at *
  omega

section RentFloor

variable [SolanaSdk] {timestamp : Timestamp} {payload : EventType}

/-! ## What sweeps bring in -/

/-- A credit brings in the threshold at least, and no other event brings in anything. -/
theorem SettledCredits.amountReceived_ge {state : State} {view : View}
    (h : SettledCredits state timestamp payload) (hhistory : DepositHistory log state.deposits view)
    (hdeposits : DepositsAbove log) (hfits : SumsFit log) : payload.amountReceived = 0 ∨
      rentExemptionThreshold.toNat ≤ payload.amountReceived := by
  cases payload with
  | creditedSweep signature amountReceived mints =>
      obtain ⟨sweep, fetched, hsweep, hsettle⟩ := h _ _ _ rfl
      have hamount := Sweep.expectedReceived_ge hdeposits (hhistory.finalized hsweep) hfits
      rw [← (Sweep.settle_eq_ok hsettle).1] at hamount
      exact .inr hamount
  | _ => exact .inl rfl

/-- Sweeps bring in nothing, or the threshold at least. -/
theorem Canister.totalReceived_of_run {args : InitArgs} {now : Timestamp} {initial canister : Canister}
    (hinit : Canister.init args now = .ok initial) (hrun : Run Emits initial canister)
    (hdeposits : DepositsAbove canister.log) (hfits : SumsFit canister.log) :
    totalReceived canister.log = 0 ∨ rentExemptionThreshold.toNat ≤ totalReceived canister.log := by
  refine (hrun.invariant (fun reached =>
    (∃ view, DepositHistory reached.log reached.state.deposits view) ∧ (DepositsAbove reached.log → SumsFit reached.log → totalReceived reached.log = 0 ∨
      rentExemptionThreshold.toNat ≤ totalReceived reached.log)) ?_ ?_ ⟨?_, ?_⟩).2 hdeposits hfits
  · rintro reached transient ⟨⟨view, hhistory⟩, h⟩
    exact ⟨⟨view, hhistory.withWatchlist _⟩, h⟩
  · rintro state log now payload state' hemits ⟨⟨view, hhistory⟩, h⟩ heffect
    refine ⟨hhistory.effect heffect, fun hdeposits hfits => ?_⟩
    have hbefore := h hdeposits.of_append hfits.of_append
    have hnew := hemits.settled.amountReceived_ge hhistory hdeposits.of_append hfits.of_append
    simp only [totalReceived_append, totalReceived_singleton] at hbefore ⊢
    omega
  · exact ⟨_, .of_init hinit⟩
  · obtain ⟨_, pool, -, -, rfl⟩ := Canister.exists_of_init hinit
    exact fun _ _ => .inl rfl

/-! ## The minimum deposit amount -/

omit [SolanaSdk] in
theorem State.minimumDepositAmount_of_validate {state : State} (h : state.validate = .ok ⟨⟩) :
    minimumSweptBalance ≤ state.minimumDepositAmount.toNat := by
  simp only [validate, bind_eq_ok, check_eq_ok] at h
  obtain ⟨⟨⟩, -, ⟨⟩, -, ⟨⟩, -, ⟨⟩, hmin, -⟩ := h
  exact UInt64.le_iff_toNat_le.mp hmin

/-- Parameters change with an upgrade only, which validates them. -/
theorem State.Effect.minimumDepositAmount (heffect : state.Effect timestamp payload state')
    (h : minimumSweptBalance ≤ state.minimumDepositAmount.toNat) :
    minimumSweptBalance ≤ state'.minimumDepositAmount.toNat := by
  cases heffect with
  | upgrade hpool hvalid => exact minimumDepositAmount_of_validate hvalid
  | _ => exact h

namespace Config

variable {config config' : Config} {now : Timestamp} {action : Action} {minterId : Principal}
  {args : InitArgs}

/-- Deposits are queued above the minimum, now and by the calls in flight. -/
structure DepositFloor (config : Config) : Prop where
  parameter : minimumSweptBalance ≤ config.canister.state.minimumDepositAmount.toNat
  calls : ∀ call ∈ config.depositSolCalls, minimumSweptBalance ≤ call.minimumDepositAmount.toNat
  queued : DepositsAbove config.canister.log

theorem depositFloor_of_init (h : init minterId args now = .ok config) : config.DepositFloor := by
  obtain ⟨_, pool, -, hvalid, rfl⟩ := Config.exists_of_init h
  refine ⟨State.minimumDepositAmount_of_validate hvalid, by simp [idle], ?_⟩
  simp [DepositsAbove, idle, queuedDeposits, EventType.queuedEntry]

/-- A message that is not a balance scan queues what `deposit_sol` lets through. -/
theorem DepositFloor.steps (h : config.DepositFloor) (hwellformed : config.Wellformed)
    (hflow : ∀ deposit, action ≠ .queueDeposit deposit)
    (hsteps : config.Steps now action config') : config'.DepositFloor := by
  have hrun := hsteps.run hwellformed.replayable
  have hparameter : minimumSweptBalance ≤ config'.canister.state.minimumDepositAmount.toNat := by
    refine hrun.invariant (fun canister =>
      minimumSweptBalance ≤ canister.state.minimumDepositAmount.toNat) ?_ ?_ h.parameter
    · exact fun canister transient h => h
    · exact fun state log now payload state' _ h heffect => heffect.minimumDepositAmount h
  -- no event of the message queues a deposit
  have hframe (hnone : ∀ position reply refundedCycles acceptedCycles,
      action ≠ .balance position reply refundedCycles acceptedCycles) :
      DepositsAbove config'.canister.log := by
    intro entry hentry
    obtain ⟨timestamp, hmem⟩ := mem_queuedDeposits.mp hentry
    refine h.queued entry (mem_queuedDeposits.mpr ⟨timestamp, hrun.mem_log_of_not ?_ hmem⟩)
    intro _ _ hrecords
    rcases hrecords.recordedBy with ⟨position, reply, refunded, accepted, heq⟩ | ⟨deposit, heq⟩
    · exact hnone _ _ _ _ heq
    · exact hflow deposit heq
  cases hsteps with
  | queued => exact absurd rfl (hflow _)
  | depositSolStarted hdeposit =>
      refine ⟨hparameter, fun call hcall => ?_, hframe (by simp)⟩
      rcases List.mem_append.mp hcall with hold | hnew
      · exact h.calls call hold
      · obtain rfl := List.mem_singleton.mp hnew
        rw [(depositSol_eq_ok hdeposit).1.2.2]
        exact h.parameter
  | deposited hcall hbalance hevent =>
      refine ⟨hparameter, fun call hmem => h.calls call (List.mem_of_mem_eraseIdx hmem), ?_⟩
      obtain ⟨state, -, rfl⟩ := processEvent_eq_ok.mp hevent
      intro entry hentry
      rw [dropDepositSolGuard, updateTransient, queuedDeposits_append, List.mem_append] at hentry
      rcases hentry with hold | hnew
      · exact h.queued entry hold
      · obtain ⟨-, hdeposit⟩ := EventType.queuedDeposit.inj (mem_queuedDeposits_singleton.mp hnew)
        rw [← hdeposit]
        exact (h.calls _ (List.mem_of_getElem? hcall)).trans (UInt64.le_iff_toNat_le.mp hbalance)
  | depositSolEnded =>
      exact ⟨hparameter, fun call hmem => h.calls call (List.mem_of_mem_eraseIdx hmem), h.queued⟩
  | unchanged => exact h
  | withdrawEnded => exact ⟨hparameter, h.calls, h.queued⟩
  | upgraded => exact ⟨hparameter, by simp [idle], hframe (by simp)⟩
  | _ => exact ⟨hparameter, h.calls, hframe (by simp)⟩

theorem depositFloor_of_run {actions : List (Timestamp × Action)}
    (h : runFrom minterId args now actions = some config)
    (hflow : ∀ entry ∈ actions, ∀ deposit, entry.2 ≠ .queueDeposit deposit) :
    config.DepositFloor :=
  runFrom_step_invariant DepositFloor (fun _ => depositFloor_of_init)
    (fun _ _ _ _ hmem hwellformed hfloor hstep =>
      hfloor.steps hwellformed (hflow _ hmem) (steps_of_step hstep)) h

/-! ## The reserve -/

/-- Once a withdrawal was created, the balance keeps the main address rent exempt, and the round that
creates transactions can create all of its batches without going below. -/
structure RentHeld (config : Config) : Prop where
  balance : createdDebits config.canister.log ≠ [] →
    rentExemptionThreshold.toNat ≤ config.canister.state.balance.toNat
  creating : ∀ minterAddress batches, config.withdrawals = some (.creating minterAddress batches) →
    config.canister.state.Affords batches

omit [SolanaSdk] in
/-- A balance that does not fall, without a new withdrawal. -/
theorem RentHeld.of_le (h : config.RentHeld)
    (hdebits : createdDebits config'.canister.log = createdDebits config.canister.log)
    (hle : config.canister.state.balance.toNat ≤ config'.canister.state.balance.toNat)
    (hcreating : ∀ minterAddress batches,
      config'.withdrawals = some (.creating minterAddress batches) →
      ∃ batches', config.withdrawals = some (.creating minterAddress batches') ∧
        batches.Sublist batches') : config'.RentHeld := by
  constructor
  · intro hne
    exact (h.balance (hdebits ▸ hne)).trans hle
  · intro minterAddress batches hround hne
    obtain ⟨batches', hbefore, hsub⟩ := hcreating _ _ hround
    have hafford := h.creating _ _ hbefore (by
      rintro rfl
      exact hne (List.sublist_nil.mp hsub))
    have hsum := (hsub.map ReservedBatch.cost).sum_le_sum (by simp)
    omega

/-- A created transaction costs what was reserved for its batch. -/
theorem affords_of_created {batches : List ReservedBatch} {position : ℕ} {batch : ReservedBatch}
    {account : Address} {value : Hash} (hafford : state.Affords batches)
    (hreserves : state.Reserves batches) (hpending : PendingRecorded log state)
    (hbatch : batches[position]? = some batch)
    (heffect : state.Effect now (.createdWithdrawalTransaction batch.burnIndices account value)
      state') :
    rentExemptionThreshold.toNat + ((batches.eraseIdx position).map ReservedBatch.cost).sum ≤
      state'.balance.toNat := by
  obtain ⟨hposition, rfl⟩ := List.getElem?_eq_some_iff.mp hbatch
  have hmem := List.getElem_mem hposition
  have hbalance := (emits_of_reserves hreserves hbatch).balance_of_created hpending heffect
  have hcost : (withdrawalRecord log).cost batches[position].burnIndices =
      batches[position].cost := by
    rw [← hreserves.cost_eq hmem, hpending.cost_eq]
    intro i hi
    obtain ⟨request, hrequest, rfl⟩ := List.mem_map.mp hi
    obtain ⟨createdAt, hget⟩ := hreserves.pending _ hmem request hrequest
    exact ⟨_, hget⟩
  have hsum := ((List.getElem_cons_eraseIdx_perm hposition).map ReservedBatch.cost).sum_eq
  rw [List.map_cons, List.sum_cons] at hsum
  have hall := hafford (List.ne_nil_of_mem hmem)
  omega

omit [SolanaSdk] in
/-- What sweeps brought in grows, so an accounted balance does as long as nothing is debited. -/
theorem balance_le_of_accounted {canister canister' : Canister} {new : List Event}
    (h : canister.BalanceAccounted) (h' : canister'.BalanceAccounted)
    (hlog : canister'.log = canister.log ++ new)
    (hdebits : createdDebits canister'.log = createdDebits canister.log) :
    canister.state.balance.toNat ≤ canister'.state.balance.toNat := by
  have hreceived := totalReceived_append canister.log new
  simp only [BalanceAccounted, totalDebited, hdebits] at h h'
  rw [← hlog] at hreceived
  omega

/-- Only created transactions lower the balance, each by what was reserved for its batch. -/
theorem RentHeld.steps (h : config.RentHeld) (hprepared : config.Prepared)
    (hwellformed : config.Wellformed) (haccounted : config.canister.BalanceAccounted)
    (haccounted' : config'.canister.BalanceAccounted) (hsteps : config.Steps now action config') :
    config'.RentHeld := by
  have hrun := hsteps.run hwellformed.replayable
  obtain ⟨new, hlog, -⟩ := hrun.log_append
  -- no message of another task creates a transaction
  have hdebits (haction : ∀ step, action ≠ .withdrawals step) :
      createdDebits config'.canister.log = createdDebits config.canister.log := by
    refine hrun.invariant (fun reached =>
      createdDebits reached.log = createdDebits config.canister.log) (fun _ _ h => h) ?_ rfl
    intro state log t payload state' hrecords hsame _
    rw [createdDebits_append_of_not, hsame]
    rintro burnIndices account value rfl
    obtain ⟨step, heq⟩ := hrecords.recordedBy
    exact haction step heq
  have hle (hsame : createdDebits config'.canister.log = createdDebits config.canister.log) :=
    balance_le_of_accounted haccounted haccounted' hlog hsame
  cases hsteps with
  | withdrawals hsteps =>
      generalize hround : config.withdrawals = before at hsteps
      cases hsteps with
      | start hstart hkey =>
          rw [startTask_eq_some hstart]
          refine ⟨h.balance, fun minterAddress batches hcreating => ?_⟩
          obtain ⟨-, rfl⟩ := WithdrawalRound.creating.inj (Option.some.inj hcreating)
          exact (State.reserves_reservedBatches hprepared.pending).2
      | skipped =>
          refine h.of_le rfl (Nat.le_refl _) fun minterAddress batches hcreating => ?_
          obtain ⟨rfl, rfl⟩ := WithdrawalRound.creating.inj (Option.some.inj hcreating)
          exact ⟨_, hround, List.eraseIdx_sublist ..⟩
      | created hbatch hread hunseen hbuild hevent =>
          obtain ⟨state, happly, rfl⟩ := processEvent_eq_ok.mp hevent
          have hcovers := affords_of_created (h.creating _ _ hround) (hprepared.creating _ _ hround)
            hprepared.pending hbatch (State.effect_of_apply happly)
          refine ⟨fun _ => by dsimp only; omega, fun minterAddress batches hcreating _ => ?_⟩
          obtain ⟨-, rfl⟩ := WithdrawalRound.creating.inj (Option.some.inj hcreating)
          exact hcovers
      | signed hwithdrawal hevent =>
          obtain ⟨state, happly, rfl⟩ := processEvent_eq_ok.mp hevent
          refine h.of_le ?_ (hle ?_) (by simp)
          all_goals exact createdDebits_append_of_not (by simp)
      | requested | notSigned | ended => exact h.of_le rfl (Nat.le_refl _) (by simp)
  | upgraded => exact h.of_le (hdebits (by simp)) (hle (hdebits (by simp))) (by simp [idle])
  | unchanged => exact h
  | withdrawEnded | depositSolEnded => exact ⟨h.balance, h.creating⟩
  | _ =>
      exact h.of_le (hdebits (by simp)) (hle (hdebits (by simp))) fun _ batches hcreating =>
        ⟨batches, hcreating, .refl _⟩

theorem rentHeld_of_run {actions : List (Timestamp × Action)}
    (h : runFrom minterId args now actions = some config) (hfits : SumsFit config.canister.log) :
    config.RentHeld := by
  refine runFrom_induction (fun _ config => SumsFit config.canister.log → config.RentHeld) ?_ ?_ h hfits
  · intro config hinit _
    simp only [init, Canister.init, bind_eq_ok, mapError_eq_ok, pure_eq_ok] at hinit
    obtain ⟨_, ⟨state, -, rfl⟩, rfl⟩ := hinit
    refine ⟨fun hne => absurd ?_ hne, by simp [idle]⟩
    simp [idle, createdDebits, withdrawalRecord, WithdrawalRecord.apply, WithdrawalRecord.empty]
  · intro done config t action config' hdone hheld hsteps hfits'
    have hwellformed := wellformed_of_run hdone
    obtain ⟨hprepared, initial, hinit, hrun⟩ := emits_of_run hdone
    have hrun' := (hsteps.emits hprepared hwellformed).mono fun _ _ _ hpayload => hpayload.1
    obtain ⟨new, hlog, -⟩ := hrun'.log_append
    have hbefore : SumsFit config.canister.log := by
      rw [hlog] at hfits'
      exact hfits'.of_append
    have haccounted := (BalanceAccounted.of_init hinit).run (.of_init hinit) hrun hbefore
    exact (hheld hbefore).steps hprepared hwellformed haccounted
      (haccounted.run hprepared.pending hrun' hfits') hsteps

end Config

/-- The events that move the balance. -/
def EventType.movesBalance : EventType → Bool
  | creditedSweep .. | createdWithdrawalTransaction .. => true
  | _ => false

/-- The balance is what the events of the log account for, nothing else moves it, and it is zero or
keeps the main address rent exempt. -/
structure Canister.BalanceKept (canister : Canister) : Prop where
  accounted : canister.BalanceAccounted
  moved : ∀ payload now canister', payload.movesBalance = false →
    canister.processEvent payload now = .ok canister' →
    canister'.state.balance = canister.state.balance
  floor : canister.state.balance = 0 ∨ rentExemptionThreshold ≤ canister.state.balance

theorem State.Effect.balance_eq (h : state.Effect timestamp payload state')
    (hmoves : payload.movesBalance = false) :
    state'.balance = state.balance := by
  cases h with
  | createdWithdrawal | creditedSweep => cases hmoves
  | _ => rfl

/-- In every run whose deposits are queued by `deposit_sol` only, the balance is accounted for and
above the floor. -/
theorem Config.balanceKept_of_run {minterId : Principal} {args : InitArgs} {now : Timestamp}
    {actions : List (Timestamp × Action)} {config : Config}
    (h : runFrom minterId args now actions = some config)
    (hflow : ∀ entry ∈ actions, ∀ deposit, entry.2 ≠ .queueDeposit deposit)
    (hfits : SumsFit config.canister.log) : config.canister.BalanceKept := by
  obtain ⟨-, initial, hinit, hrun⟩ := emits_of_run h
  have haccounted := (BalanceAccounted.of_init hinit).run (.of_init hinit) hrun hfits
  refine ⟨haccounted, ?_, ?_⟩
  · intro payload now canister' hmoves hevent
    obtain ⟨state, happly, rfl⟩ := processEvent_eq_ok.mp hevent
    exact (State.effect_of_apply happly).balance_eq hmoves
  · rw [UInt64.le_iff_toNat_le, ← UInt64.toNat_inj]
    by_cases hnone : createdDebits config.canister.log = []
    -- before the first withdrawal, the balance is what sweeps brought in
    · have hreceived := totalReceived_of_run hinit hrun (depositFloor_of_run h hflow).queued hfits
      simp only [BalanceAccounted, totalDebited, hnone, List.map_nil, List.sum_nil] at haccounted
      rwa [← haccounted] at hreceived
    · exact .inr ((rentHeld_of_run h hfits).balance hnone)

end RentFloor

section Sample

attribute [local instance] Solana.sdk

/-- The message that sweeps the deposit of the sample account with the blockhash 100. -/
def sampleSweepMessage : Message :=
  SolanaSdk.newWithBlockhash
    [SolanaSdk.transfer sampleDepositAddress Solana.productionKey 29_104_120]
    (some sampleDepositAddress) 100

/-- A deposit through `deposit_sol` is swept and credited, and a withdrawal is created. -/
def sampleManualDeposit : List (Timestamp × Action) :=
  [(1, .publicKey ⟨Solana.productionKey, Solana.productionChainCode⟩),
    (2, .depositSol sampleAccount 20_000_000_000),
    (3, .balance 0 (.balance 30_000_000) 9_000_000_000 2_000_000_000),
    (4, .sweeps .start), (5, .sweeps (.block (some ⟨100, 1000⟩))),
    (6, .sweeps (.signed 0 (some 5))), (7, .sweeps .finish),
    (8, .finalization .start), (9, .finalization (.block (some 1001))),
    (10, .finalization (.statuses [some [some ⟨true, none⟩]])),
    (11, .finalization .fetchLanded), (12, .finalization .fetchFinalized),
    (13, .finalization (.finalized [some ⟨.legacy sampleSweepMessage, some
      ⟨none, 5_000, [30_000_000, 0, 1], [890_880, 29_104_120, 1]⟩⟩])),
    (20, .withdraw sampleAccount 2_000_000 "11111111111111111111111111111116"),
    (21, .burned 0 (.blockIndex 3)),
    (22, .withdrawals .start),
    (23, .withdrawals (.nonceRead 0 (some ⟨Solana.productionKey, 77⟩)))]

theorem Config.balanceKept_sampleManualDeposit :
    ∃ config, runFrom sampleMinterId sampleInitArgs 0 sampleManualDeposit = some config ∧
      (∀ entry ∈ sampleManualDeposit, ∀ deposit, entry.2 ≠ .queueDeposit deposit) ∧
      SumsFit config.canister.log ∧ config.canister.state.balance = 27_104_120 ∧
      config.canister.BalanceKept := by
  obtain ⟨config, hconfig, hfits, hbalance⟩ : ∃ config,
      runFrom sampleMinterId sampleInitArgs 0 sampleManualDeposit = some config ∧
      SumsFit config.canister.log ∧ config.canister.state.balance = 27_104_120 :=
    exists_of_any (by decide +kernel)
  have hflow : ∀ entry ∈ sampleManualDeposit, ∀ deposit, entry.2 ≠ .queueDeposit deposit := by
    simp [sampleManualDeposit]
  exact ⟨config, hconfig, hflow, hfits, hbalance, balanceKept_of_run hconfig hflow hfits⟩

end Sample

end Cksol
