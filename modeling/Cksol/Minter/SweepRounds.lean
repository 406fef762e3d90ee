import Mathlib.Data.List.Flatten
import Mathlib.Data.List.Perm.Basic
import Cksol.Minter.DepositCalls
import Cksol.Minter.RentFloor
import Cksol.Minter.TaskGuards
import Cksol.State.Submissions
import Cksol.State.SweepPlans

/-! # Sweep rounds

A round of `sweep_queued_deposits` works on a snapshot of the queue. No other task takes deposits out of
the queue, so the snapshot stays true until the round records its sweeps, and recording them does not
panic.
-/

namespace Cksol

open Std

variable {canister canister' : Canister} {planned : List PlannedSweep}

/-! ## Batches -/

section Batches

theorem maxDepositsPerSweep_pos : 0 < maxDepositsPerSweep := by decide

theorem flatten_sweepBatches (state : State) :
    (sweepBatches state).flatten = state.deposits.queued.toList.take maxDepositsPerRound :=
  flatten_chunks maxDepositsPerSweep_pos _

theorem leavesDepositsQueued_iff (state : State) :
    leavesDepositsQueued state = true ↔ maxDepositsPerRound < state.deposits.queued.size := by
  rw [leavesDepositsQueued, decide_eq_true_eq, List.length_take, ExtTreeMap.length_toList]
  omega

/-- The queue in the order of the ids. -/
theorem pairwise_queued (state : State) :
    (state.deposits.queued.toList.map Prod.fst).Pairwise (· < ·) := by
  rw [ExtTreeMap.map_fst_toList_eq_keys]
  exact ExtTreeMap.ordered_keys.imp fun h => Nat.compare_eq_lt.mp h

end Batches

/-! ## Snapshots of the queue -/

/-- The queue holds the given deposits, no id twice. -/
structure State.Queues (state : State) (entries : List (DepositSolId × QueuedDeposit)) : Prop where
  nodup : (entries.map Prod.fst).Nodup
  queued : ∀ entry ∈ entries, state.deposits.queued[entry.1]? = some entry.2

namespace State.Queues

variable {state state' : State} {entries entries' : List (DepositSolId × QueuedDeposit)}

theorem perm (h : state.Queues entries) (hperm : entries'.Perm entries) : state.Queues entries' :=
  ⟨(hperm.map _).nodup_iff.mpr h.nodup, fun entry hentry => h.queued entry (hperm.subset hentry)⟩

theorem sublist (h : state.Queues entries) (hsublist : entries'.Sublist entries) :
    state.Queues entries' :=
  ⟨h.nodup.sublist (hsublist.map _), fun entry hentry => h.queued entry (hsublist.subset hentry)⟩

theorem subperm (h : state.Queues entries) (hsubperm : entries'.Subperm entries) :
    state.Queues entries' := by
  obtain ⟨middle, hperm, hsublist⟩ := hsubperm
  exact (h.sublist hsublist).perm hperm.symm

theorem sweepBatches (state : State) : state.Queues (sweepBatches state).flatten := by
  have hall : state.Queues state.deposits.queued.toList := by
    refine ⟨(pairwise_queued state).imp fun h => Nat.ne_of_lt h, fun entry hentry => ?_⟩
    exact OrdMap.mem_toList_iff.mp hentry
  rw [flatten_sweepBatches]
  exact hall.sublist (List.take_sublist _ _)

variable [SolanaSdk] {timestamp : Timestamp} {payload : EventType} {view : View}

/-- Only submitted sweeps take deposits out of the queue. -/
theorem effect (h : state.Queues entries) (hview : Tracks state.deposits view)
    (hpayload : payload.submittedSweep = none) (heffect : state.Effect timestamp payload state') :
    state'.Queues entries := by
  refine ⟨h.nodup, fun entry hentry => ?_⟩
  have hentryQueued := h.queued entry hentry
  rcases heffect.queue hpayload with ⟨-, hqueued⟩ | ⟨deposit, -, hqueued⟩
  · rw [hqueued]
    exact hentryQueued
  · have hissued := hview.lt_nextId ((hview.queued _ _).mp hentryQueued)
    rw [hqueued, OrdMap.getElem?_insert_eq, if_neg (Nat.ne_of_gt hissued)]
    exact hentryQueued

theorem run {Emits : State → Timestamp → EventType → Prop} (h : canister.state.Queues entries)
    (hview : DepositHistory canister.log canister.state.deposits view)
    (hrun : Canister.Run Emits canister canister')
    (hemits : ∀ state t payload, Emits state t payload → payload.submittedSweep = none) :
    canister'.state.Queues entries := by
  refine (hrun.invariant (fun canister => canister.state.Queues entries ∧
    ∃ view, DepositHistory canister.log canister.state.deposits view) ?_ ?_ ⟨h, view, hview⟩).1
  · rintro canister transient ⟨h, view, hview⟩
    exact ⟨⟨h.nodup, h.queued⟩, view, hview.withWatchlist _⟩
  · rintro state log now payload state' hpayload ⟨h, view, hview⟩ heffect
    exact ⟨h.effect hview.tracks (hemits _ _ _ hpayload) heffect, hview.effect heffect⟩

/-- A submitted sweep leaves the other deposits of the snapshot in the queue. -/
theorem sweep {sweep : OrdMap DepositSolId QueuedDeposit} {signature : Signature} {message : Message}
    {signers : List Signer} {blockHeight : BlockHeight}
    (h : state.Queues (sweep.toList ++ entries))
    (heffect : state.Effect timestamp
      (.submittedTransaction signature message signers (.sweepDeposit sweep.keys blockHeight)) state') :
    state'.Queues entries := by
  have hnodup := h.nodup
  rw [List.map_append, List.nodup_append] at hnodup
  obtain ⟨-, hrest, hdisjoint⟩ := hnodup
  refine ⟨hrest, fun entry hentry => ?_⟩
  cases heffect with
  | sweptDeposits _ _ _ _ hsweep =>
      obtain ⟨taken, planned, -, -, -, -, -, -, rfl⟩ := Deposits.sweep_eq_ok hsweep
      dsimp only
      rw [OrdMap.getElem?_eraseAll, if_neg, h.queued entry (List.mem_append_right _ hentry)]
      intro hkey
      rw [← ExtTreeMap.map_fst_toList_eq_keys] at hkey
      exact hdisjoint _ hkey _ (List.mem_map_of_mem hentry) rfl

end State.Queues

/-! ## Planning -/

section Planning

variable [SolanaSdk]

/-- Every signer of the sweep message is the address of a deposit. -/
theorem exists_sweepSigners_eq_ok [SolanaSdk.LawfulSigners]
    {deposits : List (DepositSolId × QueuedDeposit)} {minterAddress : Address} {sweep : Sweep}
    (h : Sweep.plan deposits minterAddress = .ok sweep) (blockhash : Hash) :
    ∃ signers, sweepSigners sweep (sweep.sweepMessage blockhash) = .ok signers := by
  -- the payer and the signers of the transfers are their sources
  have hsource : ∀ key ∈ SolanaSdk.signerKeys (sweep.sweepMessage blockhash),
      ∃ transfer ∈ sweep.transfers, transfer.source = key := by
    intro key hkey
    rcases SolanaSdk.LawfulSigners.mem_signerKeys_new _ _ _ key hkey with
      hpayer | ⟨instruction, hinstruction, account, haccount, hsigner, rfl⟩
    · obtain ⟨transfer, hhead, rfl⟩ := Option.map_eq_some_iff.mp hpayer
      exact ⟨transfer, List.mem_of_mem_head? hhead, rfl⟩
    · obtain ⟨transfer, htransfer, rfl⟩ := List.mem_map.mp hinstruction
      exact ⟨transfer, htransfer,
        (SolanaSdk.LawfulSigners.transfer_signers _ _ _ account haccount hsigner).symm⟩
  refine exists_mapM_eq_ok fun key hkey => ?_
  obtain ⟨transfer, htransfer, rfl⟩ := hsource key hkey
  obtain ⟨deposit, hdeposit, haddress⟩ := Sweep.exists_deposit_of_mem_transfers h htransfer
  obtain ⟨account, haccount⟩ : ∃ account, (OrdMap.insertAll (∅ : OrdMap Address Account)
      (sweep.deposits.values.map fun deposit => (deposit.address, deposit.account)))[transfer.source]? =
        some account := by
    refine OrdMap.mem_iff_exists.mp (OrdMap.mem_insertAll_iff.mpr (.inl ?_))
    rw [List.map_map]
    exact List.mem_map.mpr ⟨deposit, hdeposit, haddress⟩
  refine ⟨.account account, ?_⟩
  simp only [haccount, orPanic, bind_eq_ok, pure_eq_ok]
  exact ⟨account, rfl, rfl⟩

omit [SolanaSdk] in
/-- The fee of a full sweep is below what a deposit above the minimum holds. -/
theorem QueuedDeposit.covers_fee {deposit : QueuedDeposit}
    (h : minimumSweptBalance ≤ deposit.balance.lamports.toNat) :
    feePerSignature.toNat * maxDepositsPerSweep ≤ deposit.sweepableAmount.toNat := by
  have hsweepable := deposit.balance.toNat_sweepableAmount
  simp only [QueuedDeposit.sweepableAmount, maxDepositsPerSweep, maxSignatures, minimumSweptBalance,
    toNat_rentExemptionThreshold, toNat_feePerSignature] at *
  omega

theorem exists_planSweep_eq_ok [SolanaSdk.LawfulSigners]
    {batch : List (DepositSolId × QueuedDeposit)} (hnodup : (batch.map Prod.fst).Nodup)
    (hbatch : batch ≠ [] ∧ batch.length ≤ maxDepositsPerSweep)
    (habove : ∀ entry ∈ batch, minimumSweptBalance ≤ entry.2.balance.lamports.toNat) (block : Block)
    (sweepDestination : Address) :
    ∃ planned, planSweep batch block sweepDestination = .ok planned := by
  obtain ⟨sweep, hplan⟩ := Sweep.exists_plan_eq_ok hnodup hbatch.1 hbatch.2
    (fun entry hentry => QueuedDeposit.covers_fee (habove entry hentry)) sweepDestination
  obtain ⟨signers, hsigners⟩ := exists_sweepSigners_eq_ok hplan block.blockhash
  cases hsize : ensureWithinTransactionSize (sweep.sweepMessage block.blockhash) with
  | error error =>
      refine ⟨none, ?_⟩
      simp only [planSweep, bind_eq_ok]
      exact ⟨sweep, hplan, signers, hsigners, by rw [hsize]; rfl⟩
  | ok =>
      refine ⟨some ⟨sweep, sweep.sweepMessage block.blockhash, signers, block.blockHeight⟩, ?_⟩
      simp only [planSweep, bind_eq_ok]
      exact ⟨sweep, hplan, signers, hsigners, by rw [hsize]; rfl⟩

/-- The sweeps of a round move deposits of its batches, each of them once. -/
theorem planSweeps_eq_ok {batches : List (List (DepositSolId × QueuedDeposit))} {block : Block}
    {sweepDestination : Address} (h : planSweeps batches block sweepDestination = .ok planned) :
    (planned.flatMap fun sweep => sweep.sweep.deposits.toList).Subperm batches.flatten ∧
      ∀ sweep ∈ planned, Sweep.plan sweep.sweep.deposits.toList sweepDestination = .ok sweep.sweep ∧
        sweep.message = sweep.sweep.sweepMessage block.blockhash := by
  simp only [planSweeps, bind_eq_ok, pure_eq_ok] at h
  obtain ⟨results, hresults, rfl⟩ := h
  have hall := forall₂_of_mapM_eq_ok hresults
  clear hresults
  induction hall with
  | nil => exact ⟨List.Subperm.refl _, by simp⟩
  | @cons batch result batches results hresult _ ih =>
      obtain ⟨hsubperm, hplanned⟩ := ih
      cases result with
      | none =>
          exact ⟨hsubperm.trans (List.sublist_append_right _ _).subperm, hplanned⟩
      | some sweep =>
          obtain ⟨hplan, hmessage, -⟩ := planSweep_eq_ok hresult
          obtain ⟨_, _, hunique, -⟩ := Sweep.plan_eq_ok hplan
          have hperm := Sweep.toList_perm_of_unique hunique
          refine ⟨(hperm.subperm.append hsubperm :), ?_⟩
          exact List.forall_mem_cons.mpr
            ⟨⟨Sweep.plan_toList_deposits hplan, hmessage⟩, hplanned⟩

end Planning

/-! ## The round in progress -/

section Rounds

variable [SolanaSdk]

open Canister (Run)

/-- What a round keeps across its awaits is true of the state: its deposits are queued as it read them,
and its sweeps are the plans under the recorded key. -/
def SweepRound.Current (state : State) : SweepRound → Prop
  | .fetchingBlock batches sweepDestination =>
      state.Queues batches.flatten ∧
      (∀ batch ∈ batches, batch ≠ [] ∧ batch.length ≤ maxDepositsPerSweep) ∧
      ∃ key, state.minterPublicKey = some key ∧ sweepDestination = minterAddress key
  | .signing planned =>
      state.Queues (planned.flatMap fun sweep => sweep.sweep.deposits.toList) ∧
      ∃ key, state.minterPublicKey = some key ∧ ∀ sweep ∈ planned,
        Sweep.plan sweep.sweep.deposits.toList (minterAddress key) = .ok sweep.sweep ∧
        ∃ blockhash, sweep.message = sweep.sweep.sweepMessage blockhash

/-- Other tasks and calls leave the round current. -/
theorem SweepRound.Current.run {Emits : State → Timestamp → EventType → Prop} {round : SweepRound}
    {view : View} (h : round.Current canister.state)
    (hview : DepositHistory canister.log canister.state.deposits view)
    (hrun : Run Emits canister canister')
    (hemits : ∀ state t payload, Emits state t payload → payload.submittedSweep = none) :
    round.Current canister'.state := by
  cases round with
  | fetchingBlock batches sweepDestination =>
      obtain ⟨hqueues, hbatches, key, hkey, hdestination⟩ := h
      exact ⟨hqueues.run hview hrun hemits, hbatches, key, hrun.minterPublicKey hkey, hdestination⟩
  | signing planned =>
      obtain ⟨hqueues, key, hkey, hplanned⟩ := h
      exact ⟨hqueues.run hview hrun hemits, key, hrun.minterPublicKey hkey, hplanned⟩

/-- The messages of the round leave it current. -/
theorem SweepRound.Steps.current {now : Timestamp} {before after : Option SweepRound}
    {action : SweepAction} {requested : List PlannedSweep}
    (hsteps : SweepRound.Steps canister now before action (canister', after, requested))
    (h : ∀ round ∈ before, round.Current canister.state) :
    ∀ round ∈ after, round.Current canister'.state := by
  rintro round hround
  cases hsteps with
  | start hstart hkey =>
      obtain rfl := Option.some.inj hround
      rw [Canister.startTask_eq_some hstart]
      have hqueues := State.Queues.sweepBatches canister.state
      exact ⟨⟨hqueues.nodup, hqueues.queued⟩,
        fun batch hbatch => ne_nil_and_length_le_of_mem_chunks maxDepositsPerSweep_pos hbatch,
        _, hkey, rfl⟩
  | @planned batches sweepDestination block planned hplanned =>
      obtain rfl := Option.some.inj hround
      obtain ⟨hqueues, -, key, hkey, rfl⟩ := h _ rfl
      obtain ⟨hsubperm, hsweeps⟩ := planSweeps_eq_ok hplanned
      refine ⟨hqueues.subperm hsubperm, key, hkey, fun sweep hsweep => ?_⟩
      exact ⟨(hsweeps sweep hsweep).1, block.blockhash, (hsweeps sweep hsweep).2⟩
  | @notSigned planned position =>
      obtain rfl := Option.some.inj hround
      obtain ⟨hqueues, key, hkey, hplanned⟩ := h _ rfl
      have hsublist := List.eraseIdx_sublist planned position
      exact ⟨hqueues.sublist (hsublist.flatMap _), key, hkey,
        fun sweep hsweep => hplanned sweep (hsublist.subset hsweep)⟩
  | @signed planned sweep position signature _ hsweep hevent =>
      obtain rfl := Option.some.inj hround
      obtain ⟨hqueues, key, hkey, hplanned⟩ := h _ rfl
      obtain ⟨state, happly, rfl⟩ := Canister.processEvent_eq_ok.mp hevent
      have heffect := State.effect_of_apply happly
      obtain ⟨hposition, rfl⟩ := List.getElem?_eq_some_iff.mp hsweep
      have hperm := (List.getElem_cons_eraseIdx_perm hposition).flatMap_right
        fun sweep => sweep.sweep.deposits.toList
      refine ⟨(hqueues.perm hperm).sweep heffect, key,
        State.minterPublicKey_of_effect heffect hkey, fun sweep hsweep => ?_⟩
      exact hplanned sweep (List.mem_of_mem_eraseIdx hsweep)
  | ended => cases hround

namespace Config

variable {config config' : Config} {now : Timestamp} {action : Action}

/-- The round of sweeps in progress, if any, is current. -/
def SweepsCurrent (config : Config) : Prop :=
  ∀ round ∈ config.sweeps, round.Current config.canister.state

theorem SweepsCurrent.steps (h : config.SweepsCurrent) (hwellformed : config.Wellformed) {view : View}
    (hview : DepositHistory config.canister.log config.canister.state.deposits view)
    (hsteps : config.Steps now action config') : config'.SweepsCurrent := by
  have hrun := hsteps.run hwellformed.replayable
  have hframe (hrecords : ∀ payload, action.Records payload → payload.submittedSweep = none)
      (hround : config'.sweeps = config.sweeps) : config'.SweepsCurrent := by
    intro round hmem
    rw [hround] at hmem
    exact (h round hmem).run hview hrun fun _ _ payload => hrecords payload
  cases hsteps with
  | sweeps hsteps => exact hsteps.current h
  | unchanged => exact h
  | upgraded => exact nofun
  | withdrawEnded =>
      intro round hmem
      exact (h round hmem).run hview (Run.dropWithdrawalGuard _ : Run (fun _ _ _ => False) _ _)
        fun _ _ _ => False.elim
  | depositSolEnded =>
      intro round hmem
      exact (h round hmem).run hview (Run.dropDepositSolGuard _ : Run (fun _ _ _ => False) _ _)
        fun _ _ _ => False.elim
  | _ =>
      refine hframe (fun payload hpayload => ?_) rfl
      cases payload with
      | submittedTransaction signature message signers purpose =>
          cases purpose with
          | withdrawal => rfl
          | sweepDeposit =>
              obtain ⟨step, heq⟩ := hpayload.recordedBy
              cases heq
      | _ => rfl

theorem sweepsCurrent_of_run {minterId : Principal} {args : InitArgs}
    {actions : List (Timestamp × Action)} (h : runFrom minterId args now actions = some config) :
    config.SweepsCurrent := by
  refine runFrom_induction (fun _ config => config.SweepsCurrent) ?_ ?_ h
  · intro config hinit
    obtain ⟨canister, hcanister, rfl⟩ := init_eq_ok.mp hinit
    intro round hround
    cases hround
  · intro done config t action config' hdone hcurrent hsteps
    obtain ⟨-, initial, hinit, hrun⟩ := emits_of_run hdone
    obtain ⟨view, hview⟩ := (DepositHistory.of_init hinit).run hrun
    exact hcurrent.steps (wellformed_of_run hdone) hview hsteps

end Config

/-! ## No panics -/

/-- A round that has its block plans all of its sweeps. -/
theorem SweepRound.Current.plans [SolanaSdk.LawfulSigners] {state : State}
    {batches : List (List (DepositSolId × QueuedDeposit))} {sweepDestination : Address}
    (h : (SweepRound.fetchingBlock batches sweepDestination).Current state)
    (habove : ∀ (depositId : DepositSolId) (deposit : QueuedDeposit),
      state.deposits.queued[depositId]? = some deposit →
        minimumSweptBalance ≤ deposit.balance.lamports.toNat)
    (block : Block) :
    ∃ planned, planSweeps batches block sweepDestination = .ok planned := by
  obtain ⟨hqueues, hbatches, -⟩ := h
  have hplan : ∀ batch ∈ batches, ∃ planned, planSweep batch block sweepDestination = .ok planned := by
    intro batch hbatch
    have hqueued := hqueues.sublist (List.sublist_flatten_of_mem hbatch)
    refine exists_planSweep_eq_ok hqueued.nodup (hbatches batch hbatch) (fun entry hentry => ?_)
      block sweepDestination
    exact habove _ _ (hqueued.queued entry hentry)
  obtain ⟨results, hresults⟩ := exists_mapM_eq_ok hplan
  refine ⟨results.filterMap id, ?_⟩
  simp only [planSweeps, bind_eq_ok, pure_eq_ok]
  exact ⟨results, hresults, rfl⟩

/-- A planned sweep is recovered from the queue as it was planned. -/
theorem SweepRound.Current.recovers [SolanaSdk.Lawful] {state : State}
    (h : (SweepRound.signing planned).Current state) {sweep : PlannedSweep}
    (hsweep : sweep ∈ planned) :
    ∃ key, state.minterPublicKey = some key ∧
      (∀ entry ∈ sweep.sweep.deposits.toList, state.deposits.queued[entry.1]? = some entry.2) ∧
      Sweep.recover sweep.sweep.deposits.toList (minterAddress key) sweep.message =
        .ok (.ok sweep.sweep) := by
  obtain ⟨hqueues, key, hkey, hplanned⟩ := h
  obtain ⟨hplan, blockhash, hmessage⟩ := hplanned sweep hsweep
  refine ⟨key, hkey, fun entry hentry => ?_, ?_⟩
  · exact hqueues.queued entry (List.mem_flatMap.mpr ⟨sweep, hsweep, hentry⟩)
  · rw [hmessage]
    exact Sweep.recover_sweepMessage hplan blockhash

/-- A planned sweep is recorded under any new signature. -/
theorem SweepRound.Current.records [SolanaSdk.Lawful] {canister : Canister} {view : View}
    (h : (SweepRound.signing planned).Current canister.state) (htables : canister.Tables)
    (hview : DepositHistory canister.log canister.state.deposits view)
    (hsignatures : SignatureHistory canister.log canister.state) {sweep : PlannedSweep}
    (hsweep : sweep ∈ planned) {signature : Signature}
    (hfresh : signature ∉ submittedSignatures canister.log) (now : Timestamp) :
    ∃ canister', recordSweep canister sweep (some signature) now = .ok canister' := by
  obtain ⟨hqueues, key, hkey, hplanned⟩ := h
  obtain ⟨hplan, blockhash, hmessage⟩ := hplanned sweep hsweep
  obtain ⟨hsubmitted, hsucceeded, hfailed⟩ := hsignatures.fresh signature hfresh
  -- the swept sweeps are submitted, so the signature is new to them as well
  have hswept : canister.state.deposits.swept.bySignature[signature]? = none := by
    refine Option.eq_none_iff_forall_ne_some.mpr fun other hother => ?_
    obtain ⟨blockHeight, hget⟩ := (htables.sweeps signature).mpr ⟨other, hother⟩
    rw [hsubmitted] at hget
    cases hget
  have hqueued : ∀ (depositId : DepositSolId) (deposit : QueuedDeposit),
      sweep.sweep.deposits[depositId]? = some deposit →
      canister.state.deposits.queued[depositId]? = some deposit := by
    intro depositId deposit hdeposit
    exact hqueues.queued (depositId, deposit)
      (List.mem_flatMap.mpr ⟨sweep, hsweep, OrdMap.mem_toList_iff.mpr hdeposit⟩)
  have hsweeps := Deposits.sweep_planned hview.tracks hplan hqueued hswept blockhash
  rw [← hmessage] at hsweeps
  obtain ⟨state, hstate⟩ : ∃ state, canister.state.processTransactionSubmitted signature sweep.message
      sweep.signers (.sweepDeposit sweep.sweep.deposits.keys sweep.blockHeight) now = .ok state := by
    simp only [State.processTransactionSubmitted, State.submitTransaction, bind_eq_ok,
      orPanic_eq_ok, check_eq_ok, pure_eq_ok, InsertionOrderedMap.not_containsKey_iff]
    exact ⟨_, ⟨⟩, hsucceeded, ⟨⟩, hfailed, _, ⟨key, hkey, _, hsweeps, rfl⟩, ⟨⟩, hsubmitted, rfl⟩
  exact ⟨_, Canister.processEvent_eq_ok.mpr ⟨state, hstate, rfl⟩⟩

/-! ## Whole runs -/

namespace Config

variable {config config' : Config} {now : Timestamp} {action : Action}

/-- The transactions that a message of the round passes to `submit_transaction`. -/
def sentSweeps (config : Config) (now : Timestamp) : Action → List (Signature × Message)
  | .sweeps (.signed position reply) =>
      match config.sweeps with
      | some (.signing planned) =>
          match planned[position]?.map (submitSweepTransaction config.canister · reply now) with
          | some (.ok (_, sent)) => sent
          | _ => []
      | _ => []
  | _ => []

theorem recorded_of_sent (hstep : config.step now action = some config')
    {sent : Signature × Message} (hsent : sent ∈ config.sentSweeps now action) :
    ∃ signers depositIds blockHeight, ⟨now, .submittedTransaction sent.1 sent.2 signers
      (.sweepDeposit depositIds blockHeight)⟩ ∈ config'.canister.log := by
  unfold sentSweeps at hsent
  split at hsent
  case h_2 => cases hsent
  case h_1 position reply =>
    split at hsent
    case h_2 => cases hsent
    case h_1 planned hround =>
      split at hsent
      case h_2 => cases hsent
      case h_1 canister sent' hsubmit =>
        obtain ⟨sweep, hsweep, hsubmit⟩ := Option.map_eq_some_iff.mp hsubmit
        simp only [submitSweepTransaction, bind_eq_ok, pure_eq_ok, Prod.mk.injEq] at hsubmit
        obtain ⟨canister, hrecord, rfl, rfl⟩ := hsubmit
        obtain ⟨signature, hreply, rfl⟩ := List.mem_map.mp hsent
        obtain rfl := Option.mem_toList.mp hreply
        -- the message that sends has recorded the event
        have hlog : config'.canister = canister := by
          simp only [step, SweepRound.step, hround, hsweep, hrecord, orTrap, Option.bind_eq_bind,
            Option.bind_some, Option.pure_def, Option.some.injEq] at hstep
          rw [← hstep]
        obtain ⟨state, -, rfl⟩ := Canister.processEvent_eq_ok.mp hrecord
        rw [hlog]
        exact ⟨_, _, _, List.mem_append_right _ (List.mem_singleton_self _)⟩

/-- What holds of the rounds of sweeps in every reachable state. -/
structure SweepsSafe (config : Config) : Prop where
  /-- A round in progress holds the guard of the task, so no second one starts. -/
  guarded : config.sweeps.isSome → config.canister.startTask .sweepDeposits = none
  /-- A round that starts takes its batches from the queue. -/
  starts : ∀ now config', config.step now (.sweeps .start) = some config' → ∃ sweepDestination,
    config'.sweeps = some (.fetchingBlock (sweepBatches config.canister.state) sweepDestination)
  /-- The batches are consecutive chunks of the first deposits in id order. -/
  batches : (∀ batch ∈ sweepBatches config.canister.state, batch ≠ [] ∧ batch.length ≤ 10) ∧
    (sweepBatches config.canister.state).flatten =
      config.canister.state.deposits.queued.toList.take 100 ∧
    (config.canister.state.deposits.queued.toList.map Prod.fst).Pairwise (· < ·)
  leaves : leavesDepositsQueued config.canister.state ↔
    100 < config.canister.state.deposits.queued.size
  /-- Whatever block is fetched, planning does not panic. -/
  plans : ∀ batches sweepDestination,
    config.sweeps = some (.fetchingBlock batches sweepDestination) →
    ∀ block, ∃ planned, planSweeps batches block sweepDestination = .ok planned
  /-- The plan from the queue builds the message that was passed to the signer. -/
  recovers : ∀ planned, config.sweeps = some (.signing planned) → ∀ sweep ∈ planned,
    ∃ key, config.canister.state.minterPublicKey = some key ∧
      (∀ entry ∈ sweep.sweep.deposits.toList,
        config.canister.state.deposits.queued[entry.1]? = some entry.2) ∧
      Sweep.recover sweep.sweep.deposits.toList (minterAddress key) sweep.message =
        .ok (.ok sweep.sweep)
  /-- Recording a sweep under a new signature does not panic. -/
  records : ∀ planned, config.sweeps = some (.signing planned) → ∀ sweep ∈ planned,
    ∀ signature ∉ submittedSignatures config.canister.log, ∀ now, ∃ canister,
      recordSweep config.canister sweep (some signature) now = .ok canister
  /-- A message that sends a sweep has recorded its submission. -/
  sends : ∀ now action config', config.step now action = some config' →
    ∀ sent ∈ config.sentSweeps now action, ∃ signers depositIds blockHeight,
      ⟨now, .submittedTransaction sent.1 sent.2 signers (.sweepDeposit depositIds blockHeight)⟩ ∈
        config'.canister.log
  /-- No deposit is part of two recorded sweeps. -/
  once : (submittedSweeps config.canister.log).flatten.Nodup

/-- In every run whose deposits are queued by `deposit_sol`, a round of sweeps does not panic and sweeps
no deposit twice. -/
theorem sweepsSafe_of_run [SolanaSdk.Lawful] [SolanaSdk.LawfulSigners] {minterId : Principal}
    {args : InitArgs} {actions : List (Timestamp × Action)}
    (h : runFrom minterId args now actions = some config)
    (hflow : ∀ entry ∈ actions, ∀ deposit, entry.2 ≠ .queueDeposit deposit) : config.SweepsSafe := by
  have hwellformed := wellformed_of_run h
  have hcurrent := sweepsCurrent_of_run h
  have hfloor := depositFloor_of_run h hflow
  obtain ⟨-, initial, hinit, hrun⟩ := emits_of_run h
  obtain ⟨view, hview⟩ := (DepositHistory.of_init hinit).run hrun
  have hsignatures := (SignatureHistory.of_init hinit).run hrun
  have hswept := (SweptOnce.of_init hinit).run (DepositHistory.of_init hinit) hrun
  constructor
  case guarded =>
    intro hround
    rw [Canister.startTask, if_pos ((roundsGuarded_of_run h).sweeps hround)]
  case starts =>
    intro now config' hstep
    simp only [step, Option.bind_eq_bind, Option.bind_eq_some_iff] at hstep
    obtain ⟨⟨canister, round, requested⟩, hround, hconfig⟩ := hstep
    obtain rfl := Option.some.inj hconfig
    cases hbefore : config.sweeps with
    | some before =>
        rw [hbefore] at hround
        cases hround
    | none =>
        rw [hbefore] at hround
        cases SweepRound.steps_of_step hround with
        | start hstart hkey => exact ⟨_, rfl⟩
  case batches =>
    exact ⟨fun batch hbatch => ne_nil_and_length_le_of_mem_chunks maxDepositsPerSweep_pos hbatch,
      flatten_sweepBatches _, pairwise_queued _⟩
  case leaves => exact leavesDepositsQueued_iff _
  case plans =>
    intro batches sweepDestination hround
    refine (hcurrent _ hround).plans fun depositId deposit hqueued => ?_
    -- what is in the queue was recorded as queued, with a balance above the minimum
    refine hfloor.queued _ ((hview.queued depositId deposit).mp ?_)
    rw [View.deposit, (hview.tracks.queued _ _).mp hqueued]
    rfl
  case recovers => exact fun planned hround sweep hsweep => (hcurrent _ hround).recovers hsweep
  case records =>
    exact fun planned hround sweep hsweep signature hfresh =>
      (hcurrent _ hround).records hwellformed.tables hview hsignatures hsweep hfresh
  case sends => exact fun now action config' hstep sent => recorded_of_sent hstep
  case once => exact hswept.nodup

end Config

end Rounds

section Sample

attribute [local instance] Solana.sdk

/-- Two deposits are in a round of sweeps when a third one is queued. -/
def sampleSweeping : List (Timestamp × Action) :=
  sampleDepositCalls.take 4 ++
    [(5, .balance 0 (.balance 20_000_000) 9_000_000_000 2_000_000_000),
      (6, .sweeps .start), (7, .depositSol ⟨.single 7, none⟩ 20_000_000_000),
      (8, .sweeps (.block (some ⟨100, 1000⟩))),
      (9, .balance 0 (.balance 10_000_000) 9_000_000_000 2_000_000_000)]

theorem Config.sweepsSafe_sampleSweeping :
    ∃ config, runFrom sampleMinterId sampleInitArgs 0 sampleSweeping = some config ∧
      (∀ entry ∈ sampleSweeping, ∀ deposit, entry.2 ≠ .queueDeposit deposit) ∧
      (config.sweeps.any (· matches .signing [_]) ∧
        config.canister.state.deposits.queued.size = 3) ∧ config.SweepsSafe := by
  have hsome : ((runFrom sampleMinterId sampleInitArgs 0 sampleSweeping).any fun config =>
      config.sweeps.any (· matches .signing [_]) ∧
        config.canister.state.deposits.queued.size = 3) = true := by decide +kernel
  have hflow : ∀ entry ∈ sampleSweeping, ∀ deposit, entry.2 ≠ .queueDeposit deposit := by
    simp [sampleSweeping, sampleDepositCalls]
  obtain ⟨config, hconfig, htest⟩ := (Option.any_eq_true _ _).mp hsome
  have := Solana.lawful_sdk
  have := Solana.lawfulSigners_sdk
  exact ⟨config, hconfig, hflow, of_decide_eq_true htest, sweepsSafe_of_run hconfig hflow⟩

end Sample

end Cksol
