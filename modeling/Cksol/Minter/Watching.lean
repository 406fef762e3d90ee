import Cksol.Minter.Runs
import Cksol.State.Statuses
import Cksol.Utils.Expiry

/-! # The watchlist

An account is registered while it has no deposit in flight, and queueing a deposit takes its account off
the watchlist. The watchlist itself is a timed map whose index stays consistent.
-/

namespace Cksol

open Std Canister

/-! ## Accounts in flight -/

section InFlight

variable [SolanaSdk]

/-- Only `queue` touches the watchlist or reserves an account. -/
theorem Deposits.released_of_transition {deposits deposits' : Deposits} {t : DepositTransition}
    (h : deposits.transition t = .ok deposits')
    (hqueue : ∀ id deposit queuedAt, t ≠ .queue id deposit queuedAt) :
    deposits'.watchlist = deposits.watchlist ∧
      ∀ key : AccountKey, deposits.inFlightIds[key]? = none → deposits'.inFlightIds[key]? = none := by
  cases t with
  | queue id deposit queuedAt => exact absurd rfl (hqueue _ _ _)
  | sweep depositIds minterAddress message signature =>
      obtain ⟨⟨_, amount⟩, hsweep, rfl⟩ := map_eq_ok.mp h
      obtain ⟨taken, sweep, -, -, -, -, -, -, rfl⟩ := sweep_eq_ok hsweep
      exact ⟨rfl, fun _ => id⟩
  | dropSwept signature =>
      obtain ⟨sweep, -, -, rfl⟩ := dropSwept_eq_ok h
      refine ⟨rfl, fun key hkey => ?_⟩
      rw [OrdMap.getElem?_eraseAll]
      split
      · rfl
      · exact hkey
  | finalizeSwept signature =>
      obtain ⟨sweep, -, -, rfl⟩ := finalizeSwept_eq_ok h
      exact ⟨rfl, fun _ => id⟩
  | quarantineSweep signature =>
      obtain ⟨sweep, -, rfl⟩ := quarantineSweep_eq_ok h
      exact ⟨rfl, fun _ => id⟩
  | creditSweep signature mints timestamp =>
      obtain ⟨⟨_, sweep⟩, hcredit, rfl⟩ := map_eq_ok.mp h
      obtain ⟨-, -, pendingMints, -, rfl⟩ := creditSweep_eq_ok hcredit
      exact ⟨rfl, fun _ => id⟩
  | mint depositId mintBlockIndex =>
      obtain ⟨pending, -, -, rfl⟩ := mint_eq_ok h
      refine ⟨rfl, fun key hkey => ?_⟩
      rw [OrdMap.getElem?_erase_eq]
      split
      · rfl
      · exact hkey
  | quarantinePendingMint depositId =>
      obtain ⟨pending, -, rfl⟩ := quarantinePendingMint_eq_ok h
      exact ⟨rfl, fun _ => id⟩

variable {state state' : State} {timestamp : Timestamp} {payload : EventType} {key : AccountKey}

theorem State.Effect.released (heffect : state.Effect timestamp payload state')
    (hqueue : ∀ id deposit, payload ≠ .queuedDeposit id deposit) :
    state'.deposits.watchlist = state.deposits.watchlist ∧
      ∀ key : AccountKey, state.deposits.inFlightIds[key]? = none →
        state'.deposits.inFlightIds[key]? = none := by
  rcases heffect.deposits with hsame | ⟨t, htransition, hqueued⟩
  · rw [hsame]
    exact ⟨rfl, fun _ => id⟩
  · exact Deposits.released_of_transition htransition fun id deposit queuedAt heq =>
      hqueue _ _ (hqueued id deposit queuedAt heq)

/-- Without a queued deposit, no account gets into flight. -/
theorem Canister.Run.notInFlight {Emits : State → Timestamp → EventType → Prop}
    {canister canister' : Canister} (hrun : Run Emits canister canister')
    (hqueue : ∀ state t id deposit, ¬ Emits state t (.queuedDeposit id deposit))
    (h : canister.state.deposits.inFlightIds[key]? = none) :
    canister'.state.deposits.inFlightIds[key]? = none := by
  refine hrun.invariant (fun canister => canister.state.deposits.inFlightIds[key]? = none) ?_ ?_ h
  · exact fun canister transient h => h
  · intro state log now payload state' hemits h heffect
    refine (heffect.released ?_).2 key h
    rintro id deposit rfl
    exact hqueue _ _ _ _ hemits

end InFlight

/-! ## The fields that calls of users change -/

/-- The transient fields besides the active tasks. -/
structure CallFields where
  depositSolGuards : List AccountKey
  withdrawalGuards : List AccountKey
  watchlist : Watchlist

/-- What the rounds of the timers leave alone. -/
def Canister.callFields (canister : Canister) : CallFields where
  depositSolGuards := canister.state.pendingDepositSolRequestGuards
  withdrawalGuards := canister.state.pendingWithdrawalRequestGuards
  watchlist := canister.state.deposits.watchlist

section CallFields

variable [SolanaSdk] {canister canister' : Canister} {now : Timestamp}

theorem callFields_of_processEvent {payload : EventType}
    (h : canister.processEvent payload now = .ok canister')
    (hqueue : ∀ id deposit, payload ≠ .queuedDeposit id deposit) :
    canister'.callFields = canister.callFields := by
  obtain ⟨state, happly, rfl⟩ := processEvent_eq_ok.mp h
  have heffect := State.effect_of_apply happly
  have hguards : state.pendingDepositSolRequestGuards = canister.state.pendingDepositSolRequestGuards ∧
      state.pendingWithdrawalRequestGuards = canister.state.pendingWithdrawalRequestGuards := by
    cases heffect <;> exact ⟨rfl, rfl⟩
  rw [callFields, callFields, hguards.1, hguards.2, (heffect.released hqueue).1]

theorem callFields_of_processEvents {payloads : List EventType}
    (h : canister.processEvents payloads now = .ok canister')
    (hqueue : ∀ payload ∈ payloads, ∀ id deposit, payload ≠ .queuedDeposit id deposit) :
    canister'.callFields = canister.callFields := by
  induction payloads generalizing canister with
  | nil => rw [Except.ok.inj h]
  | cons payload payloads ih =>
      rw [processEvents, List.foldlM_cons, bind_eq_ok] at h
      obtain ⟨middle, hevent, h⟩ := h
      rw [ih h fun p hp => hqueue p (List.mem_cons_of_mem _ hp)]
      exact callFields_of_processEvent hevent (hqueue payload List.mem_cons_self)

omit [SolanaSdk] in
theorem callFields_of_startTask {task : TaskType} (h : canister.startTask task = some canister') :
    canister'.callFields = canister.callFields := by
  rw [startTask_eq_some h]
  rfl

theorem WithdrawalRound.Steps.callFields {round round' : Option WithdrawalRound}
    {action : WithdrawalAction} {requested : List BoundWithdrawal}
    (h : WithdrawalRound.Steps canister now round action (canister', round', requested)) :
    canister'.callFields = canister.callFields := by
  cases h with
  | start hstart hkey => exact callFields_of_startTask hstart
  | created hbatch hread hunseen hbuild hevent => exact callFields_of_processEvent hevent (by simp)
  | signed hwithdrawal hevent => exact callFields_of_processEvent hevent (by simp)
  | _ => rfl

theorem FinalizeRound.Steps.callFields {round round' : Option FinalizeRound}
    {action : FinalizeAction}
    (h : FinalizeRound.Steps canister now round action (canister', round')) :
    canister'.callFields = canister.callFields := by
  have hqueue {payload : EventType} (hp : payload.isFinalization) (id : DepositSolId)
      (deposit : QueuedDeposit) : payload ≠ .queuedDeposit id deposit := by
    rintro rfl
    cases hp
  cases h with
  | startReading hstart | startChecking hstart => exact callFields_of_startTask hstart
  | checked hevents =>
      exact callFields_of_processEvents hevents fun payload hp =>
        hqueue (isFinalization_of_mem_sweepStatusEvents hp)
  | landed hwithdrawal hpayload hevent =>
      exact callFields_of_processEvent hevent
        (hqueue (isFinalization_of_landedWithdrawalEvent hpayload))
  | credited hevents =>
      refine (callFields_of_processEvents hevents fun payload hp => hqueue ?_ :)
      obtain ⟨entry, -, reply, hpayload⟩ := mem_creditEvents hp
      rcases creditEvent_eq_some hpayload with ⟨_, _, _, _, rfl⟩ | rfl <;> rfl
  | _ => rfl

theorem SweepRound.Steps.callFields {round round' : Option SweepRound} {action : SweepAction}
    {planned : List PlannedSweep}
    (h : SweepRound.Steps canister now round action (canister', round', planned)) :
    canister'.callFields = canister.callFields := by
  cases h with
  | start hstart hkey => exact callFields_of_startTask hstart
  | signed hsweep hevent => exact callFields_of_processEvent hevent (by simp)
  | _ => rfl

theorem MintRound.Steps.callFields {calls : ℕ} {round round' : Option MintRound}
    {action : MintAction} {transfers : List TransferArg}
    (h : MintRound.Steps canister calls now round action (canister', round', transfers)) :
    canister'.callFields = canister.callFields := by
  cases h with
  | start hstart => exact callFields_of_startTask hstart
  | expired hexpired hevent => exact callFields_of_processEvent hevent (by simp)
  | minted hreply hindex hevent => exact callFields_of_processEvent hevent (by simp)
  | rejected hreply hevent => exact callFields_of_processEvent hevent (by simp)
  | quarantinedOnTrap hevent =>
      exact (callFields_of_processEvent hevent (by simp) :)
  | _ => rfl

end CallFields

/-! ## Watched accounts -/

namespace Deposits

variable {deposits deposits' : Deposits} {now : Timestamp} {account : Account}

/-- The watchlist is consistent and within its capacity, and no account on it has a deposit in
flight. -/
structure WatchSafe (deposits : Deposits) : Prop where
  consistent : deposits.watchlist.entries.Consistent
  capacity : deposits.watchlist.entries.capacity = maxWatchedAddresses
  idle : ∀ key ∈ deposits.watchlist.entries.entries, deposits.inFlightIds[key]? = none

theorem watchSafe_default (deposits : Deposits) : (deposits.withWatchlist .default).WatchSafe where
  consistent := TimedSizedMap.consistent_new _ _
  capacity := rfl
  idle key hkey := by
    have hnot : key ∉ (∅ : OrdMap AccountKey (TimedSizedMap.Entry ScanProgress)) :=
      ExtTreeMap.not_mem_empty
    exact absurd hkey hnot

namespace WatchSafe

theorem frame (h : deposits.WatchSafe) (hwatchlist : deposits'.watchlist = deposits.watchlist)
    (hidle : ∀ key : AccountKey, deposits.inFlightIds[key]? = none →
      deposits'.inFlightIds[key]? = none) : deposits'.WatchSafe where
  consistent := hwatchlist ▸ h.consistent
  capacity := hwatchlist ▸ h.capacity
  idle key hkey := hidle key (h.idle key (hwatchlist ▸ hkey))

/-- The account of a queued deposit leaves the watchlist. -/
theorem queue (h : deposits.WatchSafe) {id : DepositSolId} {deposit : QueuedDeposit}
    {queuedAt : Timestamp} (hqueue : deposits.queue id deposit queuedAt = .ok deposits') :
    deposits'.WatchSafe := by
  obtain ⟨-, -, watchlist, hremove, rfl⟩ := queue_eq_ok hqueue
  simp only [Watchlist.remove, bind_eq_ok, mapError_eq_ok, pure_eq_ok] at hremove
  obtain ⟨entries, hremove, rfl⟩ := hremove
  obtain ⟨entries', hremove', hconsistent, hcapacity, hget⟩ :=
    h.consistent.remove deposit.account.key
  obtain rfl := Except.ok.inj (hremove.symm.trans hremove')
  refine ⟨hconsistent, hcapacity.trans h.capacity, fun key hkey => ?_⟩
  obtain ⟨entry, hentry⟩ := OrdMap.mem_iff_exists.mp hkey
  rw [hget] at hentry
  split at hentry
  · cases hentry
  case isFalse hne =>
    rw [OrdMap.getElem?_insert_eq, if_neg hne]
    exact h.idle key (OrdMap.mem_iff_exists.mpr ⟨entry, hentry⟩)

/-- A registration does not run into the expectation that it is live, and adds no other account. -/
theorem register (h : deposits.WatchSafe) (hnow : now ≤ u64Max) (account : Account)
    (address : Address) :
    ∃ watchlist result, deposits.watchlist.register now account address = .ok (watchlist, result) ∧
      (deposits.inFlightIds[account.key]? = none →
        (deposits.withWatchlist watchlist).WatchSafe) := by
  obtain ⟨entries, result, hinsert, hinserted⟩ :=
    h.consistent.insert hnow account.key (.unscanned account address now)
  have hsafe (hidle : deposits.inFlightIds[account.key]? = none) :
      (deposits.withWatchlist ⟨entries⟩).WatchSafe := by
    refine ⟨hinserted.consistent, hinserted.capacity.trans h.capacity, fun key hkey => ?_⟩
    rcases hinserted.keys key hkey with rfl | hold
    · exact hidle
    · exact h.idle key hold
  -- an insertion that is not rejected for want of space leaves a live registration
  have hlive (hresult : ∀ rejected value, result ≠ .error (.atCapacity rejected value)) :
      ∃ watched, Watchlist.get ⟨entries⟩ now account = some watched := by
    obtain ⟨entry, hentry⟩ := Option.isSome_iff_exists.mp (hinserted.live hresult)
    exact ⟨_, congrArg (Option.map _) hentry⟩
  unfold Watchlist.register
  rw [hinsert]
  rcases result with (⟨rejected, value⟩ | ⟨rejected, value⟩) | evicted
  · obtain ⟨watched, hwatched⟩ := hlive (by simp)
    refine ⟨⟨entries⟩, .ok watched, ?_, hsafe⟩
    show (orPanic (Watchlist.get ⟨entries⟩ now account) _ >>= _) = _
    rw [hwatched]
    rfl
  · exact ⟨⟨entries⟩, .error .full, rfl, hsafe⟩
  · obtain ⟨watched, hwatched⟩ := hlive (by simp)
    refine ⟨⟨entries⟩, .ok watched, ?_, hsafe⟩
    show (orPanic (Watchlist.get ⟨entries⟩ now account) _ >>= _) = _
    rw [hwatched]
    rfl

theorem recordScan (h : deposits.WatchSafe) (now : Timestamp) (account : Account) :
    (deposits.withWatchlist (deposits.watchlist.recordScan now account)).WatchSafe := by
  have hmodify := h.consistent.modifyValue now account.key fun progress =>
    { progress with
      scanCount := min (progress.scanCount + 1) (2 ^ 32 - 1)
      lastScannedAt := some now }
  exact ⟨hmodify.1, hmodify.2.1.trans h.capacity,
    fun key hkey => h.idle key ((hmodify.2.2 key).mp hkey)⟩

theorem evictExpired (h : deposits.WatchSafe) (now : Timestamp) :
    ∃ watchlist count, deposits.watchlist.evictExpired now = .ok (watchlist, count) ∧
      (deposits.withWatchlist watchlist).WatchSafe := by
  obtain ⟨entries, evicted, hevict, hconsistent, -, hcapacity, hget⟩ := h.consistent.evictExpired now
  refine ⟨⟨entries⟩, evicted.length, ?_, hconsistent, hcapacity.trans h.capacity, fun key hkey => ?_⟩
  · rw [Watchlist.evictExpired, hevict]
    rfl
  · obtain ⟨entry, hentry⟩ := OrdMap.mem_iff_exists.mp hkey
    have hold := Option.filter_eq_some_iff.mp ((hget key).symm.trans hentry)
    exact h.idle key (OrdMap.mem_iff_exists.mpr ⟨entry, hold.1⟩)

end WatchSafe

/-- The check that precedes a registration and a balance read. -/
theorem inFlightIds_of_inFlight (h : deposits.inFlight account = .ok none) :
    deposits.inFlightIds[account.key]? = none := by
  unfold inFlight at h
  split at h
  case h_1 hnone => exact hnone
  case h_2 => split at h <;> cases h

end Deposits

/-! ## Runs with scans and evictions -/

section Watching

variable [SolanaSdk]

namespace Config

variable {config config' : Config} {now : Timestamp}

/-- A registration keeps the watchlist consistent. -/
theorem watchSafe_of_watch {account : Account} (h : config.canister.state.deposits.WatchSafe)
    (hnow : now ≤ u64Max)
    (hstep : config.step now (.watchDepositAddress account) = some config') :
    config'.canister.state.deposits.WatchSafe := by
  obtain rfl := Option.some.inj hstep
  cases hresult : watchDepositAddress config.canister config.minterId account now with
  | error panic => exact h
  | ok result =>
      simp only [watchDepositAddress, bind_eq_ok] at hresult
      obtain ⟨⟨⟩, -, hresult⟩ := hresult
      split at hresult
      · obtain rfl := pure_eq_ok.mp hresult
        exact h
      · obtain rfl := pure_eq_ok.mp hresult
        exact h
      · simp only [bind_eq_ok, pure_eq_ok] at hresult
        obtain ⟨⟨watchlist, status⟩, hstatus, rfl⟩ := hresult
        simp only [watchStatus, bind_eq_ok] at hstatus
        obtain ⟨inFlight, hinFlight, hstatus⟩ := hstatus
        show (config.canister.state.deposits.withWatchlist watchlist).WatchSafe
        split at hstatus
        · obtain ⟨rfl, -⟩ := Prod.mk.inj (pure_eq_ok.mp hstatus)
          exact h
        · obtain ⟨rfl, -⟩ := Prod.mk.inj (pure_eq_ok.mp hstatus)
          exact h
        · -- the account has no deposit in flight when it is registered
          obtain ⟨registered, result, hregister, hsafe⟩ := h.register hnow account _
          rw [hregister] at hstatus
          cases result <;>
          · obtain ⟨rfl, -⟩ := Prod.mk.inj (pure_eq_ok.mp hstatus)
            exact hsafe (Deposits.inFlightIds_of_inFlight hinFlight)

theorem watchSafe_of_queued {canister : Canister} {id : DepositSolId} {deposit : QueuedDeposit}
    (h : config.canister.state.deposits.WatchSafe)
    (hevent : config.canister.processEvent (.queuedDeposit id deposit) now = .ok canister) :
    canister.state.deposits.WatchSafe := by
  obtain ⟨state, happly, rfl⟩ := processEvent_eq_ok.mp hevent
  cases State.effect_of_apply happly with
  | queuedDeposit hqueue => exact h.queue hqueue

theorem watchSafe_of_upgrade {canister : Canister} {args : Option UpgradeArgs}
    (hreplay : config.canister.Replayable)
    (hupgrade : config.canister.postUpgrade args now = .ok canister) :
    canister.state.deposits.WatchSafe := by
  have hinitial : config.canister.state.persistent.deposits.WatchSafe := Deposits.watchSafe_default _
  rcases postUpgrade_eq_ok hreplay hupgrade with ⟨-, rfl⟩ | ⟨upgradeArgs, -, hevent⟩
  · exact hinitial
  · obtain ⟨state, happly, rfl⟩ := processEvent_eq_ok.mp hevent
    cases State.effect_of_apply happly with
    | upgrade hpool hvalid => exact hinitial

/-- Every message keeps the watched accounts out of flight. -/
theorem watchSafe_of_step {action : Action} (h : config.canister.state.deposits.WatchSafe)
    (hwellformed : config.Wellformed) (hnow : now ≤ u64Max)
    (hstep : config.step now action = some config') :
    config'.canister.state.deposits.WatchSafe := by
  by_cases hwatch : ∃ account, action = .watchDepositAddress account
  · obtain ⟨account, rfl⟩ := hwatch
    exact watchSafe_of_watch h hnow hstep
  have hsteps := steps_of_step hstep
  have hrun := hsteps.run hwellformed.replayable
  -- a message without a queued deposit that leaves the watchlist as it is
  have hframe (hfields : config'.canister.callFields = config.canister.callFields)
      (hqueue : ∀ id deposit, ¬ action.Records (.queuedDeposit id deposit)) :
      config'.canister.state.deposits.WatchSafe :=
    h.frame (congrArg CallFields.watchlist hfields) fun key hkey =>
      hrun.notInFlight (fun _ _ => hqueue) hkey
  cases hsteps with
  | unchanged | withdrawEnded | depositSolEnded => exact h
  | withdrawStarted hwithdraw =>
      obtain ⟨-, -, -, -, guards, rfl⟩ := withdraw_eq_ok hwithdraw
      exact h
  | depositSolStarted hdeposit =>
      obtain ⟨-, -, guards, -, rfl⟩ := depositSol_eq_ok hdeposit
      exact h
  | burned hcall hindex hamount hevent =>
      have hfields := callFields_of_processEvent hevent (by simp)
      exact h.frame (congrArg CallFields.watchlist hfields) fun key hkey =>
        hrun.notInFlight (by simp [Action.Records]) hkey
  | deposited hcall hbalance hevent => exact (watchSafe_of_queued h hevent :)
  | watched => exact absurd ⟨_, rfl⟩ hwatch
  | queued hevent => exact watchSafe_of_queued h hevent
  | keyFetched hnone hevent =>
      exact hframe (callFields_of_processEvent hevent (by simp)) (by simp [Action.Records])
  | withdrawals hsteps =>
      exact hframe hsteps.callFields (by simp [Action.Records, EventType.isWithdrawal])
  | finalization hsteps =>
      exact hframe hsteps.callFields (by simp [Action.Records, EventType.isFinalization])
  | sweeps hsteps => exact hframe hsteps.callFields (by simp [Action.Records, EventType.isSweep])
  | mints hsteps => exact hframe hsteps.callFields (by simp [Action.Records, EventType.isMint])
  | upgraded hupgrade => exact watchSafe_of_upgrade hwellformed.replayable hupgrade

end Config

/-- The messages of the minter, and the scans and evictions of the automatic flow. -/
inductive WatchAction where
  | minter (action : Action)
  | recordScan (account : Account)
  | evictExpired

namespace Config

variable {config config' : Config} {now : Timestamp}

def withWatchlist (config : Config) (watchlist : Watchlist) : Config :=
  { config with
    canister := config.canister.updateTransient fun transient => { transient with watchlist } }

/-- A message of the minter, or an operation that the balance scan will make. -/
def watchStep (config : Config) (now : Timestamp) : WatchAction → Option Config
  | .minter action => config.step now action
  | .recordScan account =>
      some (config.withWatchlist (config.canister.state.deposits.watchlist.recordScan now account))
  | .evictExpired =>
      match config.canister.state.deposits.watchlist.evictExpired now with
      | .ok (watchlist, _) => some (config.withWatchlist watchlist)
      | .error _ => some config

/-- A run with scans and evictions from the installation of the canister. -/
def watchRunFrom (minterId : Principal) (args : InitArgs) (now : Timestamp)
    (actions : List (Timestamp × WatchAction)) : Option Config :=
  Machine.runFrom (fun config entry => config.watchStep entry.1 entry.2)
    (init minterId args now).toOption actions

theorem Wellformed.withWatchlist (h : config.Wellformed) (watchlist : Watchlist) :
    (config.withWatchlist watchlist).Wellformed := by
  have hrun : Run (fun _ _ _ => False) config.canister (config.withWatchlist watchlist).canister :=
    .transient config.canister _
  exact ⟨h.replayable.run hrun, h.tables.run hrun⟩

theorem watchSafe_of_watchStep {action : WatchAction} (hwellformed : config.Wellformed)
    (h : config.canister.state.deposits.WatchSafe) (hnow : now ≤ u64Max)
    (hstep : config.watchStep now action = some config') :
    config'.Wellformed ∧ config'.canister.state.deposits.WatchSafe := by
  cases action with
  | minter action =>
      exact ⟨hwellformed.steps (steps_of_step hstep), watchSafe_of_step h hwellformed hnow hstep⟩
  | recordScan account =>
      obtain rfl := Option.some.inj hstep
      exact ⟨hwellformed.withWatchlist _, h.recordScan now account⟩
  | evictExpired =>
      obtain ⟨watchlist, count, hevict, hsafe⟩ := h.evictExpired now
      rw [watchStep, hevict] at hstep
      obtain rfl := Option.some.inj hstep
      exact ⟨hwellformed.withWatchlist _, hsafe⟩

theorem watchSafe_of_watchRun {minterId : Principal} {args : InitArgs}
    {actions : List (Timestamp × WatchAction)} (htimes : ∀ entry ∈ actions, entry.1 ≤ u64Max)
    (h : watchRunFrom minterId args now actions = some config) :
    config.canister.state.deposits.WatchSafe := by
  suffices hrun : config.Wellformed ∧ config.canister.state.deposits.WatchSafe from hrun.2
  refine Machine.runFrom_induction (fun done config => done ⊆ actions → config.Wellformed ∧
    config.canister.state.deposits.WatchSafe) ?_ ?_ h (List.Subset.refl _)
  · intro config hconfig _
    have hinit := toOption_eq_some.mp hconfig
    refine ⟨wellformed_of_init hinit, ?_⟩
    obtain ⟨_, pool, -, -, rfl⟩ := exists_of_init hinit
    exact Deposits.watchSafe_default .default
  · intro done config entry config' _ hP hstep hsubset
    obtain ⟨hbefore, hentry⟩ := List.append_subset.mp hsubset
    obtain ⟨hwellformed, hsafe⟩ := hP hbefore
    exact watchSafe_of_watchStep hwellformed hsafe
      (htimes entry (hentry (List.mem_singleton_self _))) hstep

/-- What holds of the watchlist in every reachable state. -/
structure WatchesIdle (config : Config) : Prop where
  /-- No stored account, live or expired, has a deposit in flight. -/
  notInFlight : ∀ key ∈ config.canister.state.deposits.watchlist.entries.entries,
    key ∉ config.canister.state.deposits.inFlightIds
  sized : config.canister.state.deposits.watchlist.entries.entries.size ≤ maxWatchedAddresses
  /-- A registration at any time runs into no expectation. -/
  registers : ∀ now ≤ u64Max, ∀ account address, ∃ result,
    config.canister.state.deposits.watchlist.register now account address = .ok result

/-- In every run of messages, scans and evictions at arbitrary times of the clock, watched accounts
have no deposit in flight. -/
theorem watchesIdle_of_run {minterId : Principal} {args : InitArgs}
    {actions : List (Timestamp × WatchAction)}
    (h : watchRunFrom minterId args now actions = some config)
    (htimes : ∀ entry ∈ actions, entry.1 ≤ u64Max) : config.WatchesIdle := by
  have hsafe := watchSafe_of_watchRun htimes h
  refine ⟨fun key hkey => OrdMap.not_mem_iff.mpr (hsafe.idle key hkey), ?_, ?_⟩
  · exact Nat.le_trans hsafe.consistent.sized (Nat.le_of_eq hsafe.capacity)
  · intro now hnow account address
    obtain ⟨watchlist, result, hregister, -⟩ := hsafe.register hnow account address
    exact ⟨_, hregister⟩

end Config

end Watching

section Sample

attribute [local instance] Solana.sdk

/-- An account is registered and scanned, and leaves the watchlist when its deposit is queued; another
registration expires and is evicted. -/
def sampleWatching : List (Timestamp × WatchAction) :=
  [(1, .minter (.publicKey ⟨Solana.productionKey, Solana.productionChainCode⟩)),
    (2, .minter (.watchDepositAddress sampleAccount)), (3, .recordScan sampleAccount),
    (4, .minter (.depositSol sampleAccount 20_000_000_000)),
    (5, .minter (.balance 0 (.balance 30_000_000) 9_000_000_000 2_000_000_000)),
    (6, .minter (.watchDepositAddress ⟨.single 8, none⟩)),
    (watchWindow + 7, .evictExpired)]

theorem Config.watchesIdle_sampleWatching :
    ∃ config, watchRunFrom sampleMinterId { sampleInitArgs with automaticDepositFee := some 1_000 } 0
        sampleWatching = some config ∧
      sampleAccount.key ∈ config.canister.state.deposits.inFlightIds ∧ config.WatchesIdle := by
  obtain ⟨config, hconfig, htest⟩ : ∃ config,
      watchRunFrom sampleMinterId { sampleInitArgs with automaticDepositFee := some 1_000 } 0
        sampleWatching = some config ∧
      sampleAccount.key ∈ config.canister.state.deposits.inFlightIds :=
    exists_of_any (by decide +kernel)
  exact ⟨config, hconfig, htest, watchesIdle_of_run hconfig (by decide +kernel)⟩

end Sample

end Cksol
