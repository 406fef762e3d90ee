import Cksol.Minter.Parameters
import Cksol.Minter.RentFloor
import Cksol.Minter.Watching

/-! # Calls of `deposit_sol`

A call checks that its account has no deposit in flight before it reads the balance, and not again when
the reply comes. The guard of the account keeps that check valid: nothing else queues a deposit for it.
-/

namespace Cksol

open Std Canister

variable {account : Account} {availableCycles : ℕ}

/-- What a call charges once its reply is known. -/
def DepositSolCall.charge (call : DepositSolCall) (reply : BalanceReply) (refundedCycles : ℕ) : ℕ :=
  getBalanceCycles - refundedCycles +
    if (balanceAboveMinimum reply call.minimumDepositAmount).isOk then call.depositSolFee else 0

theorem State.depositSolRequiredCycles_of_validate {state : State} (h : state.validate = .ok ⟨⟩) :
    getBalanceCycles + state.depositSolFee ≤ state.depositSolRequiredCycles := by
  simp only [validate, bind_eq_ok, check_eq_ok] at h
  obtain ⟨⟨⟩, -, ⟨⟩, -, ⟨⟩, -, ⟨⟩, -, ⟨⟩, -, ⟨⟩, hcycles, -⟩ := h
  exact hcycles

/-- The messages that end the call at a position: its reply, and a trap in place of it. -/
def Action.endsDepositCall (position : ℕ) : Action → Prop
  | .balance ended .. | .depositSolTrap ended => ended = position
  | _ => False

section DepositCalls

variable [SolanaSdk] {canister canister' : Canister}

omit [SolanaSdk] in
/-- Only the balance read of a call, and a balance scan, queue a deposit. -/
theorem Action.not_records_queuedDeposit {action : Action} (hother : action.isDepositCall = false)
    (hscan : ∀ deposit, action ≠ .queueDeposit deposit) {id : DepositSolId} {deposit : QueuedDeposit} :
    ¬ action.Records (.queuedDeposit id deposit) := by
  cases action with
  | balance => cases hother
  | queueDeposit deposit => exact absurd rfl (hscan deposit)
  | burned position reply => cases reply <;> simp [Records]
  | upgrade args => cases args <;> simp [Records]
  | _ =>
      simp [Records, EventType.isWithdrawal, EventType.isFinalization, EventType.isSweep,
        EventType.isMint]

/-- What a call that goes on to read the balance has checked, and the guard that it took. -/
theorem depositSol_awaits {minterId : Principal} {call : DepositSolCall}
    (h : depositSol canister minterId account availableCycles = .ok (.awaitsBalance canister' call)) :
    call.account = account ∧ call.depositSolFee = canister.state.depositSolFee ∧
      call.minimumDepositAmount = canister.state.minimumDepositAmount ∧
      canister.state.depositSolRequiredCycles ≤ availableCycles ∧
      canister.state.deposits.inFlightIds[account.key]? = none ∧
      ∃ guards, Guard.new canister.state.pendingDepositSolRequestGuards account = .ok guards ∧
        canister' = canister.updateTransient fun transient =>
          { transient with depositSolGuards := guards } := by
  obtain ⟨⟨haccount, hfee, hminimum⟩, hchecked, guards, hguards, hcanister⟩ := depositSol_eq_ok h
  unfold checkDepositSol at hchecked
  split at hchecked
  · cases pure_eq_ok.mp hchecked
  case isFalse hcycles =>
    simp only [bind_eq_ok] at hchecked
    obtain ⟨inFlight, hinFlight, hchecked⟩ := hchecked
    split at hchecked
    · cases pure_eq_ok.mp hchecked
    · cases pure_eq_ok.mp hchecked
    · exact ⟨haccount, hfee, hminimum, Nat.le_of_not_lt hcycles,
        Deposits.inFlightIds_of_inFlight hinFlight, guards, hguards, hcanister⟩

omit [SolanaSdk] in
theorem Guard.new_eq_ok {accounts guards : List AccountKey}
    (h : Guard.new accounts account = .ok guards) :
    account.key ∉ accounts ∧ accounts.length < maxConcurrent ∧ guards = account.key :: accounts := by
  unfold Guard.new at h
  split at h
  · cases h
  case isFalse hnew =>
    split at h
    · cases h
    case isFalse hroom => exact ⟨hnew, Nat.lt_of_not_le hroom, (Except.ok.inj h).symm⟩

theorem depositSolGuards_of_processEvent {payload : EventType} {now : Timestamp}
    (h : canister.processEvent payload now = .ok canister') :
    canister'.state.pendingDepositSolRequestGuards =
      canister.state.pendingDepositSolRequestGuards := by
  obtain ⟨state, happly, rfl⟩ := processEvent_eq_ok.mp h
  cases State.effect_of_apply happly <;> rfl

/-- A call that returns drops its guard; it returns an error, or it queued a deposit of its account. -/
theorem depositSolBalance_eq_ok {call : DepositSolCall} {reply : BalanceReply}
    {refundedCycles acceptedCycles : ℕ} {now : Timestamp}
    {result : Except DepositSolError DepositSolId}
    (h : depositSolBalance canister call reply refundedCycles acceptedCycles now =
      .ok (canister', result)) :
    ∃ middle, canister' = middle.dropDepositSolGuard call.account ∧
      ((∃ error, result = .error error ∧ middle = canister) ∨
        ∃ deposit : QueuedDeposit, deposit.account = call.account ∧
          result = .ok canister.state.deposits.nextId ∧
          canister.processEvent (.queuedDeposit canister.state.deposits.nextId deposit) now =
            .ok middle) := by
  simp only [depositSolBalance, bind_eq_ok] at h
  obtain ⟨⟨⟩, -, h⟩ := h
  cases hbalance : balanceAboveMinimum reply call.minimumDepositAmount with
  | error error =>
      rw [hbalance] at h
      obtain ⟨rfl, rfl⟩ := Prod.mk.inj (pure_eq_ok.mp h)
      exact ⟨canister, rfl, .inl ⟨error, rfl, rfl⟩⟩
  | ok lamports =>
      simp only [hbalance, bind_eq_ok, pure_eq_ok, queueDeposit] at h
      obtain ⟨balance, -, ⟨_, _⟩, ⟨middle, hevent, heq⟩, h⟩ := h
      obtain ⟨rfl, rfl⟩ := Prod.mk.inj heq
      obtain ⟨rfl, rfl⟩ := Prod.mk.inj h
      exact ⟨middle, rfl, .inr ⟨_, rfl, rfl, hevent⟩⟩

/-- A queued deposit puts its own account into flight only. -/
theorem inFlightIds_of_queued {id : DepositSolId} {deposit : QueuedDeposit} {now : Timestamp}
    (h : canister.processEvent (.queuedDeposit id deposit) now = .ok canister') (key : AccountKey)
    (hne : key ≠ deposit.account.key) :
    canister'.state.deposits.inFlightIds[key]? = canister.state.deposits.inFlightIds[key]? := by
  obtain ⟨state, happly, rfl⟩ := processEvent_eq_ok.mp h
  cases State.effect_of_apply happly with
  | queuedDeposit hqueue =>
      obtain ⟨-, -, watchlist, -, rfl⟩ := Deposits.queue_eq_ok hqueue
      rw [OrdMap.getElem?_insert_eq, if_neg (Ne.symm hne)]

namespace Config

variable {config config' : Config} {now : Timestamp} {action : Action}

/-- Only the messages of `deposit_sol` and an upgrade change its calls and their guards. -/
theorem Steps.depositSolCalls (hsteps : config.Steps now action config')
    (hother : action.isDepositCall = false) (hupgrade : ∀ args, action ≠ .upgrade args) :
    config'.depositSolCalls = config.depositSolCalls ∧
      config'.canister.state.pendingDepositSolRequestGuards =
        config.canister.state.pendingDepositSolRequestGuards := by
  cases hsteps with
  | unchanged | withdrawEnded | watched => exact ⟨rfl, rfl⟩
  | depositSolStarted | deposited => cases hother
  | depositSolEnded hcall =>
      rw [hother] at hcall
      cases hcall
  | withdrawStarted hwithdraw =>
      obtain ⟨-, -, -, -, guards, rfl⟩ := withdraw_eq_ok hwithdraw
      exact ⟨rfl, rfl⟩
  | burned _ _ _ hevent => exact ⟨rfl, (depositSolGuards_of_processEvent hevent :)⟩
  | queued hevent | keyFetched _ hevent => exact ⟨rfl, depositSolGuards_of_processEvent hevent⟩
  | withdrawals hsteps | finalization hsteps | sweeps hsteps | mints hsteps =>
      exact ⟨rfl, congrArg CallFields.depositSolGuards hsteps.callFields⟩
  | upgraded => exact absurd rfl (hupgrade _)

/-- The guard of a call is gone when it ends. -/
theorem guard_released {position : ℕ} {call : DepositSolCall}
    (hcall : config.depositSolCalls[position]? = some call) (hends : action.endsDepositCall position)
    (hstep : config.step now action = some config') :
    call.account.key ∉ config'.canister.state.pendingDepositSolRequestGuards := by
  have hdropped (canister : Canister) : call.account.key ∉
      (canister.dropDepositSolGuard call.account).state.pendingDepositSolRequestGuards := by
    simp [dropDepositSolGuard, updateTransient, State.withTransient, Guard.drop]
  cases action with
  | depositSolTrap ended =>
      obtain rfl : ended = position := hends
      simp only [step, hcall, Option.bind_eq_bind, Option.bind_some] at hstep
      obtain rfl := Option.some.inj hstep
      exact hdropped _
  | balance ended reply refundedCycles acceptedCycles =>
      obtain rfl : ended = position := hends
      simp only [step, hcall, Option.bind_eq_bind, Option.bind_some] at hstep
      obtain rfl := Option.some.inj hstep
      cases hresult : depositSolBalance config.canister call reply refundedCycles acceptedCycles
        now with
      | error panic => exact hdropped _
      | ok result =>
          obtain ⟨middle, hmiddle, -⟩ := depositSolBalance_eq_ok hresult
          show call.account.key ∉ result.1.state.pendingDepositSolRequestGuards
          rw [hmiddle]
          exact hdropped _
  | _ => cases hends

/-- No account of a call that awaits its balance has a deposit in flight, and the guards are those of
the calls. -/
structure CallsGuarded (config : Config) : Prop where
  distinct : (config.depositSolCalls.map fun call => call.account.key).Nodup
  guards : config.canister.state.pendingDepositSolRequestGuards.Perm
    (config.depositSolCalls.map fun call => call.account.key)
  bounded : config.depositSolCalls.length ≤ maxConcurrent
  idle : ∀ call ∈ config.depositSolCalls,
    config.canister.state.deposits.inFlightIds[call.account.key]? = none
  minimum : ∀ call ∈ config.depositSolCalls,
    call.minimumDepositAmount = config.canister.state.minimumDepositAmount
  fee : ∀ call ∈ config.depositSolCalls, call.depositSolFee = config.canister.state.depositSolFee
  watchSafe : config.canister.state.deposits.WatchSafe

namespace CallsGuarded

omit [SolanaSdk] in
theorem of_empty (hcalls : config.depositSolCalls = [])
    (hguards : config.canister.state.pendingDepositSolRequestGuards = [])
    (hwatch : config.canister.state.deposits.WatchSafe) : config.CallsGuarded where
  distinct := by simp [hcalls]
  guards := by simp [hcalls, hguards]
  bounded := by simp [hcalls]
  idle := by simp [hcalls]
  minimum := by simp [hcalls]
  fee := by simp [hcalls]
  watchSafe := hwatch

omit [SolanaSdk] in
/-- A message that leaves the calls, their accounts and the parameters as they are. -/
theorem frame (h : config.CallsGuarded) (hcalls : config'.depositSolCalls = config.depositSolCalls)
    (hguards : config'.canister.state.pendingDepositSolRequestGuards =
      config.canister.state.pendingDepositSolRequestGuards)
    (hidle : ∀ key : AccountKey, config.canister.state.deposits.inFlightIds[key]? = none →
      config'.canister.state.deposits.inFlightIds[key]? = none)
    (hparameters : config'.canister.state.parameters = config.canister.state.parameters)
    (hwatch : config'.canister.state.deposits.WatchSafe) : config'.CallsGuarded where
  distinct := hcalls ▸ h.distinct
  guards := by rw [hcalls, hguards]; exact h.guards
  bounded := hcalls ▸ h.bounded
  idle call hcall := hidle _ (h.idle call (hcalls ▸ hcall))
  minimum call hcall := (h.minimum call (hcalls ▸ hcall)).trans
    (congrArg Parameters.minimumDepositAmount hparameters).symm
  fee call hcall := (h.fee call (hcalls ▸ hcall)).trans
    (congrArg Parameters.depositSolFee hparameters).symm
  watchSafe := hwatch

/-- A call that goes on to the balance read. -/
theorem start (h : config.CallsGuarded) {canister : Canister} {call : DepositSolCall}
    (hdeposit : depositSol config.canister config.minterId account availableCycles =
      .ok (.awaitsBalance canister call)) :
    { config with canister, depositSolCalls := config.depositSolCalls ++ [call] }.CallsGuarded := by
  obtain ⟨rfl, hfee, hminimum, -, hidle, guards, hguards, rfl⟩ := depositSol_awaits hdeposit
  obtain ⟨hnew, hroom, rfl⟩ := Guard.new_eq_ok hguards
  have hkeys : (config.depositSolCalls ++ [call]).map (fun call => call.account.key) =
      config.depositSolCalls.map (fun call => call.account.key) ++ [call.account.key] := by simp
  have hfresh : call.account.key ∉ config.depositSolCalls.map fun call => call.account.key :=
    fun hmem => hnew (h.guards.mem_iff.mpr hmem)
  have hlast {P : DepositSolCall → Prop} (hold : ∀ call ∈ config.depositSolCalls, P call)
      (hcall : P call) : ∀ call' ∈ config.depositSolCalls ++ [call], P call' := by
    simpa [or_imp, forall_and] using ⟨hold, hcall⟩
  refine ⟨?_, ?_, ?_, hlast h.idle hidle, hlast h.minimum hminimum, hlast h.fee hfee, h.watchSafe⟩
  · rw [hkeys]
    exact List.nodup_append.mpr ⟨h.distinct, List.nodup_singleton _, by grind⟩
  · rw [hkeys]
    exact (h.guards.cons call.account.key).trans (List.perm_append_singleton _ _).symm
  · have hlength := h.guards.length_eq
    rw [List.length_map] at hlength
    rw [List.length_append, List.length_singleton, ← hlength]
    exact hroom

omit [SolanaSdk] in
/-- A call that ends, with its guard dropped. -/
theorem finish (h : config.CallsGuarded) {position : ℕ} {call : DepositSolCall} {canister : Canister}
    (hcall : config.depositSolCalls[position]? = some call)
    (hguards : canister.state.pendingDepositSolRequestGuards =
      config.canister.state.pendingDepositSolRequestGuards)
    (hidle : ∀ key : AccountKey, key ≠ call.account.key →
      config.canister.state.deposits.inFlightIds[key]? = none →
      canister.state.deposits.inFlightIds[key]? = none)
    (hparameters : canister.state.parameters = config.canister.state.parameters)
    (hwatch : canister.state.deposits.WatchSafe) :
    { config with
      canister := canister.dropDepositSolGuard call.account
      depositSolCalls := config.depositSolCalls.eraseIdx position }.CallsGuarded := by
  obtain ⟨hposition, hget⟩ := List.getElem?_eq_some_iff.mp hcall
  -- calls differ in their accounts: dropping the guard removes this call only
  have hkeys : (config.depositSolCalls.eraseIdx position).map (fun call => call.account.key) =
      (config.depositSolCalls.map fun call => call.account.key).filter (· ≠ call.account.key) := by
    have herase := h.distinct.erase_getElem (i := position) (by simpa using hposition)
    rw [List.getElem_map, hget, h.distinct.erase_eq_filter] at herase
    rw [← List.eraseIdx_map, ← herase]
    exact List.filter_congr fun key _ => by simp [bne, beq_eq_decide]
  have hother : ∀ other ∈ config.depositSolCalls.eraseIdx position,
      other ∈ config.depositSolCalls ∧ other.account.key ≠ call.account.key := by
    intro other hmem
    have hkey : other.account.key ∈
        (config.depositSolCalls.eraseIdx position).map fun call => call.account.key :=
      List.mem_map_of_mem hmem
    rw [hkeys, List.mem_filter] at hkey
    exact ⟨List.mem_of_mem_eraseIdx hmem, of_decide_eq_true hkey.2⟩
  refine ⟨?_, ?_, ?_, ?_, ?_, ?_, hwatch⟩
  · rw [hkeys]
    exact h.distinct.filter _
  · rw [hkeys]
    show (Guard.drop canister.state.pendingDepositSolRequestGuards call.account).Perm _
    rw [hguards]
    exact h.guards.filter _
  · exact Nat.le_trans (List.length_eraseIdx_le _ _) h.bounded
  · exact fun other hmem => hidle _ (hother other hmem).2 (h.idle other (hother other hmem).1)
  · exact fun other hmem => (h.minimum other (hother other hmem).1).trans
      (congrArg Parameters.minimumDepositAmount hparameters).symm
  · exact fun other hmem => (h.fee other (hother other hmem).1).trans
      (congrArg Parameters.depositSolFee hparameters).symm

end CallsGuarded

theorem callsGuarded_of_init {minterId : Principal} {args : InitArgs}
    (h : init minterId args now = .ok config) : config.CallsGuarded := by
  obtain ⟨_, pool, -, -, rfl⟩ := exists_of_init h
  exact .of_empty rfl rfl (Deposits.watchSafe_default .default)

namespace CallsGuarded

variable {call : DepositSolCall}

theorem upgrade (h : config.CallsGuarded) (hwellformed : config.Wellformed)
    {args : Option UpgradeArgs} (hstep : config.step now (.upgrade args) = some config') :
    config'.CallsGuarded := by
  simp only [step] at hstep
  split at hstep
  case h_2 =>
    obtain rfl := Option.some.inj hstep
    exact h
  case h_1 canister hupgrade =>
    obtain rfl := Option.some.inj hstep
    refine .of_empty rfl ?_ (watchSafe_of_upgrade hwellformed.replayable hupgrade)
    rcases postUpgrade_eq_ok hwellformed.replayable hupgrade with ⟨-, rfl⟩ | ⟨upgradeArgs, -, hevent⟩
    · rfl
    · exact depositSolGuards_of_processEvent hevent

theorem balance (h : config.CallsGuarded) {position refundedCycles acceptedCycles : ℕ}
    {reply : BalanceReply}
    (hstep : config.step now (.balance position reply refundedCycles acceptedCycles) =
      some config') : config'.CallsGuarded := by
  simp only [step, Option.bind_eq_bind, Option.bind_eq_some_iff] at hstep
  obtain ⟨call, hcall, hstep⟩ := hstep
  obtain rfl := Option.some.inj hstep
  have hended := h.finish hcall rfl (fun _ _ => id) rfl h.watchSafe
  cases hresult : depositSolBalance config.canister call reply refundedCycles acceptedCycles now with
  | error panic => exact hended
  | ok result =>
      obtain ⟨middle, hmiddle, ⟨error, -, rfl⟩ | ⟨deposit, haccount, -, hevent⟩⟩ :=
        depositSolBalance_eq_ok hresult
      · show Config.CallsGuarded { config with canister := result.1, depositSolCalls := _ }
        rw [hmiddle]
        exact hended
      · show Config.CallsGuarded { config with canister := result.1, depositSolCalls := _ }
        rw [hmiddle]
        refine h.finish hcall (depositSolGuards_of_processEvent hevent) ?_ ?_
          (watchSafe_of_queued h.watchSafe hevent)
        · intro key hne hidle
          rw [inFlightIds_of_queued hevent key (haccount ▸ hne)]
          exact hidle
        · obtain ⟨state, happly, rfl⟩ := processEvent_eq_ok.mp hevent
          exact (State.effect_of_apply happly).parameters_eq (by simp)

/-- Every message but a balance scan keeps the calls guarded. -/
theorem step (h : config.CallsGuarded) (hwellformed : config.Wellformed) (hnow : now ≤ u64Max)
    (hscan : ∀ deposit, action ≠ .queueDeposit deposit)
    (hstep : config.step now action = some config') : config'.CallsGuarded := by
  cases action with
  | upgrade args => exact h.upgrade hwellformed hstep
  | balance position reply refundedCycles acceptedCycles => exact h.balance hstep
  | depositSol account availableCycles =>
      simp only [Config.step] at hstep
      split at hstep
      case h_1 canister call hdeposit =>
        obtain rfl := Option.some.inj hstep
        exact h.start hdeposit
      all_goals
        obtain rfl := Option.some.inj hstep
        exact h
  | depositSolTrap position =>
      simp only [Config.step, Option.bind_eq_bind, Option.bind_eq_some_iff] at hstep
      obtain ⟨call, hcall, hstep⟩ := hstep
      obtain rfl := Option.some.inj hstep
      exact h.finish hcall rfl (fun _ _ => id) rfl h.watchSafe
  | queueDeposit deposit => exact absurd rfl (hscan deposit)
  | _ =>
      have hsteps := steps_of_step hstep
      obtain ⟨hcalls, hguards⟩ := hsteps.depositSolCalls rfl (by simp)
      exact h.frame hcalls hguards
        (fun key => (hsteps.run hwellformed.replayable).notInFlight fun _ _ _ _ =>
          Action.not_records_queuedDeposit rfl hscan)
        (hsteps.parameters_eq hwellformed (by simp))
        (watchSafe_of_step h.watchSafe hwellformed hnow hstep)

omit [SolanaSdk] in
/-- The charge of a call is covered by the cycles it had to attach. -/
theorem charge_le (h : config.CallsGuarded) (hvalid : config.canister.state.validate = .ok ⟨⟩)
    (hcall : call ∈ config.depositSolCalls) (reply : BalanceReply) (refundedCycles : ℕ) :
    call.charge reply refundedCycles ≤ config.canister.state.depositSolRequiredCycles := by
  have hrequired := State.depositSolRequiredCycles_of_validate hvalid
  rw [← h.fee call hcall] at hrequired
  unfold DepositSolCall.charge
  split <;> omega

/-- The queueing of a call runs into no assertion. -/
theorem queues (h : config.CallsGuarded) (hcall : call ∈ config.depositSolCalls)
    (balance : DepositBalance) (now : Timestamp) :
    ∃ result, queueDeposit config.canister ⟨call.account, call.address, balance, none⟩ now =
      .ok result := by
  obtain ⟨entries, hremove, -⟩ := h.watchSafe.consistent.remove call.account.key
  have hwatchlist : config.canister.state.deposits.watchlist.remove call.account = .ok ⟨entries⟩ := by
    rw [Watchlist.remove, hremove]
    rfl
  have hidle := h.idle call hcall
  simp [queueDeposit, processEvent, applyStateTransition, State.processQueuedDeposit, Deposits.queue,
    check, hidle, hwatchlist, bind_eq_ok]

/-- A reply that can be charged ends the call without a trap. -/
theorem returns (h : config.CallsGuarded) (hvalid : config.canister.state.validate = .ok ⟨⟩)
    (hcall : call ∈ config.depositSolCalls) (reply : BalanceReply) (refundedCycles : ℕ)
    (now : Timestamp) :
    ∃ result, depositSolBalance config.canister call reply refundedCycles
      (call.charge reply refundedCycles) now = .ok result := by
  have hcharge : chargeRpcCall getBalanceCycles call.depositSolFee refundedCycles
      (call.charge reply refundedCycles)
      (balanceAboveMinimum reply call.minimumDepositAmount).isOk = .ok ⟨⟩ :=
    check_eq_ok.mpr rfl
  simp only [depositSolBalance, hcharge, bind_eq_ok]
  cases hbalance : balanceAboveMinimum reply call.minimumDepositAmount with
  | error error => exact ⟨_, ⟨⟩, trivial, rfl⟩
  | ok lamports =>
      -- the minimum deposit amount covers the rent exemption threshold
      have hrent : rentExemptionThreshold ≤ lamports := by
        have hminimum := State.minimumDepositAmount_of_validate hvalid
        rw [← h.minimum call hcall] at hminimum
        unfold balanceAboveMinimum at hbalance
        split at hbalance
        · cases hbalance
        · split at hbalance
          · cases hbalance
          case isFalse hle =>
            obtain rfl := Except.ok.inj hbalance
            have hle := UInt64.le_iff_toNat_le.mp (UInt64.not_lt.mp hle)
            rw [minimumSweptBalance] at hminimum
            rw [UInt64.le_iff_toNat_le]
            omega
      obtain ⟨⟨canister, depositId⟩, hqueue⟩ := h.queues hcall ⟨lamports, hrent⟩ now
      refine ⟨(canister.dropDepositSolGuard call.account, .ok depositId), ⟨⟩, trivial, ?_⟩
      simp only [DepositBalance.new, dif_pos hrent, orPanic, bind_eq_ok, pure_eq_ok]
      exact ⟨_, rfl, _, hqueue, rfl⟩

end CallsGuarded

/-- What holds of the calls of `deposit_sol` in every reachable state. -/
structure DepositCallsSafe (config : Config) : Prop where
  /-- Two calls for one account are never both past the guard. -/
  distinct : (config.depositSolCalls.map fun call => call.account.key).Nodup
  bounded : config.depositSolCalls.length ≤ maxConcurrent
  /-- Queueing the deposit of a call does not find its account in flight. -/
  notInFlight : ∀ call ∈ config.depositSolCalls,
    call.account.key ∉ config.canister.state.deposits.inFlightIds
  /-- Only a call with the required cycles attached goes on to the balance read. -/
  attached : ∀ account availableCycles canister call,
    depositSol config.canister config.minterId account availableCycles =
      .ok (.awaitsBalance canister call) →
    config.canister.state.depositSolRequiredCycles ≤ availableCycles
  /-- A call that does not go on records nothing and leaves no guard. -/
  refused : ∀ now account availableCycles,
    (∀ canister call, depositSol config.canister config.minterId account availableCycles ≠
      .ok (.awaitsBalance canister call)) →
    config.step now (.depositSol account availableCycles) = some config
  charged : ∀ call ∈ config.depositSolCalls, ∀ reply refundedCycles,
    call.charge reply refundedCycles ≤ config.canister.state.depositSolRequiredCycles
  /-- With the required cycles at hand, every reply is processed without a trap. -/
  returns : ∀ call ∈ config.depositSolCalls, ∀ reply refundedCycles availableCycles now,
    config.canister.state.depositSolRequiredCycles ≤ availableCycles →
    ∃ result, depositSolBalance config.canister call reply refundedCycles
      (min (call.charge reply refundedCycles) availableCycles) now = .ok result
  /-- An error is returned without an event. -/
  errors : ∀ call ∈ config.depositSolCalls, ∀ reply refundedCycles acceptedCycles now canister error,
    depositSolBalance config.canister call reply refundedCycles acceptedCycles now =
      .ok (canister, .error error) → canister.log = config.canister.log
  /-- The guard is gone when a call ends, by a return or by a trap. -/
  released : ∀ position call, config.depositSolCalls[position]? = some call →
    ∀ now action config', action.endsDepositCall position →
      config.step now action = some config' →
      call.account.key ∉ config'.canister.state.pendingDepositSolRequestGuards

theorem depositSol_refused
    (h : ∀ canister call, depositSol config.canister config.minterId account availableCycles ≠
      .ok (.awaitsBalance canister call)) :
    config.step now (.depositSol account availableCycles) = some config := by
  simp only [step]
  split
  case h_1 canister call hdeposit => exact absurd hdeposit (h canister call)
  all_goals rfl

/-- In every run of user calls, timer rounds and upgrades, calls of `deposit_sol` queue one deposit
per account and do not trap after the balance read. -/
theorem depositCallsSafe_of_run {minterId : Principal} {args : InitArgs}
    {actions : List (Timestamp × Action)} (h : runFrom minterId args now actions = some config)
    (htimes : ∀ entry ∈ actions, entry.1 ≤ u64Max)
    (hscan : ∀ entry ∈ actions, ∀ deposit, entry.2 ≠ .queueDeposit deposit) :
    config.DepositCallsSafe := by
  have hguarded : config.CallsGuarded :=
    runFrom_step_invariant CallsGuarded (fun _ => callsGuarded_of_init)
      (fun config t action config' hmem hwellformed hguarded =>
        hguarded.step hwellformed (htimes _ hmem) (hscan _ hmem)) h
  have hvalid := validate_of_run h
  refine ⟨hguarded.distinct, hguarded.bounded,
    fun call hcall => OrdMap.not_mem_iff.mpr (hguarded.idle call hcall), ?_, ?_,
    fun call hcall => hguarded.charge_le hvalid hcall, ?_, ?_, ?_⟩
  · intro account availableCycles canister call hdeposit
    obtain ⟨-, -, -, hrequired, -⟩ := depositSol_awaits hdeposit
    exact hrequired
  · exact fun now account availableCycles => depositSol_refused
  · intro call hcall reply refundedCycles availableCycles now havailable
    have hcharge := hguarded.charge_le hvalid hcall reply refundedCycles
    rw [Nat.min_eq_left (Nat.le_trans hcharge havailable)]
    exact hguarded.returns hvalid hcall reply refundedCycles now
  · intro call hcall reply refundedCycles acceptedCycles now canister error hresult
    obtain ⟨middle, rfl, ⟨-, -, rfl⟩ | ⟨-, -, hok, -⟩⟩ := depositSolBalance_eq_ok hresult
    · rfl
    · cases hok
  · exact fun position call hcall now action config' => guard_released hcall

end Config

end DepositCalls

section Sample

attribute [local instance] Solana.sdk

/-- The deposit of an account is queued and swept while another account awaits its balance. -/
def sampleDepositCalls : List (Timestamp × Action) :=
  [(1, .publicKey ⟨Solana.productionKey, Solana.productionChainCode⟩),
    (2, .depositSol sampleAccount 20_000_000_000),
    (3, .depositSol ⟨.single 8, none⟩ 20_000_000_000),
    (4, .balance 0 (.balance 30_000_000) 9_000_000_000 2_000_000_000),
    (5, .sweeps .start)]

theorem Config.depositCallsSafe_sampleDepositCalls :
    ∃ config, runFrom sampleMinterId sampleInitArgs 0 sampleDepositCalls = some config ∧
      config.depositSolCalls.length = 1 ∧
      sampleAccount.key ∈ config.canister.state.deposits.inFlightIds ∧ config.DepositCallsSafe := by
  obtain ⟨config, hconfig, hcalls, hinFlight⟩ : ∃ config,
      runFrom sampleMinterId sampleInitArgs 0 sampleDepositCalls = some config ∧
      config.depositSolCalls.length = 1 ∧
      sampleAccount.key ∈ config.canister.state.deposits.inFlightIds :=
    exists_of_any (by decide +kernel)
  exact ⟨config, hconfig, hcalls, hinFlight,
    depositCallsSafe_of_run hconfig (by decide +kernel) (by simp [sampleDepositCalls])⟩

end Sample

end Cksol
