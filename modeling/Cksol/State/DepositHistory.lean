import Cksol.State.DepositPartition
import Cksol.State.Effects
import Cksol.State.Settlement

/-! # Deposits and the log

Every deposit of the state was queued by an event of the log, and every recorded sweep is the plan of
deposits that the log queued and submitted together.
-/

namespace Cksol

open Std

/-- The deposit that an event queues. -/
def EventType.queuedEntry : EventType → Option (DepositSolId × QueuedDeposit)
  | queuedDeposit depositId deposit => some (depositId, deposit)
  | _ => none

/-- The deposits of the sweep that an event submits. -/
def EventType.submittedSweep : EventType → Option (List DepositSolId)
  | submittedTransaction _ _ _ (.sweepDeposit depositIds _) => some depositIds
  | _ => none

/-- The deposits that were ever queued, with their ids. -/
def queuedDeposits (log : List Event) : List (DepositSolId × QueuedDeposit) :=
  log.filterMap fun event => event.payload.queuedEntry

/-- The deposit ids of every submitted sweep. -/
def submittedSweeps (log : List Event) : List (List DepositSolId) :=
  log.filterMap fun event => event.payload.submittedSweep

@[simp] theorem queuedDeposits_append (log new : List Event) :
    queuedDeposits (log ++ new) = queuedDeposits log ++ queuedDeposits new :=
  List.filterMap_append

@[simp] theorem submittedSweeps_append (log new : List Event) :
    submittedSweeps (log ++ new) = submittedSweeps log ++ submittedSweeps new :=
  List.filterMap_append

theorem mem_queuedDeposits_singleton {timestamp : Timestamp} {payload : EventType}
    {depositId : DepositSolId} {deposit : QueuedDeposit} :
    (depositId, deposit) ∈ queuedDeposits [⟨timestamp, payload⟩] ↔
      payload = .queuedDeposit depositId deposit := by
  cases payload <;> simp [queuedDeposits, EventType.queuedEntry, eq_comm]

theorem mem_queuedDeposits {log : List Event} {depositId : DepositSolId} {deposit : QueuedDeposit} :
    (depositId, deposit) ∈ queuedDeposits log ↔
      ∃ timestamp, ⟨timestamp, .queuedDeposit depositId deposit⟩ ∈ log := by
  induction log with
  | nil => simp [queuedDeposits]
  | cons event log ih =>
      have hcons : queuedDeposits (event :: log) = queuedDeposits [event] ++ queuedDeposits log :=
        queuedDeposits_append [event] log
      obtain ⟨timestamp, payload⟩ := event
      rw [hcons, List.mem_append, ih, mem_queuedDeposits_singleton]
      simp [exists_or, eq_comm]

/-- The sweep is the plan of deposits that the log queued and submitted together. -/
def Sweep.RecordedIn (sweep : Sweep) (log : List Event) : Prop :=
  ∃ deposits minterAddress, Sweep.plan deposits minterAddress = .ok sweep ∧
    deposits.map Prod.fst ∈ submittedSweeps log ∧ ∀ entry ∈ deposits, entry ∈ queuedDeposits log

theorem Sweep.RecordedIn.append {sweep : Sweep} {log : List Event} (h : sweep.RecordedIn log)
    (new : List Event) : sweep.RecordedIn (log ++ new) := by
  obtain ⟨deposits, minterAddress, hplan, hsubmitted, hqueued⟩ := h
  refine ⟨deposits, minterAddress, hplan, ?_, fun entry hentry => ?_⟩
  · rw [submittedSweeps_append]
    exact List.mem_append_left _ hsubmitted
  · rw [queuedDeposits_append]
    exact List.mem_append_left _ (hqueued entry hentry)

/-- The stages of the deposits that a log has queued. -/
structure DepositHistory (log : List Event) (deposits : Deposits) (view : View) : Prop where
  tracks : Tracks deposits view
  queued : ∀ id deposit, view.deposit id = some deposit ↔ (id, deposit) ∈ queuedDeposits log
  swept : ∀ {signature : Signature} {sweep : Sweep},
    deposits.swept.bySignature[signature]? = some sweep → sweep.RecordedIn log
  finalized : ∀ {signature : Signature} {sweep : Sweep},
    deposits.finalized.bySignature[signature]? = some sweep → sweep.RecordedIn log

namespace DepositHistory

variable [SolanaSdk] {log : List Event} {deposits deposits' : Deposits} {view : View}
  {state state' : State} {timestamp : Timestamp} {payload : EventType}

omit [SolanaSdk] in
/-- The indexes do not depend on the watchlist. -/
theorem withWatchlist (h : DepositHistory log deposits view) (watchlist : Watchlist) :
    DepositHistory log (deposits.withWatchlist watchlist) view where
  tracks := {
    issued := h.tracks.issued
    inFlightIds := h.tracks.inFlightIds
    latestIds := h.tracks.latestIds
    queuedAtById := h.tracks.queuedAtById
    queued := h.tracks.queued
    swept := h.tracks.swept
    finalized := h.tracks.finalized
    pendingMints := h.tracks.pendingMints
    minted := h.tracks.minted
    dropped := h.tracks.dropped
    quarantined := h.tracks.quarantined }
  queued := h.queued
  swept := h.swept
  finalized := h.finalized

omit [SolanaSdk] in
/-- An event that leaves the deposits alone. -/
theorem frame (h : DepositHistory log deposits view) (hqueued : payload.queuedEntry = none) :
    DepositHistory (log ++ [⟨timestamp, payload⟩]) deposits view where
  tracks := h.tracks
  queued id deposit := by
    rw [h.queued, queuedDeposits_append, List.mem_append, or_iff_left]
    simp [queuedDeposits, hqueued]
  swept hsweep := (h.swept hsweep).append _
  finalized hsweep := (h.finalized hsweep).append _

/-- An event that makes one transition of the deposits. -/
theorem transition (h : DepositHistory log deposits view) {t : DepositTransition}
    (hstep : deposits.transition t = .ok deposits')
    (hqueue : ∀ id deposit, (∃ queuedAt, t = .queue id deposit queuedAt) ↔
      payload = .queuedDeposit id deposit)
    (hswept : ∀ {signature : Signature} {sweep : Sweep},
      deposits'.swept.bySignature[signature]? = some sweep →
      deposits.swept.bySignature[signature]? = some sweep ∨
        sweep.RecordedIn (log ++ [⟨timestamp, payload⟩]))
    (hfinalized : ∀ {signature : Signature} {sweep : Sweep},
      deposits'.finalized.bySignature[signature]? = some sweep →
      deposits.finalized.bySignature[signature]? = some sweep ∨
        deposits.swept.bySignature[signature]? = some sweep) :
    ∃ view', DepositHistory (log ++ [⟨timestamp, payload⟩]) deposits' view' := by
  obtain ⟨view', htracks, hdeposit⟩ := h.tracks.transition hstep
  refine ⟨view', htracks, fun id deposit => ?_, fun hsweep => ?_, fun hsweep => ?_⟩
  · rw [hdeposit, hqueue, h.queued, queuedDeposits_append, List.mem_append,
      mem_queuedDeposits_singleton]
  · rcases hswept hsweep with hold | hnew
    · exact (h.swept hold).append _
    · exact hnew
  · rcases hfinalized hsweep with hold | hswept
    · exact (h.finalized hold).append _
    · exact (h.swept hswept).append _

/-- The dropped sweep leaves the swept ones, whatever became of its transaction. -/
theorem dropSwept (h : DepositHistory log deposits view) {signature : Signature}
    (hdrop : deposits.dropSwept signature = .ok deposits') (hqueued : payload.queuedEntry = none) :
    ∃ view', DepositHistory (log ++ [⟨timestamp, payload⟩]) deposits' view' := by
  obtain ⟨sweep, -, -, rfl⟩ := Deposits.dropSwept_eq_ok hdrop
  refine h.transition (t := .dropSwept signature) hdrop ?_
    (fun hget => .inl (OrdMap.getElem?_of_erase hget)) .inl
  intro id deposit
  simp only [reduceCtorEq, exists_false, false_iff]
  rintro rfl
  cases hqueued

/-- Every event that concerns deposits is one of their transitions. -/
theorem effect (h : DepositHistory log state.deposits view)
    (heffect : state.Effect timestamp payload state') :
    ∃ view', DepositHistory (log ++ [⟨timestamp, payload⟩]) state'.deposits view' := by
  cases heffect with
  | @sweptDeposits signature message signers depositIds blockHeight key deposits amount _ _ _ _ hsweep =>
      have hstep : state.deposits.transition (.sweep depositIds (minterAddress key) message signature) =
          .ok deposits := by
        rw [Deposits.transition, hsweep]
        rfl
      obtain ⟨taken, sweep, -, hids, htaken, hplan, -, -, rfl⟩ := Deposits.sweep_eq_ok hsweep
      refine h.transition hstep (by simp) ?_ .inl
      intro signature' sweep' hget
      rw [OrdMap.getElem?_insert_eq] at hget
      split at hget
      · -- the recorded sweep is the plan of the deposits taken from the queue
        obtain rfl := Option.some.inj hget
        refine .inr ⟨taken, _, hplan, ?_, fun entry hentry => ?_⟩
        · simp [submittedSweeps, EventType.submittedSweep, hids]
        · have hview := (h.tracks.queued entry.1 entry.2).mp (htaken entry hentry)
          rw [queuedDeposits_append]
          refine List.mem_append_left _ ((h.queued entry.1 entry.2).mp ?_)
          rw [View.deposit, hview]
          rfl
      · exact .inl hget
  | @succeededSweep signature blockHeight deposits submitted _ _ _ hfinalize =>
      obtain ⟨sweep, hsweep, -, rfl⟩ := Deposits.finalizeSwept_eq_ok hfinalize
      refine h.transition (t := .finalizeSwept signature) hfinalize (by simp)
        (fun hget => .inl (OrdMap.getElem?_of_erase hget)) fun hget => ?_
      rw [OrdMap.getElem?_insert_eq] at hget
      split at hget
      case isTrue heq =>
        subst heq
        obtain rfl := Option.some.inj hget
        exact .inr hsweep
      case isFalse => exact .inl hget
  | failedSweep _ _ _ hdrop => exact h.dropSwept hdrop rfl
  | expiredSweep _ _ _ hdrop => exact h.dropSwept hdrop rfl
  | @queuedDeposit depositId deposit deposits hqueue =>
      obtain ⟨-, -, watchlist, -, rfl⟩ := Deposits.queue_eq_ok hqueue
      exact h.transition (t := .queue depositId deposit timestamp) hqueue (by simp) .inl .inl
  | @creditedSweep signature amountReceived covered mints deposits sweep hcredit =>
      have hstep : state.deposits.transition (.creditSweep signature mints timestamp) =
          .ok deposits := by
        rw [Deposits.transition, hcredit]
        rfl
      obtain ⟨-, -, pendingMints, -, rfl⟩ := Deposits.creditSweep_eq_ok hcredit
      exact h.transition hstep (by simp) .inl fun hget => .inl (OrdMap.getElem?_of_erase hget)
  | @quarantinedSweep signature deposits hquarantine =>
      obtain ⟨sweep, -, rfl⟩ := Deposits.quarantineSweep_eq_ok hquarantine
      exact h.transition (t := .quarantineSweep signature) hquarantine (by simp) .inl
        fun hget => .inl (OrdMap.getElem?_of_erase hget)
  | @minted depositId mintBlockIndex deposits hmint =>
      obtain ⟨pending, -, -, rfl⟩ := Deposits.mint_eq_ok hmint
      exact h.transition (t := .mint depositId mintBlockIndex) hmint (by simp) .inl .inl
  | @quarantinedPendingMint depositId deposits hquarantine =>
      obtain ⟨pending, -, rfl⟩ := Deposits.quarantinePendingMint_eq_ok hquarantine
      exact h.transition (t := .quarantinePendingMint depositId) hquarantine (by simp) .inl .inl
  | _ => exact ⟨view, h.frame rfl⟩

/-- Whatever the events of a run are, the deposits have their history in the log. -/
theorem run {Emits : State → Timestamp → EventType → Prop} {canister canister' : Canister}
    (h : DepositHistory canister.log canister.state.deposits view)
    (hrun : Canister.Run Emits canister canister') :
    ∃ view', DepositHistory canister'.log canister'.state.deposits view' := by
  refine hrun.invariant (fun canister => ∃ view, DepositHistory canister.log canister.state.deposits
    view) ?_ ?_ ⟨view, h⟩
  · rintro canister transient ⟨view, h⟩
    exact ⟨view, h.withWatchlist _⟩
  · rintro state log now payload state' - ⟨view, h⟩ heffect
    exact h.effect heffect

theorem of_init {canister : Canister} {args : InitArgs} {now : Timestamp}
    (h : Canister.init args now = .ok canister) :
    DepositHistory canister.log canister.state.deposits fun _ => none := by
  obtain ⟨_, pool, -, -, rfl⟩ := Canister.exists_of_init h
  refine ⟨.default, ?_, ?_, ?_⟩
  · simp [View.deposit, queuedDeposits, EventType.queuedEntry]
  · simp [Deposits.default, Sweeps.empty]
  · simp [Deposits.default, Sweeps.empty]

end DepositHistory

end Cksol
