import Cksol.Common.Registry
import Cksol.Solana.Compile
import Cksol.State.Bindings
import Cksol.State.DepositSteps
import Cksol.State.Submissions
import Cksol.State.WithdrawalStages

/-! # Duplicates in a log

A log is replayed whatever its events are, so the checks of the transitions alone keep an index, a
signature, a deposit or a nonce value from being recorded twice. The nonce pool and the stages of the
deposits remember everything; the withdrawals are checked against the pending ones only, and the
signatures of expired sweeps are not checked at all.
-/

namespace Cksol

open Std

variable {timestamp : Timestamp} {payload : EventType} {log : List Event} {view : View}

/-! ## The events of a replay -/

section Replay

variable [SolanaSdk]

/-- One iteration of the loop of `replay_events`. -/
def replayStep (state : State) (event : Event) : Except Panic State :=
  applyStateTransition state event.payload event.timestamp

/-- The events of a log after the first, each with the state to which it is applied. -/
def appliedEvents (log : List Event) : List (State × Event) :=
  match log with
  | ⟨_, .init args⟩ :: events =>
      match State.tryFrom args with
      | .ok state => trace replayStep state events
      | .error _ => []
  | _ => []

/-- A replay starts with an initialized state and applies the other events. -/
theorem replayEvents_eq_ok {log : List Event} {state : State} (h : replayEvents log = .ok state) :
    ∃ now args events initial, log = ⟨now, .init args⟩ :: events ∧ State.tryFrom args = .ok initial ∧
      events.foldlM replayStep initial = .ok state ∧
      appliedEvents log = trace replayStep initial events := by
  unfold replayEvents at h
  split at h
  case h_1 => cases h
  case h_2 now args events =>
    obtain ⟨initial, hinit, hevents⟩ := bind_eq_ok.mp h
    rw [mapError_eq_ok] at hinit
    refine ⟨now, args, events, initial, rfl, hinit, hevents, ?_⟩
    rw [appliedEvents, hinit]
  case h_3 => cases h

end Replay

/-! ## Acceptances -/

/-- A request with the burn index is in one of the request maps. -/
def State.Accepted (state : State) (i : LedgerBurnIndex) : Prop :=
  ∃ stage, state.withdrawalAt stage i ≠ none

theorem State.accepted_iff {state : State} {i : LedgerBurnIndex} :
    state.Accepted i ↔ state.pendingWithdrawalRequests[i]? ≠ none ∨
      state.createdWithdrawalRequests[i]? ≠ none ∨ state.sentWithdrawalRequests[i]? ≠ none ∨
      state.successfulWithdrawalRequests[i]? ≠ none ∨ state.failedWithdrawalRequests[i]? ≠ none := by
  constructor
  · rintro ⟨stage, hstage⟩
    cases stage <;> simp_all [State.withdrawalAt]
  · rintro (h | h | h | h | h)
    · exact ⟨.pending, h⟩
    · exact ⟨.created, h⟩
    · exact ⟨.sent, by simpa [State.withdrawalAt] using h⟩
    · exact ⟨.successful, by simpa [State.withdrawalAt] using h⟩
    · exact ⟨.failed, by simpa [State.withdrawalAt] using h⟩

/-- A move between two maps keeps the indices that they hold together. -/
theorem OrdMap.Moved.getElem?_ne_none_iff {K V W : Type} [Ord K] [TransOrd K] {f : V → W} {keys : List K}
    {source source' : OrdMap K V} {target target' : OrdMap K W}
    (h : OrdMap.Moved f keys source source' target target') (k : K) :
    source'[k]? ≠ none ∨ target'[k]? ≠ none ↔ source[k]? ≠ none ∨ target[k]? ≠ none := by
  by_cases hk : k ∈ keys
  · obtain ⟨v, hv⟩ := h.present k hk
    simp [h.target_of_mem k hk, hv]
  · rw [h.source_of_notMem k hk, h.target_of_notMem k hk]

theorem State.finishSent_ne_none_iff (sent finished : OrdMap LedgerBurnIndex SentWithdrawalRequest)
    (signature : Signature) (i : LedgerBurnIndex) :
    (finishSent sent finished signature).1[i]? ≠ none ∨
        (finishSent sent finished signature).2[i]? ≠ none ↔
      sent[i]? ≠ none ∨ finished[i]? ≠ none := by
  rw [getElem?_finishSent_fst, getElem?_finishSent_snd]
  cases hi : sent[i]? with
  | none => simp
  | some request => by_cases hsignature : request.signature = signature <;>
      simp [Option.filter_some, hsignature]

/-- Only an acceptance adds a burn index, and no event loses one. -/
theorem State.accepted_of_effect [SolanaSdk] {state state' : State}
    (heffect : state.Effect timestamp payload state') (i : LedgerBurnIndex) :
    state'.Accepted i ↔ state.Accepted i ∨ i ∈ (Event.acceptedIndex ⟨timestamp, payload⟩).toList := by
  rw [accepted_iff, accepted_iff]
  cases heffect with
  | @acceptedWithdrawal request hnew =>
      simp only [OrdMap.getElem?_insert_eq, Event.acceptedIndex, Option.mem_toList]
      grind
  | createdWithdrawal _ _ hmoved =>
      have := hmoved.getElem?_ne_none_iff i
      simp only [Event.acceptedIndex, Option.toList_none, List.not_mem_nil, or_false]
      grind
  | sentWithdrawal _ _ _ _ _ _ hmoved =>
      have := hmoved.getElem?_ne_none_iff i
      simp only [Event.acceptedIndex, Option.toList_none, List.not_mem_nil, or_false]
      grind
  | @succeededWithdrawal signature | @succeededSweep signature =>
      have := finishSent_ne_none_iff state.sentWithdrawalRequests state.successfulWithdrawalRequests
        signature i
      simp only [Event.acceptedIndex, Option.toList_none, List.not_mem_nil, or_false]
      grind
  | @failedWithdrawal signature | @failedSweep signature =>
      have := finishSent_ne_none_iff state.sentWithdrawalRequests state.failedWithdrawalRequests
        signature i
      simp only [Event.acceptedIndex, Option.toList_none, List.not_mem_nil, or_false]
      grind
  | _ => exact (or_iff_left (by simp [Event.acceptedIndex])).symm

/-! ## Submissions -/

/-- A transaction with the signature is submitted, final, or the sweep of a dropped deposit. -/
def State.Submitted (state : State) (signature : Signature) : Prop :=
  state.submittedTransactions.get signature ≠ none ∨ signature ∈ state.succeededTransactions ∨
    state.failedTransactions.get signature ≠ none ∨
    ∃ (id : DepositSolId) (entry : SweptDeposit),
      state.deposits.dropped[id]? = some entry ∧ entry.signature = signature

/-- A dropped sweep has a deposit, which keeps its signature. -/
theorem DepositHistory.exists_dropped_iff {deposits deposits' : Deposits}
    (h : DepositHistory log deposits view) {signature : Signature}
    (hdrop : deposits.dropSwept signature = .ok deposits') (signature' : Signature) :
    (∃ (id : DepositSolId) (entry : SweptDeposit),
        deposits'.dropped[id]? = some entry ∧ entry.signature = signature') ↔
      (∃ (id : DepositSolId) (entry : SweptDeposit),
        deposits.dropped[id]? = some entry ∧ entry.signature = signature') ∨
        signature = signature' := by
  obtain ⟨sweep, hsweep, htracks⟩ := h.tracks.dropSwept hdrop
  constructor
  · rintro ⟨id, entry, hentry, rfl⟩
    refine (Deposits.signature_of_dropSwept hdrop hentry).imp (fun hold => ?_) Eq.symm
    exact ⟨id, entry, hold, rfl⟩
  · rintro (⟨id, entry, hentry, rfl⟩ | rfl)
    · -- a dropped deposit is not part of the sweep
      have hview := (h.tracks.dropped id entry).mp hentry
      have hmoved : sweep.deposits[id]? = none := by
        refine Option.eq_none_iff_forall_ne_some.mpr fun deposit hdeposit => ?_
        rw [h.tracks.swept_deposits hsweep, hview] at hdeposit
        cases hdeposit
      exact ⟨id, entry, (htracks.dropped id entry).mpr ((View.move_of_none hmoved).trans hview), rfl⟩
    · obtain ⟨_, _, hplan, -⟩ := h.swept hsweep
      obtain ⟨payer, _, -, hpayer, -⟩ := Sweep.plan_eq_ok hplan
      have hdeposit := OrdMap.mem_toList_iff.mp (Sweep.mem_of_maxByPayerKey hpayer)
      exact ⟨payer.1, _, (htracks.dropped _ _).mpr (View.move_of_some hdeposit), rfl⟩

/-- The signatures of the dropped deposits are those from before and that of a sweep that is dropped. -/
theorem State.exists_dropped_of_effect [SolanaSdk] {state state' : State}
    (h : DepositHistory log state.deposits view) (heffect : state.Effect timestamp payload state')
    (signature : Signature) :
    (∃ (id : DepositSolId) (entry : SweptDeposit),
        state'.deposits.dropped[id]? = some entry ∧ entry.signature = signature) ↔
      (∃ (id : DepositSolId) (entry : SweptDeposit),
        state.deposits.dropped[id]? = some entry ∧ entry.signature = signature) ∨
        (payload = .failedTransaction signature ∨ payload = .expiredTransaction signature) ∧
          state.deposits.dropSwept signature = .ok state'.deposits := by
  rcases heffect.dropped_cases with heq | ⟨dropped, hpayload, hdrop⟩
  · rw [heq]
    refine (or_iff_left_of_imp ?_).symm
    rintro ⟨-, hdrop⟩
    rw [← heq]
    exact (h.exists_dropped_iff hdrop signature).mpr (.inr rfl)
  · rw [h.exists_dropped_iff hdrop]
    refine or_congr_right ⟨?_, ?_⟩
    · rintro rfl
      exact ⟨hpayload, hdrop⟩
    · rintro ⟨hpayload', -⟩
      grind

/-- Only a submission adds a signature, and no event loses one. -/
theorem State.submitted_of_effect [SolanaSdk] {state state' : State}
    (h : DepositHistory log state.deposits view) (heffect : state.Effect timestamp payload state')
    (signature : Signature) :
    state'.Submitted signature ↔
      state.Submitted signature ∨ signature ∈ payload.submittedSignature.toList := by
  rw [Submitted, Submitted, exists_dropped_of_effect h heffect]
  cases heffect with
  | sentWithdrawal _ _ hnew | sweptDeposits _ _ hnew =>
      simp only [InsertionOrderedMap.get_insert, EventType.submittedSignature, Option.mem_toList]
      grind
  | succeededWithdrawal _ _ hremove | succeededSweep _ _ hremove =>
      obtain ⟨hget, hrest⟩ := InsertionOrderedMap.remove_eq_some hremove
      simp only [hrest, OrdSet.mem_insert_iff, EventType.submittedSignature, Option.mem_toList]
      grind
  | failedWithdrawal _ _ hremove | failedSweep _ _ hremove =>
      obtain ⟨hget, hrest⟩ := InsertionOrderedMap.remove_eq_some hremove
      simp only [hrest, InsertionOrderedMap.get_insert, EventType.submittedSignature, Option.mem_toList]
      grind
  | expiredSweep _ _ hremove hdrop =>
      obtain ⟨hget, hrest⟩ := InsertionOrderedMap.remove_eq_some hremove
      simp only [hrest, EventType.submittedSignature, Option.mem_toList]
      grind
  | _ => simp [EventType.submittedSignature, withParameters]

/-! ## Registries -/

/-- The nonce value that an event binds to a nonce account. -/
def Event.boundNonce (event : Event) : Option (Address × Hash) :=
  match event.payload with
  | .createdWithdrawalTransaction _ nonceAccount nonceValue => some (nonceAccount, nonceValue)
  | _ => none

theorem Event.mem_boundNonce {event : Event} {binding : Address × Hash} :
    binding ∈ event.boundNonce.toList ↔
      ∃ burnIndices, event.payload = .createdWithdrawalTransaction burnIndices binding.1 binding.2 := by
  unfold boundNonce
  cases event.payload <;> simp [Prod.ext_iff, eq_comm]

/-- The nonce values that a log binds to nonce accounts. -/
def boundNonces (log : List Event) : List (Address × Hash) :=
  log.filterMap Event.boundNonce

/-- The steps that the deposits take along a log. -/
def depositSteps [SolanaSdk] (log : List Event) : List (DepositStep × DepositSolId) :=
  (appliedEvents log).flatMap fun entry => entry.1.depositSteps entry.2.payload

section Registries

variable [SolanaSdk]

/-- The stages of the deposits have a history. -/
def State.HasHistory (state : State) : Prop :=
  ∃ log view, DepositHistory log state.deposits view

theorem State.HasHistory.effect {state state' : State} {timestamp : Timestamp} {payload : EventType}
    (h : state.HasHistory) (heffect : state.Effect timestamp payload state') : state'.HasHistory := by
  obtain ⟨log, view, hhistory⟩ := h
  obtain ⟨view', hhistory'⟩ := hhistory.effect heffect
  exact ⟨_, view', hhistory'⟩

theorem effect_of_replayStep {state state' : State} {event : Event}
    (h : replayStep state event = .ok state') :
    state.Effect event.timestamp event.payload state' :=
  State.effect_of_apply h

theorem acceptedRegistry : Registry replayStep State.HasHistory
    (fun _ event => event.acceptedIndex.toList) State.Accepted where
  invariant h hstep := h.effect (effect_of_replayStep hstep)
  nodup _ _ := by cases Event.acceptedIndex _ <;> simp
  known_iff _ hstep := State.accepted_of_effect (effect_of_replayStep hstep)

theorem submittedRegistry : Registry replayStep State.HasHistory
    (fun _ event => event.payload.submittedSignature.toList) State.Submitted where
  invariant h hstep := h.effect (effect_of_replayStep hstep)
  nodup _ _ := by cases EventType.submittedSignature _ <;> simp
  known_iff h hstep := by
    obtain ⟨log, view, hhistory⟩ := h
    exact State.submitted_of_effect hhistory (effect_of_replayStep hstep)

theorem nonceRegistry : Registry replayStep State.HasHistory
    (fun _ event => event.boundNonce.toList)
    (fun state binding => state.noncePool.hasSeen binding.1 binding.2) where
  invariant h hstep := h.effect (effect_of_replayStep hstep)
  nodup _ _ := by cases Event.boundNonce _ <;> simp
  known_iff _ hstep binding := by
    rw [State.hasSeen_of_effect (effect_of_replayStep hstep), Event.mem_boundNonce]

theorem depositRegistry : Registry replayStep State.HasHistory
    (fun state event => state.depositSteps event.payload)
    (fun state entry => ∃ view, Tracks state.deposits view ∧ entry.1 ∈ view.steps entry.2) where
  invariant h hstep := h.effect (effect_of_replayStep hstep)
  nodup h hstep := by
    obtain ⟨log, view, hhistory⟩ := h
    obtain ⟨_, -, hadvances⟩ := (effect_of_replayStep hstep).advances hhistory.tracks
    exact hadvances.nodup
  known_iff h hstep entry := by
    obtain ⟨log, view, hhistory⟩ := h
    obtain ⟨view', htracks, hadvances⟩ := (effect_of_replayStep hstep).advances hhistory.tracks
    constructor
    · rintro ⟨_, htracks', hmem⟩
      rw [htracks'.unique htracks, hadvances.mem_iff] at hmem
      exact hmem.imp_left fun hmem => ⟨view, hhistory.tracks, hmem⟩
    · intro hentry
      refine ⟨view', htracks, (hadvances.mem_iff _ _).mpr (hentry.imp_left ?_)⟩
      rintro ⟨_, htracks', hmem⟩
      rwa [htracks'.unique hhistory.tracks] at hmem

/-- A new state has accepted, submitted, bound and queued nothing. -/
theorem unknown_of_tryFrom {args : InitArgs} {state : State} (h : State.tryFrom args = .ok state) :
    state.HasHistory ∧ (∀ i, ¬ state.Accepted i) ∧ (∀ signature, ¬ state.Submitted signature) ∧
      (∀ binding : Address × Hash, ¬ state.noncePool.hasSeen binding.1 binding.2) ∧
      ∀ entry : DepositStep × DepositSolId,
        ¬ ∃ view, Tracks state.deposits view ∧ entry.1 ∈ view.steps entry.2 := by
  have hinit : Canister.init args 0 = .ok ⟨state, [⟨0, .init args⟩]⟩ := by
    simp only [Canister.init, bind_eq_ok, mapError_eq_ok, pure_eq_ok]
    exact ⟨state, h, rfl⟩
  have hhistory := DepositHistory.of_init hinit
  obtain ⟨_, pool, hpool, -, rfl⟩ := State.exists_of_tryFrom h
  refine ⟨⟨_, _, hhistory⟩, fun i => ?_, fun signature => ?_, fun binding => ?_, ?_⟩
  · simp [State.accepted_iff]
  · simp [State.Submitted, Deposits.default]
  · rw [State.initial_noncePool, DurableNoncePool.hasSeen_addAccounts hpool]
    simp [DurableNoncePool.hasSeen, DurableNoncePool.empty]
  · rintro entry ⟨view, htracks, hmem⟩
    rw [htracks.unique hhistory.tracks] at hmem
    cases hmem

end Registries

/-! ## Replays -/

namespace State

/-- An index that the event accepts is in none of the maps that requests move on to. -/
def AcceptsFresh (state : State) (payload : EventType) : Prop :=
  ∀ request, payload = .acceptedWithdrawalRequest request →
    ∀ stage, stage ≠ .pending → state.withdrawalAt stage request.burnBlockIndex = none

/-- A signature that the event submits is not that of a dropped sweep. -/
def SubmitsFresh (state : State) (payload : EventType) : Prop :=
  ∀ signature, payload.submittedSignature = some signature →
    ∀ (id : DepositSolId) (entry : SweptDeposit),
      state.deposits.dropped[id]? = some entry → entry.signature ≠ signature

variable [SolanaSdk] {state state' : State} {event : Event}

/-- The transition checks the pending requests itself. -/
theorem acceptsFresh_iff (h : replayStep state event = .ok state') :
    (∀ i ∈ event.acceptedIndex.toList, ¬ state.Accepted i) ↔ state.AcceptsFresh event.payload := by
  have heffect := effect_of_replayStep h
  obtain ⟨timestamp, payload⟩ := event
  cases payload with
  | acceptedWithdrawalRequest request =>
      have hnew : state.pendingWithdrawalRequests[request.burnBlockIndex]? = none := by
        cases heffect with
        | acceptedWithdrawal hnew => exact hnew
      simp only [Event.acceptedIndex, Option.toList_some, List.mem_singleton, forall_eq, Accepted,
        not_exists, not_not, AcceptsFresh, EventType.acceptedWithdrawalRequest.injEq, forall_eq']
      refine ⟨fun hnone stage _ => hnone stage, fun hnone stage => ?_⟩
      by_cases hstage : stage = .pending
      · rw [hstage]
        exact hnew
      · exact hnone stage hstage
  | _ => simp [Event.acceptedIndex, AcceptsFresh]

/-- The transition checks the submitted and the final transactions itself. -/
theorem submitsFresh_iff (h : replayStep state event = .ok state') :
    (∀ signature ∈ event.payload.submittedSignature.toList, ¬ state.Submitted signature) ↔
      state.SubmitsFresh event.payload := by
  have heffect := effect_of_replayStep h
  simp only [Option.mem_toList, SubmitsFresh]
  refine forall₂_congr fun signature hsignature => ?_
  have hchecked : state.submittedTransactions.get signature = none ∧
      signature ∉ state.succeededTransactions ∧ state.failedTransactions.get signature = none := by
    obtain ⟨timestamp, payload⟩ := event
    cases heffect with
    | sentWithdrawal hsucceeded hfailed hnew | sweptDeposits hsucceeded hfailed hnew =>
        obtain rfl := Option.some.inj hsignature
        exact ⟨hnew, hsucceeded, hfailed⟩
    | _ => cases hsignature
  simp [Submitted, hchecked]

/-- The transition checks every value that the account has carried. -/
theorem not_hasSeen_of_boundNonce (h : replayStep state event = .ok state')
    {binding : Address × Hash} (hbinding : binding ∈ event.boundNonce.toList) :
    ¬ state.noncePool.hasSeen binding.1 binding.2 := by
  have heffect := effect_of_replayStep h
  obtain ⟨burnIndices, hpayload⟩ := Event.mem_boundNonce.mp hbinding
  rw [hpayload] at heffect
  cases heffect with
  | createdWithdrawal haccount hunseen =>
      rwa [DurableNoncePool.hasSeen_of_getElem? haccount]

end State

/-- What the events of a log register can be read off the trace of its replay. -/
theorem filterMap_eq_flatMap_trace [SolanaSdk] {α : Type} {f : Event → Option α} {first : Event}
    {events : List Event} {initial state : State} (hfirst : f first = none)
    (hevents : events.foldlM replayStep initial = .ok state) :
    (first :: events).filterMap f =
      (trace replayStep initial events).flatMap fun entry => (f entry.2).toList := by
  rw [flatMap_trace hevents fun event => (f event).toList, List.filterMap_cons_none hfirst,
    List.filterMap_eq_flatMap_toList]

/-- Whatever the events of a replayed log are, no deposit takes a step twice and no nonce value of an
account is bound twice. No burn index is accepted twice exactly when every accepted index is new to the
maps that requests move on to, and no signature is submitted twice exactly when every submitted one is
new to the dropped sweeps. -/
theorem nodup_of_replayEvents [SolanaSdk] {log : List Event} {state : State}
    (h : replayEvents log = .ok state) :
    (depositSteps log).Nodup ∧ (boundNonces log).Nodup ∧
    ((acceptedIndices log).Nodup ↔
      ∀ entry ∈ appliedEvents log, entry.1.AcceptsFresh entry.2.payload) ∧
    ((submittedSignatures log).Nodup ↔
      ∀ entry ∈ appliedEvents log, entry.1.SubmitsFresh entry.2.payload) := by
  obtain ⟨now, args, events, initial, rfl, hinit, hevents, happlied⟩ := replayEvents_eq_ok h
  obtain ⟨hhistory, haccepted, hsubmitted, hbound, hdeposits⟩ := unknown_of_tryFrom hinit
  have hspec := acceptedRegistry.trace_spec hhistory hevents
  rw [depositSteps, happlied]
  refine ⟨?_, ?_, ?_, ?_⟩
  · rw [depositRegistry.nodup_iff hhistory hdeposits hevents]
    rintro entry hentry a ha ⟨view, htracks, hmem⟩
    obtain ⟨-, _, hstep⟩ := hspec entry hentry
    obtain ⟨_, -, hadvances⟩ := (effect_of_replayStep hstep).advances htracks
    exact hadvances.fresh _ _ ha hmem
  · rw [boundNonces, filterMap_eq_flatMap_trace rfl hevents,
      nonceRegistry.nodup_iff hhistory hbound hevents]
    intro entry hentry binding hbinding
    obtain ⟨-, _, hstep⟩ := hspec entry hentry
    exact State.not_hasSeen_of_boundNonce hstep hbinding
  · rw [acceptedIndices, filterMap_eq_flatMap_trace rfl hevents,
      acceptedRegistry.nodup_iff hhistory haccepted hevents]
    refine forall₂_congr fun entry hentry => ?_
    obtain ⟨-, _, hstep⟩ := hspec entry hentry
    exact State.acceptsFresh_iff hstep
  · rw [submittedSignatures, filterMap_eq_flatMap_trace rfl hevents,
      submittedRegistry.nodup_iff hhistory hsubmitted hevents]
    refine forall₂_congr fun entry hentry => ?_
    obtain ⟨-, _, hstep⟩ := hspec entry hentry
    exact State.submitsFresh_iff hstep

section Sample

attribute [local instance] Solana.sdk

/-- The sweep of a deposit expires, the next sweep is submitted with the given signature and pays for a
withdrawal, and after its transaction is created a request with the given burn index is accepted. -/
def sampleReplay (signature : Signature) (burnIndex : LedgerBurnIndex) : List Event :=
  let account : Account := ⟨.single 8, none⟩
  let message := SolanaSdk.newWithBlockhash [SolanaSdk.transfer 11 7 29_104_120] (some 11) 9
  [⟨0, .init sampleInitArgs⟩, ⟨1, .minterPublicKeyFetched ⟨7, 8⟩⟩,
    ⟨2, .queuedDeposit 0 ⟨account, 11, .sample, none⟩⟩,
    ⟨3, .submittedTransaction 5 message [.account account] (.sweepDeposit [0] 1000)⟩,
    ⟨4, .expiredTransaction 5⟩,
    ⟨5, .queuedDeposit 1 ⟨account, 11, .sample, none⟩⟩,
    ⟨6, .submittedTransaction signature message [.account account] (.sweepDeposit [1] 1200)⟩,
    ⟨7, .succeededTransaction signature⟩,
    ⟨8, .creditedSweep signature 29_104_120 [⟨1, 29_104_120⟩]⟩,
    ⟨9, .acceptedWithdrawalRequest ⟨account, 20, 3, 2_000_000, 1_995_000⟩⟩,
    ⟨10, .createdWithdrawalTransaction [3] 4 77⟩,
    ⟨11, .acceptedWithdrawalRequest ⟨account, 20, burnIndex, 2_000_000, 1_995_000⟩⟩]

theorem nodup_sampleReplay :
    (depositSteps (sampleReplay 6 4)).Nodup ∧ (boundNonces (sampleReplay 6 4)).Nodup ∧
      (∀ entry ∈ appliedEvents (sampleReplay 6 4), entry.1.AcceptsFresh entry.2.payload) ∧
      ∀ entry ∈ appliedEvents (sampleReplay 6 4), entry.1.SubmitsFresh entry.2.payload := by
  have hok : (replayEvents (sampleReplay 6 4)).isOk = true := by decide +kernel
  obtain ⟨state, hreplay⟩ := exists_eq_ok_of_isOk hok
  obtain ⟨hsteps, hnonces, haccepted, hsubmitted⟩ := nodup_of_replayEvents hreplay
  exact ⟨hsteps, hnonces, haccepted.mp (by decide +kernel), hsubmitted.mp (by decide +kernel)⟩

/-- The signature of the expired sweep is submitted again, and the burn index of the created transaction
is accepted again. -/
theorem not_nodup_sampleReplay :
    (replayEvents (sampleReplay 5 3)).isOk = true ∧ ¬ (acceptedIndices (sampleReplay 5 3)).Nodup ∧
      ¬ (submittedSignatures (sampleReplay 5 3)).Nodup := by
  refine ⟨by decide +kernel, by decide +kernel, by decide +kernel⟩

end Sample

end Cksol
