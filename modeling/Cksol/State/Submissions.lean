import Cksol.State.DepositHistory
import Cksol.State.Tables

/-! # Submissions and outcomes in the log

Every transaction the state knows was submitted by an event of the log, every submission has at most one
outcome, and no deposit is part of two submitted sweeps.
-/

namespace Cksol

open Std

variable {Emits : State → Timestamp → EventType → Prop} {args : InitArgs} {now : Timestamp}

namespace EventType

/-- The signature that an event submits. -/
def submittedSignature : EventType → Option Signature
  | submittedTransaction signature .. => some signature
  | _ => none

/-- The signature whose outcome an event records. -/
def concludedSignature : EventType → Option Signature
  | succeededTransaction signature => some signature
  | failedTransaction signature => some signature
  | expiredTransaction signature => some signature
  | _ => none

end EventType

/-- The signatures that were submitted, in order. -/
def submittedSignatures (log : List Event) : List Signature :=
  log.filterMap fun event => event.payload.submittedSignature

/-- The signatures with an outcome, in order. -/
def concludedSignatures (log : List Event) : List Signature :=
  log.filterMap fun event => event.payload.concludedSignature

theorem submittedSignatures_append (log : List Event) (timestamp : Timestamp) (payload : EventType) :
    submittedSignatures (log ++ [⟨timestamp, payload⟩]) =
      submittedSignatures log ++ payload.submittedSignature.toList := by
  rw [submittedSignatures, List.filterMap_append]
  cases hpayload : payload.submittedSignature <;> simp [submittedSignatures, hpayload]

theorem concludedSignatures_append (log : List Event) (timestamp : Timestamp) (payload : EventType) :
    concludedSignatures (log ++ [⟨timestamp, payload⟩]) =
      concludedSignatures log ++ payload.concludedSignature.toList := by
  rw [concludedSignatures, List.filterMap_append]
  cases hpayload : payload.concludedSignature <;> simp [concludedSignatures, hpayload]

/-! ## Signatures -/

/-- A signature the log has not submitted is new to the state, and one that it has is in flight or has
as many outcomes as submissions. -/
structure SignatureHistory (log : List Event) (state : State) : Prop where
  fresh : ∀ signature ∉ submittedSignatures log, state.submittedTransactions.get signature = none ∧
    signature ∉ state.succeededTransactions ∧ state.failedTransactions.get signature = none
  counted : ∀ signature, (submittedSignatures log).count signature =
    (concludedSignatures log).count signature +
      if (state.submittedTransactions.get signature).isSome then 1 else 0

namespace SignatureHistory

variable {log : List Event} {state state' : State} {timestamp : Timestamp} {payload : EventType}
  {signature : Signature}

theorem frame (h : SignatureHistory log state) (hnone : payload.submittedSignature = none)
    (houtcome : payload.concludedSignature = none)
    (hsubmitted : state'.submittedTransactions = state.submittedTransactions)
    (hsucceeded : state'.succeededTransactions = state.succeededTransactions)
    (hfailed : state'.failedTransactions = state.failedTransactions) :
    SignatureHistory (log ++ [⟨timestamp, payload⟩]) state' := by
  constructor
  · simpa [submittedSignatures_append, hnone, hsubmitted, hsucceeded, hfailed] using h.fresh
  · simpa [submittedSignatures_append, concludedSignatures_append, hnone, houtcome, hsubmitted]
      using h.counted

theorem submit (h : SignatureHistory log state) (hsome : payload.submittedSignature = some signature)
    (houtcome : payload.concludedSignature = none)
    (hnew : state.submittedTransactions.get signature = none) {transaction : MinterTransaction}
    (hsubmitted : state'.submittedTransactions =
      state.submittedTransactions.insert signature transaction)
    (hsucceeded : state'.succeededTransactions = state.succeededTransactions)
    (hfailed : state'.failedTransactions = state.failedTransactions) :
    SignatureHistory (log ++ [⟨timestamp, payload⟩]) state' := by
  constructor
  · intro signature' hfresh
    rw [submittedSignatures_append, hsome, Option.toList_some, List.mem_append, List.mem_singleton,
      not_or] at hfresh
    rw [hsubmitted, hsucceeded, hfailed, InsertionOrderedMap.get_insert, if_neg (Ne.symm hfresh.2)]
    exact h.fresh signature' hfresh.1
  · intro signature'
    have hold := h.counted signature'
    rw [submittedSignatures_append, concludedSignatures_append, hsome, houtcome, hsubmitted,
      InsertionOrderedMap.get_insert, Option.toList_some, Option.toList_none, List.append_nil,
      List.count_append, hold]
    by_cases heq : signature = signature'
    · subst heq
      simp [hnew]
    · simp [heq]

theorem conclude (h : SignatureHistory log state) (hnone : payload.submittedSignature = none)
    (houtcome : payload.concludedSignature = some signature) {transaction : MinterTransaction}
    (hremove : state.submittedTransactions.remove signature =
      some (transaction, state'.submittedTransactions))
    (hsucceeded : ∀ s ∈ state'.succeededTransactions,
      s = signature ∨ s ∈ state.succeededTransactions)
    (hfailed : ∀ s, state'.failedTransactions.get s ≠ none →
      s = signature ∨ state.failedTransactions.get s ≠ none) :
    SignatureHistory (log ++ [⟨timestamp, payload⟩]) state' := by
  obtain ⟨hget, hrest⟩ := InsertionOrderedMap.remove_eq_some hremove
  have hold : signature ∈ submittedSignatures log := by
    by_contra hfresh
    rw [(h.fresh signature hfresh).1] at hget
    cases hget
  constructor
  · intro signature' hfresh
    rw [submittedSignatures_append, hnone, Option.toList_none, List.append_nil] at hfresh
    have hne : signature' ≠ signature := fun heq => hfresh (heq ▸ hold)
    obtain ⟨h₁, h₂, h₃⟩ := h.fresh signature' hfresh
    refine ⟨?_, fun hmem => ?_, ?_⟩
    · rw [hrest, if_neg (Ne.symm hne)]
      exact h₁
    · exact (hsucceeded signature' hmem).elim hne h₂
    · by_contra hsome
      exact (hfailed signature' hsome).elim hne (absurd h₃)
  · intro signature'
    have hcount := h.counted signature'
    rw [submittedSignatures_append, concludedSignatures_append, hnone, houtcome, hrest,
      Option.toList_some, Option.toList_none, List.append_nil, List.count_append, hcount]
    by_cases heq : signature = signature'
    · subst heq
      simp [hget]
    · simp [heq]

theorem effect [SolanaSdk] (h : SignatureHistory log state)
    (heffect : state.Effect timestamp payload state') :
    SignatureHistory (log ++ [⟨timestamp, payload⟩]) state' := by
  cases heffect with
  | sentWithdrawal _ _ hnew => exact h.submit rfl rfl hnew rfl rfl rfl
  | sweptDeposits _ _ hnew => exact h.submit rfl rfl hnew rfl rfl rfl
  | succeededWithdrawal _ _ hremove | succeededSweep _ _ hremove =>
      refine h.conclude rfl rfl hremove (fun s hmem => ?_) fun s => .inr
      rwa [OrdSet.mem_insert_iff, eq_comm] at hmem
  | failedWithdrawal _ _ hremove | failedSweep _ _ hremove =>
      refine h.conclude rfl rfl hremove (fun s => .inr) fun s hsome => ?_
      rw [InsertionOrderedMap.get_insert] at hsome
      grind
  | expiredSweep _ _ hremove => exact h.conclude rfl rfl hremove (fun s => .inr) fun s => .inr
  | _ => exact h.frame rfl rfl rfl rfl rfl

theorem run [SolanaSdk] {canister canister' : Canister}
    (h : SignatureHistory canister.log canister.state)
    (hrun : Canister.Run Emits canister canister') :
    SignatureHistory canister'.log canister'.state :=
  hrun.invariant (fun canister => SignatureHistory canister.log canister.state)
    (fun _ _ h => ⟨h.fresh, h.counted⟩) (fun _ _ _ _ _ _ h heffect => h.effect heffect) h

theorem of_init [SolanaSdk] {canister : Canister} (h : Canister.init args now = .ok canister) :
    SignatureHistory canister.log canister.state := by
  obtain ⟨_, pool, -, -, rfl⟩ := Canister.exists_of_init h
  constructor <;>
    simp [submittedSignatures, concludedSignatures, EventType.submittedSignature,
      EventType.concludedSignature]

/-- At most one outcome is recorded for each submission. -/
theorem count_concluded_le (h : SignatureHistory log state) (signature : Signature) :
    (concludedSignatures log).count signature ≤ (submittedSignatures log).count signature := by
  rw [h.counted]
  exact Nat.le_add_right _ _

end SignatureHistory

/-! ## Expiries -/

namespace EventType

/-- The signature of the sweep that an event submits. -/
def sweepSignature : EventType → Option Signature
  | submittedTransaction signature _ _ (.sweepDeposit ..) => some signature
  | _ => none

/-- The signature of the withdrawal that an event submits. -/
def withdrawalSignature : EventType → Option Signature
  | submittedTransaction signature _ _ (.withdrawal ..) => some signature
  | _ => none

end EventType

def sweepSignatures (log : List Event) : List Signature :=
  log.filterMap fun event => event.payload.sweepSignature

def withdrawalSignatures (log : List Event) : List Signature :=
  log.filterMap fun event => event.payload.withdrawalSignature

/-- A failed transaction stays so. -/
theorem State.Effect.failed [SolanaSdk] {state state' : State} {timestamp : Timestamp}
    {payload : EventType} (heffect : state.Effect timestamp payload state') {signature : Signature}
    (h : state.failedTransactions.get signature ≠ none) :
    state'.failedTransactions.get signature ≠ none := by
  cases heffect with
  | failedWithdrawal | failedSweep =>
      rw [InsertionOrderedMap.get_insert]
      split
      · exact Option.some_ne_none _
      · exact h
  | _ => exact h

/-- A final transaction stays final. -/
theorem State.Effect.final [SolanaSdk] {state state' : State} {timestamp : Timestamp}
    {payload : EventType} (heffect : state.Effect timestamp payload state') {signature : Signature}
    (h : signature ∈ state.succeededTransactions ∨ state.failedTransactions.get signature ≠ none) :
    signature ∈ state'.succeededTransactions ∨
      state'.failedTransactions.get signature ≠ none := by
  refine h.imp (fun hmem => ?_) heffect.failed
  cases heffect with
  | succeededWithdrawal | succeededSweep => exact OrdSet.mem_insert_iff.mpr (.inr hmem)
  | _ => exact hmem

/-- A submitted withdrawal stays submitted, or becomes final. -/
theorem State.Effect.withdrawal_recorded [SolanaSdk] {state state' : State} {timestamp : Timestamp}
    {payload : EventType} (heffect : state.Effect timestamp payload state') {signature : Signature}
    {message : Message} {nonceAccount : Address} {nonceValue : Hash} {submittedAt : Timestamp}
    (h : state.submittedTransactions.get signature =
      some (.withdrawal message nonceAccount nonceValue submittedAt)) :
    state'.submittedTransactions.get signature =
        some (.withdrawal message nonceAccount nonceValue submittedAt) ∨
      signature ∈ state'.succeededTransactions ∨
      state'.failedTransactions.get signature ≠ none := by
  cases heffect with
  | sentWithdrawal _ _ hsubmitted | sweptDeposits _ _ hsubmitted =>
      rw [InsertionOrderedMap.get_insert]
      grind
  | succeededWithdrawal _ _ hremove | succeededSweep _ _ hremove =>
      rw [(InsertionOrderedMap.remove_eq_some hremove).2, OrdSet.mem_insert_iff]
      grind
  | failedWithdrawal _ _ hremove | failedSweep _ _ hremove =>
      rw [(InsertionOrderedMap.remove_eq_some hremove).2, InsertionOrderedMap.get_insert]
      grind
  | expiredSweep _ _ hremove =>
      obtain ⟨hget, hrest⟩ := InsertionOrderedMap.remove_eq_some hremove
      rw [hrest]
      grind
  | _ => exact .inl h

/-- A submitted sweep was there before, or is submitted by the event. -/
theorem State.Effect.sweep_submitted [SolanaSdk] {state state' : State} {timestamp : Timestamp}
    {payload : EventType} (heffect : state.Effect timestamp payload state') {signature : Signature}
    {blockHeight : BlockHeight}
    (h : state'.submittedTransactions.get signature = some (.sweepDeposit blockHeight)) :
    state.submittedTransactions.get signature = some (.sweepDeposit blockHeight) ∨
      ∃ message signers depositIds, payload =
        .submittedTransaction signature message signers (.sweepDeposit depositIds blockHeight) := by
  have hrest {signature' : Signature} {transaction : MinterTransaction}
      {submitted : InsertionOrderedMap Signature MinterTransaction}
      (hremove : state.submittedTransactions.remove signature' = some (transaction, submitted))
      (hget : submitted.get signature = some (.sweepDeposit blockHeight)) :
      state.submittedTransactions.get signature = some (.sweepDeposit blockHeight) := by
    rw [(InsertionOrderedMap.remove_eq_some hremove).2] at hget
    split at hget
    · cases hget
    · exact hget
  cases heffect with
  | sentWithdrawal =>
      rw [InsertionOrderedMap.get_insert] at h
      split at h
      · cases h
      · exact .inl h
  | @sweptDeposits signature' message signers depositIds =>
      rw [InsertionOrderedMap.get_insert] at h
      split at h
      · next heq =>
          obtain rfl := heq
          cases h
          exact .inr ⟨message, signers, depositIds, rfl⟩
      · exact .inl h
  | succeededWithdrawal _ _ hremove | succeededSweep _ _ hremove => exact .inl (hrest hremove h)
  | failedWithdrawal _ _ hremove | failedSweep _ _ hremove => exact .inl (hrest hremove h)
  | expiredSweep _ _ hremove => exact .inl (hrest hremove h)
  | _ => exact .inl h

/-- A submitted sweep was submitted as one, a signature that was submitted for a withdrawal is kept, and
the expired transactions were sweeps. -/
structure ExpiryHistory (log : List Event) (state : State) : Prop where
  swept : ∀ signature blockHeight,
    state.submittedTransactions.get signature = some (.sweepDeposit blockHeight) →
    signature ∈ sweepSignatures log
  withdrawn : ∀ signature ∈ withdrawalSignatures log,
    IsWithdrawal state.submittedTransactions signature ∨ signature ∈ state.succeededTransactions ∨
      state.failedTransactions.get signature ≠ none
  expired : ∀ before timestamp signature,
    before ++ [⟨timestamp, .expiredTransaction signature⟩] <+: log →
    signature ∈ sweepSignatures before ∧ signature ∉ withdrawalSignatures before

namespace ExpiryHistory

variable [SolanaSdk] {log : List Event} {state state' : State} {timestamp : Timestamp}
  {payload : EventType}

theorem effect (h : ExpiryHistory log state) (heffect : state.Effect timestamp payload state') :
    ExpiryHistory (log ++ [⟨timestamp, payload⟩]) state' := by
  refine ⟨fun signature blockHeight hget => ?_, fun signature hmem => ?_, ?_⟩
  · rw [sweepSignatures, List.filterMap_append, List.mem_append]
    rcases heffect.sweep_submitted hget with hold | ⟨message, signers, depositIds, rfl⟩
    · exact .inl (h.swept _ _ hold)
    · exact .inr (by simp [EventType.sweepSignature])
  · rw [withdrawalSignatures, List.filterMap_append, List.mem_append] at hmem
    rcases hmem with hold | hnew
    · rcases h.withdrawn _ hold with ⟨message, account, nonceValue, submittedAt, hget⟩ | hfinal
      · exact (heffect.withdrawal_recorded hget).imp_left fun hget => ⟨_, _, _, _, hget⟩
      · exact .inr (heffect.final hfinal)
    · cases heffect with
      | sentWithdrawal =>
          obtain rfl : signature = _ := by simpa [EventType.withdrawalSignature] using hnew
          exact .inl ⟨_, _, _, _, (InsertionOrderedMap.get_insert ..).trans (if_pos rfl)⟩
      | _ => simp [EventType.withdrawalSignature] at hnew
  · intro before timestamp' signature hlog
    rcases List.prefix_concat_iff.mp hlog with heq | hlog
    · obtain ⟨rfl, hevent⟩ := List.append_inj' heq rfl
      obtain ⟨rfl, rfl⟩ := Event.mk.inj (List.singleton_inj.mp hevent)
      cases heffect with
      | expiredSweep hsucceeded hfailed hremove hdrop =>
          have hget := (InsertionOrderedMap.remove_eq_some hremove).1
          refine ⟨h.swept _ _ hget, fun hwithdrawn => ?_⟩
          rcases h.withdrawn _ hwithdrawn with ⟨_, _, _, _, hother⟩ | hother | hother
          · rw [hget] at hother
            cases hother
          · exact hsucceeded hother
          · exact hother hfailed
    · exact h.expired _ _ _ hlog

theorem run {canister canister' : Canister} (h : ExpiryHistory canister.log canister.state)
    (hrun : Canister.Run Emits canister canister') :
    ExpiryHistory canister'.log canister'.state :=
  hrun.invariant (fun canister => ExpiryHistory canister.log canister.state)
    (fun _ _ h => ⟨h.swept, h.withdrawn, h.expired⟩)
    (fun _ _ _ _ _ _ h heffect => h.effect heffect) h

theorem of_init {canister : Canister} (h : Canister.init args now = .ok canister) :
    ExpiryHistory canister.log canister.state := by
  obtain ⟨_, pool, -, -, rfl⟩ := Canister.exists_of_init h
  refine ⟨by simp, by simp [withdrawalSignatures, EventType.withdrawalSignature], ?_⟩
  intro before timestamp signature hlog
  have hmem := hlog.subset (List.mem_append_right _ List.mem_cons_self)
  simp at hmem

end ExpiryHistory

/-! ## Dropped deposits -/

/-- The signature that an event lets expire. -/
def EventType.expiredSignature : EventType → Option Signature
  | expiredTransaction signature => some signature
  | _ => none

def expiredSignatures (log : List Event) : List Signature :=
  log.filterMap fun event => event.payload.expiredSignature

theorem mem_expiredSignatures {log : List Event} {signature : Signature} :
    signature ∈ expiredSignatures log ↔
      ∃ event ∈ log, event.payload = .expiredTransaction signature := by
  rw [expiredSignatures, List.mem_filterMap]
  refine exists_congr fun event => and_congr_right fun _ => ?_
  cases event.payload <;> simp [EventType.expiredSignature]

theorem mem_expiredSignatures_append {log : List Event} {timestamp : Timestamp} {payload : EventType}
    {signature : Signature} : signature ∈ expiredSignatures (log ++ [⟨timestamp, payload⟩]) ↔
      signature ∈ expiredSignatures log ∨ payload = .expiredTransaction signature := by
  simp only [mem_expiredSignatures, List.mem_append, List.mem_singleton, or_and_right, exists_or,
    exists_eq_left]

/-- Only the failure or the expiry of a sweep changes the dropped deposits. -/
theorem State.Effect.dropped_cases [SolanaSdk] {state state' : State} {timestamp : Timestamp}
    {payload : EventType} (heffect : state.Effect timestamp payload state') :
    state'.deposits.dropped = state.deposits.dropped ∨
      ∃ signature, (payload = .failedTransaction signature ∨ payload = .expiredTransaction signature) ∧
        state.deposits.dropSwept signature = .ok state'.deposits := by
  cases heffect with
  | @failedSweep signature _ _ _ _ _ _ hdrop => exact .inr ⟨signature, .inl rfl, hdrop⟩
  | @expiredSweep signature _ _ _ _ _ _ hdrop => exact .inr ⟨signature, .inr rfl, hdrop⟩
  | sweptDeposits _ _ _ _ hsweep =>
      obtain ⟨_, _, -, -, -, -, -, -, rfl⟩ := Deposits.sweep_eq_ok hsweep
      exact .inl rfl
  | succeededSweep _ _ _ hfinalize =>
      obtain ⟨_, -, -, rfl⟩ := Deposits.finalizeSwept_eq_ok hfinalize
      exact .inl rfl
  | queuedDeposit hqueue =>
      obtain ⟨-, -, _, -, rfl⟩ := Deposits.queue_eq_ok hqueue
      exact .inl rfl
  | creditedSweep hcredit =>
      obtain ⟨-, -, _, -, rfl⟩ := Deposits.creditSweep_eq_ok hcredit
      exact .inl rfl
  | quarantinedSweep hquarantine =>
      obtain ⟨_, -, rfl⟩ := Deposits.quarantineSweep_eq_ok hquarantine
      exact .inl rfl
  | minted hmint =>
      obtain ⟨_, -, -, rfl⟩ := Deposits.mint_eq_ok hmint
      exact .inl rfl
  | quarantinedPendingMint hquarantine =>
      obtain ⟨_, -, rfl⟩ := Deposits.quarantinePendingMint_eq_ok hquarantine
      exact .inl rfl
  | _ => exact .inl rfl

/-- The deposits of a dropped sweep carry its signature. -/
theorem Deposits.signature_of_dropSwept {deposits deposits' : Deposits} {signature : Signature}
    (hdrop : deposits.dropSwept signature = .ok deposits') {depositId : DepositSolId}
    {entry : SweptDeposit} (h : deposits'.dropped[depositId]? = some entry) :
    deposits.dropped[depositId]? = some entry ∨ entry.signature = signature := by
  obtain ⟨sweep, -, -, rfl⟩ := dropSwept_eq_ok hdrop
  rcases OrdMap.mem_of_getElem?_insertAll h with hmem | hold
  · obtain ⟨deposit, -, heq⟩ := List.mem_map.mp hmem
    obtain ⟨-, rfl⟩ := Prod.mk.inj heq
    exact .inr rfl
  · exact .inl hold

/-- A deposit is dropped by the failure or the expiry of its sweep. -/
theorem State.Effect.dropped [SolanaSdk] {state state' : State} {timestamp : Timestamp}
    {payload : EventType} (heffect : state.Effect timestamp payload state') {depositId : DepositSolId}
    {entry : SweptDeposit} (h : state'.deposits.dropped[depositId]? = some entry) :
    state.deposits.dropped[depositId]? = some entry ∨
      payload = .expiredTransaction entry.signature ∨
      state'.failedTransactions.get entry.signature ≠ none := by
  rcases heffect.dropped_cases with heq | ⟨signature, hpayload, hdrop⟩
  · exact .inl (heq ▸ h)
  · refine (Deposits.signature_of_dropSwept hdrop h).imp_right fun heq => ?_
    rcases hpayload with rfl | rfl
    · refine .inr ?_
      cases heffect with
      | failedWithdrawal | failedSweep =>
          rw [heq, InsertionOrderedMap.get_insert, if_pos rfl]
          exact Option.some_ne_none _
    · exact .inl (by rw [heq])

/-- The sweeps of the dropped deposits failed or expired. -/
def DropHistory (log : List Event) (state : State) : Prop :=
  ∀ (depositId : DepositSolId) (entry : SweptDeposit),
    state.deposits.dropped[depositId]? = some entry →
    entry.signature ∈ expiredSignatures log ∨
      state.failedTransactions.get entry.signature ≠ none

namespace DropHistory

variable [SolanaSdk] {canister canister' : Canister}

theorem run (h : DropHistory canister.log canister.state)
    (hrun : Canister.Run Emits canister canister') :
    DropHistory canister'.log canister'.state := by
  refine hrun.invariant (fun canister => DropHistory canister.log canister.state) ?_ ?_ h
  · exact fun canister transient h => h
  · intro state log now payload state' _ h heffect depositId entry hentry
    rw [mem_expiredSignatures_append]
    rcases heffect.dropped hentry with hold | hexpired | hfailed
    · exact (h depositId entry hold).imp .inl heffect.failed
    · exact .inl (.inr hexpired)
    · exact .inr hfailed

theorem of_init (h : Canister.init args now = .ok canister) :
    DropHistory canister.log canister.state := by
  obtain ⟨_, pool, -, -, rfl⟩ := Canister.exists_of_init h
  intro depositId entry hentry
  simp [Deposits.default] at hentry

end DropHistory

/-! ## Sweeps -/

/-- Apart from submitted sweeps, events leave the queue or add to it under the next id. -/
theorem State.Effect.queue [SolanaSdk] {state state' : State} {timestamp : Timestamp}
    {payload : EventType} (heffect : state.Effect timestamp payload state')
    (hpayload : payload.submittedSweep = none) :
    (state'.deposits.nextId = state.deposits.nextId ∧
      state'.deposits.queued = state.deposits.queued) ∨
    ∃ deposit, state'.deposits.nextId = state.deposits.nextId + 1 ∧
      state'.deposits.queued = state.deposits.queued.insert state.deposits.nextId deposit := by
  cases heffect with
  | sweptDeposits => cases hpayload
  | @queuedDeposit depositId deposit deposits hqueue =>
      obtain ⟨rfl, -, watchlist, -, rfl⟩ := Deposits.queue_eq_ok hqueue
      exact .inr ⟨deposit, rfl, rfl⟩
  | succeededSweep _ _ _ hfinalize =>
      obtain ⟨sweep, -, -, rfl⟩ := Deposits.finalizeSwept_eq_ok hfinalize
      exact .inl ⟨rfl, rfl⟩
  | failedSweep _ _ _ hdrop | expiredSweep _ _ _ hdrop =>
      obtain ⟨sweep, -, -, rfl⟩ := Deposits.dropSwept_eq_ok hdrop
      exact .inl ⟨rfl, rfl⟩
  | creditedSweep hcredit =>
      obtain ⟨-, -, pendingMints, -, rfl⟩ := Deposits.creditSweep_eq_ok hcredit
      exact .inl ⟨rfl, rfl⟩
  | quarantinedSweep hquarantine =>
      obtain ⟨sweep, -, rfl⟩ := Deposits.quarantineSweep_eq_ok hquarantine
      exact .inl ⟨rfl, rfl⟩
  | minted hmint =>
      obtain ⟨pending, -, -, rfl⟩ := Deposits.mint_eq_ok hmint
      exact .inl ⟨rfl, rfl⟩
  | quarantinedPendingMint hquarantine =>
      obtain ⟨pending, -, rfl⟩ := Deposits.quarantinePendingMint_eq_ok hquarantine
      exact .inl ⟨rfl, rfl⟩
  | _ => exact .inl ⟨rfl, rfl⟩

/-- No deposit is part of two submitted sweeps, and those that were submitted are not queued. -/
structure SweptOnce (log : List Event) (deposits : Deposits) : Prop where
  nodup : (submittedSweeps log).flatten.Nodup
  swept : ∀ depositId ∈ (submittedSweeps log).flatten,
    depositId < deposits.nextId ∧ deposits.queued[depositId]? = none

namespace SweptOnce

variable [SolanaSdk] {log : List Event} {state state' : State} {timestamp : Timestamp}
  {payload : EventType}

theorem frame (h : SweptOnce log state.deposits) (hnone : payload.submittedSweep = none)
    (heffect : state.Effect timestamp payload state') :
    SweptOnce (log ++ [⟨timestamp, payload⟩]) state'.deposits := by
  have hsweeps : submittedSweeps (log ++ [⟨timestamp, payload⟩]) = submittedSweeps log := by
    simp [submittedSweeps, hnone]
  refine ⟨hsweeps ▸ h.nodup, ?_⟩
  rw [hsweeps]
  intro depositId hmem
  obtain ⟨hissued, hnotQueued⟩ := h.swept depositId hmem
  rcases heffect.queue hnone with ⟨hnextId, hqueued⟩ | ⟨deposit, hnextId, hqueued⟩
  · rw [hnextId, hqueued]
    exact ⟨hissued, hnotQueued⟩
  · rw [hnextId, hqueued, OrdMap.getElem?_insert_eq, if_neg (Nat.ne_of_gt hissued)]
    exact ⟨Nat.lt_succ_of_lt hissued, hnotQueued⟩

theorem effect (h : SweptOnce log state.deposits) {view : View}
    (hview : Tracks state.deposits view) (heffect : state.Effect timestamp payload state') :
    SweptOnce (log ++ [⟨timestamp, payload⟩]) state'.deposits := by
  cases hpayload : payload.submittedSweep with
  | none => exact h.frame hpayload heffect
  | some depositIds =>
      cases heffect with
      | @sweptDeposits signature message signers _ blockHeight _ _ _ _ _ _ _ hsweep =>
          obtain rfl := Option.some.inj hpayload
          obtain ⟨taken, sweep, hnodup, rfl, htaken, -, -, -, rfl⟩ := Deposits.sweep_eq_ok hsweep
          have hsweeps : (submittedSweeps (log ++ [⟨timestamp, .submittedTransaction signature message
              signers (.sweepDeposit (taken.map Prod.fst) blockHeight)⟩])).flatten =
              (submittedSweeps log).flatten ++ taken.map Prod.fst := by
            simp [submittedSweeps, EventType.submittedSweep]
          -- the deposits taken were queued until now
          have hqueued : ∀ depositId ∈ taken.map Prod.fst, ∃ deposit,
              state.deposits.queued[depositId]? = some deposit := by
            intro depositId hmem
            obtain ⟨entry, hentry, rfl⟩ := List.mem_map.mp hmem
            exact ⟨entry.2, htaken entry hentry⟩
          constructor
          · rw [hsweeps, List.nodup_append]
            refine ⟨h.nodup, hnodup, ?_⟩
            rintro depositId hold _ hnew rfl
            obtain ⟨deposit, hdeposit⟩ := hqueued depositId hnew
            rw [(h.swept depositId hold).2] at hdeposit
            cases hdeposit
          · rw [hsweeps]
            intro depositId hmem
            rw [OrdMap.getElem?_eraseAll]
            rcases List.mem_append.mp hmem with hold | hnew
            · obtain ⟨hissued, hnone⟩ := h.swept depositId hold
              exact ⟨hissued, by rw [hnone, ite_self]⟩
            · obtain ⟨deposit, hdeposit⟩ := hqueued depositId hnew
              exact ⟨hview.lt_nextId ((hview.queued _ _).mp hdeposit), if_pos hnew⟩
      | _ => cases hpayload

/-- Whatever the events of a run are, they submit no deposit twice. -/
theorem run {canister canister' : Canister} {view : View}
    (h : SweptOnce canister.log canister.state.deposits)
    (hview : DepositHistory canister.log canister.state.deposits view)
    (hrun : Canister.Run Emits canister canister') :
    SweptOnce canister'.log canister'.state.deposits := by
  refine (hrun.invariant (fun canister => SweptOnce canister.log canister.state.deposits ∧
    ∃ view, DepositHistory canister.log canister.state.deposits view) ?_ ?_ ⟨h, view, hview⟩).1
  · rintro canister transient ⟨h, view, hview⟩
    exact ⟨⟨h.nodup, h.swept⟩, view, hview.withWatchlist _⟩
  · rintro state log now payload state' - ⟨h, view, hview⟩ heffect
    exact ⟨h.effect hview.tracks heffect, hview.effect heffect⟩

theorem of_init {canister : Canister} (h : Canister.init args now = .ok canister) :
    SweptOnce canister.log canister.state.deposits := by
  obtain ⟨_, pool, -, -, rfl⟩ := Canister.exists_of_init h
  constructor <;> simp [submittedSweeps, EventType.submittedSweep]

end SweptOnce

end Cksol
