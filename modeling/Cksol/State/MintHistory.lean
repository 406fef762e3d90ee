import Cksol.State.DepositHistory

/-! # Mints and the log

The event that credits a sweep records the mint of each of its deposits. A deposit is credited at most
once, so the log determines the arguments of its mint, and the pending mint of the state is the one
recorded.
-/

namespace Cksol

open Std

variable {pending : PendingMint} {signature : Signature} {sweep : Sweep}

/-- What a crediting event records of the mint of one deposit. -/
structure MintRecord where
  depositId : DepositSolId
  sweepSignature : Signature
  amountToMint : Lamport
  createdAtTime : Timestamp
deriving DecidableEq

def Event.mintRecords (event : Event) : List MintRecord :=
  match event.payload with
  | .creditedSweep signature _ mints =>
      mints.map fun mint => ⟨mint.depositId, signature, mint.amountToMint, event.timestamp⟩
  | _ => []

/-- The mints that the log records, in order. -/
def mintRecords (log : List Event) : List MintRecord :=
  log.flatMap Event.mintRecords

def PendingMint.record (depositId : DepositSolId) (pending : PendingMint) : MintRecord :=
  ⟨depositId, pending.sweepSignature, pending.amountToMint, pending.createdAtTime⟩

/-- The deposit was queued as the pending mint has it, and its credit recorded the same mint. -/
def RecordedMint (log : List Event) (depositId : DepositSolId) (pending : PendingMint) : Prop :=
  (depositId, pending.deposit.deposit) ∈ queuedDeposits log ∧
    pending.record depositId ∈ mintRecords log

@[simp] theorem mintRecords_append (log new : List Event) :
    mintRecords (log ++ new) = mintRecords log ++ mintRecords new :=
  List.flatMap_append

@[simp] theorem mintRecords_singleton (event : Event) : mintRecords [event] = event.mintRecords :=
  List.flatMap_singleton _ _

theorem RecordedMint.append {log : List Event} {depositId : DepositSolId}
    (h : RecordedMint log depositId pending) (new : List Event) :
    RecordedMint (log ++ new) depositId pending := by
  refine ⟨?_, ?_⟩
  · rw [queuedDeposits_append]
    exact List.mem_append_left _ h.1
  · rw [mintRecords_append]
    exact List.mem_append_left _ h.2

/-! ## What an event does to the mints -/

/-- The mints are left alone but by the credit of a sweep and by the mint or quarantine of a
deposit. -/
theorem State.Effect.mints_cases [SolanaSdk] {state state' : State} {timestamp : Timestamp}
    {payload : EventType} (heffect : state.Effect timestamp payload state') :
    (Event.mintRecords ⟨timestamp, payload⟩ = [] ∧
      state'.deposits.pendingMints = state.deposits.pendingMints ∧
      state'.deposits.minted = state.deposits.minted ∧
      ∀ id ∈ state.deposits.quarantined, id ∈ state'.deposits.quarantined) ∨
    (∃ signature amountReceived mints sweep, payload = .creditedSweep signature amountReceived mints ∧
      state.deposits.creditSweep signature mints timestamp = .ok (state'.deposits, sweep)) ∨
    (∃ depositId mintBlockIndex, payload = .mintedSweptDeposit depositId mintBlockIndex ∧
      state.deposits.mint depositId mintBlockIndex = .ok state'.deposits) ∨
    ∃ depositId, payload = .quarantinedPendingMint depositId ∧
      state.deposits.quarantinePendingMint depositId = .ok state'.deposits := by
  cases heffect with
  | creditedSweep hcredit => exact .inr (.inl ⟨_, _, _, _, rfl, hcredit⟩)
  | minted hmint => exact .inr (.inr (.inl ⟨_, _, rfl, hmint⟩))
  | quarantinedPendingMint hquarantine => exact .inr (.inr (.inr ⟨_, rfl, hquarantine⟩))
  | sweptDeposits _ _ _ _ hsweep =>
      obtain ⟨_, _, -, -, -, -, -, -, rfl⟩ := Deposits.sweep_eq_ok hsweep
      exact .inl ⟨rfl, rfl, rfl, fun _ h => h⟩
  | succeededSweep _ _ _ hfinalize =>
      obtain ⟨_, -, -, rfl⟩ := Deposits.finalizeSwept_eq_ok hfinalize
      exact .inl ⟨rfl, rfl, rfl, fun _ h => h⟩
  | failedSweep _ _ _ hdrop | expiredSweep _ _ _ hdrop =>
      obtain ⟨_, -, -, rfl⟩ := Deposits.dropSwept_eq_ok hdrop
      exact .inl ⟨rfl, rfl, rfl, fun _ h => h⟩
  | queuedDeposit hqueue =>
      obtain ⟨-, -, _, -, rfl⟩ := Deposits.queue_eq_ok hqueue
      exact .inl ⟨rfl, rfl, rfl, fun _ h => h⟩
  | quarantinedSweep hquarantine =>
      obtain ⟨_, -, rfl⟩ := Deposits.quarantineSweep_eq_ok hquarantine
      exact .inl ⟨rfl, rfl, rfl, fun _ hmem => OrdMap.mem_insertAll_iff.mpr (.inr hmem)⟩
  | _ => exact .inl ⟨rfl, rfl, rfl, fun _ h => h⟩

/-- A credit keeps the pending mints that were there. -/
theorem Deposits.Credited.mem_pendingMints {timestamp : Timestamp}
    {pendingMints pendingMints' : OrdMap DepositSolId PendingMint} {mints : List CreditedDeposit}
    (h : Credited sweep signature timestamp pendingMints mints pendingMints') {id : DepositSolId}
    (hid : id ∈ pendingMints) : id ∈ pendingMints' := by
  obtain ⟨pending, hpending⟩ := OrdMap.mem_iff_exists.mp hid
  refine OrdMap.mem_iff_exists.mpr ⟨pending, (h.frame id fun hmints => ?_).trans hpending⟩
  obtain ⟨mint, hmint, rfl⟩ := List.mem_map.mp hmints
  rw [h.fresh mint hmint] at hpending
  cases hpending

/-- A pending mint stays until its deposit is minted or quarantined. -/
theorem State.Effect.mem_pendingMints [SolanaSdk] {state state' : State} {timestamp : Timestamp}
    {payload : EventType} (heffect : state.Effect timestamp payload state') {id : DepositSolId}
    (hminted : ∀ mintBlockIndex, payload ≠ .mintedSweptDeposit id mintBlockIndex)
    (hquarantined : payload ≠ .quarantinedPendingMint id) (h : id ∈ state.deposits.pendingMints) :
    id ∈ state'.deposits.pendingMints := by
  rcases heffect.mints_cases with ⟨-, hpending, -⟩ | ⟨_, _, _, _, rfl, hcredit⟩ |
    ⟨depositId, _, rfl, hmint⟩ | ⟨depositId, rfl, hquarantine⟩
  · rw [hpending]
    exact h
  · obtain ⟨-, -, _, hcredited, hdeposits⟩ := Deposits.creditSweep_eq_ok hcredit
    rw [hdeposits]
    exact hcredited.mem_pendingMints h
  · obtain ⟨_, -, -, hdeposits⟩ := Deposits.mint_eq_ok hmint
    rw [hdeposits]
    exact OrdMap.mem_erase_iff.mpr
      ⟨fun hid => hminted _ (congrArg (EventType.mintedSweptDeposit · _) hid), h⟩
  · obtain ⟨_, -, hdeposits⟩ := Deposits.quarantinePendingMint_eq_ok hquarantine
    rw [hdeposits]
    exact OrdMap.mem_erase_iff.mpr ⟨fun hid => hquarantined (congrArg _ hid), h⟩

/-! ## The mints of a run -/

/-- The deposit has left the finalized sweeps for good. -/
def Deposits.PastCredit (deposits : Deposits) (id : DepositSolId) : Prop :=
  id ∈ deposits.pendingMints ∨ id ∈ deposits.minted ∨ id ∈ deposits.quarantined

/-- The log records one mint for each deposit that was credited, and those that are pending are among
them. -/
structure MintHistory (log : List Event) (deposits : Deposits) : Prop where
  past : ∀ record ∈ mintRecords log, deposits.PastCredit record.depositId
  nodup : ((mintRecords log).map MintRecord.depositId).Nodup
  pending : ∀ {id : DepositSolId} {pending : PendingMint},
    deposits.pendingMints[id]? = some pending → pending.record id ∈ mintRecords log

namespace MintHistory

variable {log : List Event} {deposits deposits' : Deposits} {view : View} {timestamp : Timestamp}
  {payload : EventType} {id : DepositSolId}

/-- An event that records no mint. -/
theorem frame (h : MintHistory log deposits) (hrecords : Event.mintRecords ⟨timestamp, payload⟩ = [])
    (hpast : ∀ id, deposits.PastCredit id → deposits'.PastCredit id)
    (hpending : ∀ {id : DepositSolId} {pending : PendingMint},
      deposits'.pendingMints[id]? = some pending → deposits.pendingMints[id]? = some pending) :
    MintHistory (log ++ [⟨timestamp, payload⟩]) deposits' := by
  have hlog : mintRecords (log ++ [⟨timestamp, payload⟩]) = mintRecords log := by
    rw [mintRecords_append, mintRecords_singleton, hrecords, List.append_nil]
  refine ⟨fun record hrecord => hpast _ (h.past record (hlog ▸ hrecord)), hlog ▸ h.nodup, ?_⟩
  intro id pending hget
  rw [hlog]
  exact h.pending (hpending hget)

/-- The deposits of a finalized sweep were not credited before. -/
theorem not_pastCredit (htracks : Tracks deposits view)
    (hsweep : deposits.finalized.bySignature[signature]? = some sweep) {deposit : QueuedDeposit}
    (hdeposit : sweep.deposits[id]? = some deposit) :
    ¬ deposits.PastCredit id := by
  have hview := (htracks.finalized_deposits hsweep id deposit).mp hdeposit
  rintro (hpast | hpast | hpast) <;> obtain ⟨entry, hentry⟩ := OrdMap.mem_iff_exists.mp hpast
  · rw [(htracks.pendingMints id entry).mp hentry] at hview
    cases hview
  · rw [(htracks.minted id entry).mp hentry] at hview
    cases hview
  · rw [(htracks.quarantined id entry).mp hentry] at hview
    cases hview

/-- A credit records one mint for each deposit of the sweep, all of them for the first time. -/
theorem creditSweep (h : MintHistory log deposits) (htracks : Tracks deposits view)
    {amountReceived : Lamport} {mints : List CreditedDeposit}
    (hcredit : deposits.creditSweep signature mints timestamp = .ok (deposits', sweep)) :
    MintHistory (log ++ [⟨timestamp, .creditedSweep signature amountReceived mints⟩]) deposits' := by
  obtain ⟨hsweep, -, pendingMints, hcredited, rfl⟩ := Deposits.creditSweep_eq_ok hcredit
  have hlog : mintRecords (log ++ [⟨timestamp, .creditedSweep signature amountReceived mints⟩]) =
      mintRecords log ++ mints.map fun mint =>
        ⟨mint.depositId, signature, mint.amountToMint, timestamp⟩ := by
    rw [mintRecords_append, mintRecords_singleton]
    rfl
  -- the sweep is still finalized, so none of its deposits was credited
  have hfresh : ∀ mint ∈ mints, ¬ deposits.PastCredit mint.depositId := by
    intro mint hmint
    obtain ⟨deposit, hdeposit, -⟩ := hcredited.credited mint hmint
    exact not_pastCredit htracks hsweep hdeposit
  have hnew : ∀ id ∈ mints.map CreditedDeposit.depositId, id ∈ pendingMints := by
    intro id hid
    obtain ⟨mint, hmint, rfl⟩ := List.mem_map.mp hid
    obtain ⟨deposit, -, -, hpending⟩ := hcredited.credited mint hmint
    exact OrdMap.mem_iff_exists.mpr ⟨_, hpending⟩
  refine ⟨fun record hrecord => ?_, ?_, fun {id pending} hget => ?_⟩
  · rw [hlog, List.mem_append] at hrecord
    rcases hrecord with hold | hadded
    · exact (h.past record hold).imp_left hcredited.mem_pendingMints
    · obtain ⟨mint, hmint, rfl⟩ := List.mem_map.mp hadded
      exact .inl (hnew _ (List.mem_map_of_mem hmint))
  · rw [hlog, List.map_append, List.map_map]
    refine h.nodup.append hcredited.nodup fun id hold hadded => ?_
    obtain ⟨record, hrecord, rfl⟩ := List.mem_map.mp hold
    obtain ⟨mint, hmint, hid⟩ := List.mem_map.mp hadded
    refine hfresh mint hmint ?_
    have hid' : mint.depositId = record.depositId := hid
    rw [hid']
    exact h.past record hrecord
  · rw [hlog, List.mem_append]
    by_cases hid : id ∈ mints.map CreditedDeposit.depositId
    · obtain ⟨mint, hmint, rfl⟩ := List.mem_map.mp hid
      obtain ⟨deposit, -, -, hpending⟩ := hcredited.credited mint hmint
      obtain rfl := Option.some.inj (hpending.symm.trans hget)
      exact .inr (List.mem_map_of_mem hmint)
    · exact .inl (h.pending ((hcredited.frame id hid).symm.trans hget))

section Runs

variable [SolanaSdk] {state state' : State}

theorem effect (h : MintHistory log state.deposits) (htracks : Tracks state.deposits view)
    (heffect : state.Effect timestamp payload state') :
    MintHistory (log ++ [⟨timestamp, payload⟩]) state'.deposits := by
  rcases heffect.mints_cases with ⟨hrecords, hpending, hminted, hquarantined⟩ |
    ⟨_, _, _, _, rfl, hcredit⟩ | ⟨depositId, _, rfl, hmint⟩ | ⟨depositId, rfl, hquarantine⟩
  · refine h.frame hrecords (fun id hpast => ?_) fun hget => ?_
    · rw [Deposits.PastCredit, hpending, hminted]
      exact hpast.imp_right (Or.imp_right (hquarantined id))
    · rw [← hpending]
      exact hget
  · exact h.creditSweep htracks hcredit
  · obtain ⟨pending, -, -, hdeposits⟩ := Deposits.mint_eq_ok hmint
    rw [hdeposits]
    refine h.frame rfl (fun id hpast => ?_) fun hget => OrdMap.getElem?_of_erase hget
    rcases hpast with hpending | hminted | hquarantined
    · by_cases hid : depositId = id
      · exact .inr (.inl (OrdMap.mem_insert_iff.mpr (.inl hid)))
      · exact .inl (OrdMap.mem_erase_iff.mpr ⟨hid, hpending⟩)
    · exact .inr (.inl (OrdMap.mem_insert_iff.mpr (.inr hminted)))
    · exact .inr (.inr hquarantined)
  · obtain ⟨pending, -, hdeposits⟩ := Deposits.quarantinePendingMint_eq_ok hquarantine
    rw [hdeposits]
    refine h.frame rfl (fun id hpast => ?_) fun hget => OrdMap.getElem?_of_erase hget
    rcases hpast with hpending | hminted | hquarantined
    · by_cases hid : depositId = id
      · exact .inr (.inr (OrdMap.mem_insert_iff.mpr (.inl hid)))
      · exact .inl (OrdMap.mem_erase_iff.mpr ⟨hid, hpending⟩)
    · exact .inr (.inl hminted)
    · exact .inr (.inr (OrdMap.mem_insert_iff.mpr (.inr hquarantined)))

/-- Whatever the events of a run are, the pending mints are those that the log records. -/
theorem run {Emits : State → Timestamp → EventType → Prop} {canister canister' : Canister}
    (h : MintHistory canister.log canister.state.deposits)
    (hdeposits : DepositHistory canister.log canister.state.deposits view)
    (hrun : Canister.Run Emits canister canister') :
    MintHistory canister'.log canister'.state.deposits := by
  refine (hrun.invariant (fun canister => MintHistory canister.log canister.state.deposits ∧
    ∃ view, DepositHistory canister.log canister.state.deposits view) ?_ ?_ ⟨h, view, hdeposits⟩).1
  · rintro canister transient ⟨h, view, hdeposits⟩
    exact ⟨⟨h.past, h.nodup, h.pending⟩, view, hdeposits.withWatchlist _⟩
  · rintro state log now payload state' - ⟨h, view, hdeposits⟩ heffect
    exact ⟨h.effect hdeposits.tracks heffect, hdeposits.effect heffect⟩

theorem of_init {canister : Canister} {args : InitArgs} {now : Timestamp}
    (h : Canister.init args now = .ok canister) : MintHistory canister.log canister.state.deposits := by
  obtain ⟨_, pool, -, -, rfl⟩ := Canister.exists_of_init h
  refine ⟨?_, ?_, ?_⟩
  · simp [Event.mintRecords]
  · simp [Event.mintRecords]
  · simp [Deposits.default]

end Runs

/-- A pending mint is the one recorded for its deposit. -/
theorem recordedMint (h : MintHistory log deposits) (hdeposits : DepositHistory log deposits view)
    (hpending : deposits.pendingMints[id]? = some pending) :
    RecordedMint log id pending := by
  refine ⟨(hdeposits.queued id _).mp ?_, h.pending hpending⟩
  rw [View.deposit, (hdeposits.tracks.pendingMints id pending).mp hpending]
  rfl

/-- The log records at most one mint for a deposit. -/
theorem recordedMint_unique (h : MintHistory log deposits)
    (hdeposits : DepositHistory log deposits view) {pending pending' : PendingMint}
    (hrecorded : RecordedMint log id pending) (hrecorded' : RecordedMint log id pending') :
    pending = pending' := by
  have hqueued := ((hdeposits.queued id _).mpr hrecorded.1).symm.trans
    ((hdeposits.queued id _).mpr hrecorded'.1)
  have hrecord : pending.record id = pending'.record id :=
    List.inj_on_of_nodup_map h.nodup hrecorded.2 hrecorded'.2 rfl
  obtain ⟨⟨deposit, signature⟩, amountToMint, createdAtTime⟩ := pending
  obtain ⟨⟨deposit', signature'⟩, amountToMint', createdAtTime'⟩ := pending'
  obtain ⟨-, hsignature, hamount, htime⟩ := MintRecord.mk.inj hrecord
  obtain rfl : deposit = deposit' := Option.some.inj hqueued
  obtain rfl : signature = signature' := hsignature
  obtain rfl : amountToMint = amountToMint' := hamount
  obtain rfl : createdAtTime = createdAtTime' := htime
  rfl

/-- A deposit with a recorded mint has an id that was issued. -/
theorem lt_nextId (hdeposits : DepositHistory log deposits view)
    (hrecorded : RecordedMint log id pending) : id < deposits.nextId := by
  refine (hdeposits.tracks.issued id).mp ?_
  rw [View.owner, (hdeposits.queued id _).mpr hrecorded.1]
  rfl

end MintHistory

/-! ## Minted deposits -/

/-- A deposit is minted by its event only, from its pending mint. -/
theorem State.Effect.minted_cases [SolanaSdk] {state state' : State} {timestamp : Timestamp}
    {payload : EventType} (heffect : state.Effect timestamp payload state') {id : DepositSolId}
    {minted : MintedSweep} (h : state'.deposits.minted[id]? = some minted) :
    state.deposits.minted[id]? = some minted ∨
      payload = .mintedSweptDeposit id minted.mintBlockIndex ∧
        ∃ pending, state.deposits.pendingMints[id]? = some pending ∧
          minted = ⟨pending.deposit, pending.amountToMint, minted.mintBlockIndex⟩ := by
  rcases heffect.mints_cases with ⟨-, -, hminted, -⟩ | ⟨_, _, _, _, rfl, hcredit⟩ |
    ⟨depositId, _, rfl, hmint⟩ | ⟨depositId, rfl, hquarantine⟩
  · rw [hminted] at h
    exact .inl h
  · obtain ⟨-, -, _, -, hdeposits⟩ := Deposits.creditSweep_eq_ok hcredit
    rw [hdeposits] at h
    exact .inl h
  · obtain ⟨pending, hpending, -, hdeposits⟩ := Deposits.mint_eq_ok hmint
    rw [hdeposits, OrdMap.getElem?_insert_eq] at h
    split at h
    case isTrue heq =>
      subst heq
      obtain rfl := Option.some.inj h
      exact .inr ⟨rfl, pending, hpending, rfl⟩
    case isFalse => exact .inl h
  · obtain ⟨_, -, hdeposits⟩ := Deposits.quarantinePendingMint_eq_ok hquarantine
    rw [hdeposits] at h
    exact .inl h

end Cksol
