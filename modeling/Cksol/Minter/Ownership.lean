import Cksol.Minter.MintLedger
import Cksol.Minter.RentFloor

/-! # Who is minted for what

A deposit is queued with the address that is derived from its account, a sweep takes lamports from the
addresses of the deposits it was planned for, and a mint is recorded with the credit of such a sweep.
So every transfer that the minter requests of the ledger pays the account whose own address was swept,
and what the plan takes from that address less the fees.
-/

namespace Cksol

open Std Canister

section Ownership

variable [SolanaSdk]

/-! ## Addresses of queued deposits -/

/-- A call of `deposit_sol` reads the balance of the address of its account. -/
theorem derived_of_depositSol {canister canister' : Canister} {minterId : Principal} {account : Account}
    {availableCycles : ℕ} {call : DepositSolCall}
    (h : depositSol canister minterId account availableCycles = .ok (.awaitsBalance canister' call)) :
    (call.account.owner ≠ .anonymous ∧ call.account.owner ≠ minterId) ∧
      ∃ key, canister.state.minterPublicKey = some key ∧
        call.address = accountAddress key call.account := by
  simp only [depositSol, assertValidDepositOwner, bind_eq_ok, check_eq_ok] at h
  obtain ⟨⟨⟩, howner, h⟩ := h
  split at h
  · cases pure_eq_ok.mp h
  · simp only [bind_eq_ok] at h
    obtain ⟨checked, -, h⟩ := h
    split at h
    · cases pure_eq_ok.mp h
    · cases pure_eq_ok.mp h
    · split at h
      · cases pure_eq_ok.mp h
      case h_2 key hkey =>
        obtain ⟨-, rfl⟩ := DepositSolStart.awaitsBalance.inj (pure_eq_ok.mp h)
        exact ⟨howner, key, hkey, rfl⟩

namespace Config

variable {config config' : Config} {now : Timestamp} {action : Action}

/-- The address is that of the account, whose owner may deposit. -/
structure Owns (config : Config) (account : Account) (address : Address) : Prop where
  owner : account.owner ≠ .anonymous ∧ account.owner ≠ config.minterId
  derived : ∃ key, config.canister.state.minterPublicKey = some key ∧
    address = accountAddress key account

/-- Deposits are queued, and calls in flight read the balances, of the addresses of their accounts. No
deposit is charged a fee. -/
structure Derived (config : Config) : Prop where
  calls : ∀ call ∈ config.depositSolCalls, config.Owns call.account call.address
  queued : ∀ entry ∈ queuedDeposits config.canister.log, config.Owns entry.2.account entry.2.address
  free : ∀ entry ∈ queuedDeposits config.canister.log, entry.2.depositFee = none

theorem Owns.steps {account : Account} {address : Address} (h : config.Owns account address)
    (hwellformed : config.Wellformed) (hsteps : config.Steps now action config') :
    config'.Owns account address := by
  have hminter : config'.minterId = config.minterId := by cases hsteps <;> rfl
  obtain ⟨key, hkey, hderived⟩ := h.derived
  exact ⟨hminter ▸ h.owner, key, (hsteps.run hwellformed.replayable).minterPublicKey hkey, hderived⟩

theorem Steps.mem_depositSolCalls (hsteps : config.Steps now action config') {call : DepositSolCall}
    (h : call ∈ config'.depositSolCalls) : call ∈ config.depositSolCalls ∨
      ∃ account availableCycles canister, depositSol config.canister config.minterId account
        availableCycles = .ok (.awaitsBalance canister call) := by
  cases hsteps with
  | depositSolStarted hdeposit =>
      rcases List.mem_append.mp h with hold | hnew
      · exact .inl hold
      · obtain rfl := List.mem_singleton.mp hnew
        exact .inr ⟨_, _, _, hdeposit⟩
  | deposited | depositSolEnded => exact .inl (List.mem_of_mem_eraseIdx h)
  | upgraded => cases h
  | _ => exact .inl h

/-- A message that is not a balance scan queues what a call has read. -/
theorem Steps.mem_queuedDeposits (hsteps : config.Steps now action config')
    (hreplay : config.canister.Replayable) (hflow : ∀ deposit, action ≠ .queueDeposit deposit)
    {entry : DepositSolId × QueuedDeposit} (h : entry ∈ queuedDeposits config'.canister.log) :
    entry ∈ queuedDeposits config.canister.log ∨
      ∃ call ∈ config.depositSolCalls, entry.2.account = call.account ∧
        entry.2.address = call.address ∧ entry.2.depositFee = none := by
  obtain ⟨timestamp, hmem⟩ := Cksol.mem_queuedDeposits.mp h
  rcases (hsteps.run hreplay).mem_log hmem with hold | ⟨_, hrecords⟩
  · exact .inl (Cksol.mem_queuedDeposits.mpr ⟨timestamp, hold⟩)
  rcases hrecords.recordedBy with ⟨position, reply, refunded, accepted, rfl⟩ | ⟨deposit, rfl⟩
  · cases hsteps with
    | deposited hcall hbalance hevent =>
        obtain ⟨state, -, rfl⟩ := processEvent_eq_ok.mp hevent
        rw [dropDepositSolGuard, updateTransient, queuedDeposits_append, List.mem_append] at h
        refine h.imp_right fun hnew => ?_
        obtain ⟨-, hdeposit⟩ := EventType.queuedDeposit.inj (mem_queuedDeposits_singleton.mp hnew)
        exact ⟨_, List.mem_of_getElem? hcall, hdeposit ▸ ⟨rfl, rfl, rfl⟩⟩
    | unchanged | withdrawEnded | depositSolEnded => exact .inl h
  · exact absurd rfl (hflow deposit)

/-- Addresses are derived when a call starts, and its deposit keeps the address. -/
theorem Derived.steps (h : config.Derived) (hwellformed : config.Wellformed)
    (hflow : ∀ deposit, action ≠ .queueDeposit deposit) (hsteps : config.Steps now action config') :
    config'.Derived := by
  have hqueued (entry : DepositSolId × QueuedDeposit)
      (hentry : entry ∈ queuedDeposits config'.canister.log) :=
    hsteps.mem_queuedDeposits hwellformed.replayable hflow hentry
  refine ⟨fun call hcall => ?_, fun entry hentry => ?_, fun entry hentry => ?_⟩
  · rcases hsteps.mem_depositSolCalls hcall with hold | ⟨_, _, _, hdeposit⟩
    · exact (h.calls call hold).steps hwellformed hsteps
    · obtain ⟨howner, hderived⟩ := derived_of_depositSol hdeposit
      exact Owns.steps ⟨howner, hderived⟩ hwellformed hsteps
  · rcases hqueued entry hentry with hold | ⟨call, hcall, haccount, haddress, -⟩
    · exact (h.queued entry hold).steps hwellformed hsteps
    · rw [haccount, haddress]
      exact (h.calls call hcall).steps hwellformed hsteps
  · rcases hqueued entry hentry with hold | ⟨_, -, -, -, hfree⟩
    · exact h.free entry hold
    · exact hfree

theorem derived_of_run {minterId : Principal} {args : InitArgs} {actions : List (Timestamp × Action)}
    (h : runFrom minterId args now actions = some config)
    (hflow : ∀ entry ∈ actions, ∀ deposit, entry.2 ≠ .queueDeposit deposit) : config.Derived := by
  refine runFrom_step_invariant Derived (fun config hinit => ?_) (fun _ _ _ _ hmem hwellformed
    hderived hstep => hderived.steps hwellformed (hflow _ hmem) (steps_of_step hstep)) h
  simp only [init, Canister.init, bind_eq_ok, pure_eq_ok] at hinit
  obtain ⟨_, ⟨state, -, rfl⟩, rfl⟩ := hinit
  constructor <;> simp [idle, queuedDeposits, EventType.queuedEntry]

end Config

/-! ## Credits -/

/-- Credits are those of recorded sweeps. -/
def CreditsRecorded (log : List Event) : Prop :=
  ∀ timestamp signature amountReceived mints,
    ⟨timestamp, .creditedSweep signature amountReceived mints⟩ ∈ log →
    ∃ sweep : Sweep, sweep.RecordedIn log ∧ sweep.mints = .ok mints

theorem creditsRecorded_of_run {canister : Canister} {args : InitArgs} {initial : Canister}
    {now : Timestamp} (hinit : Canister.init args now = .ok initial)
    (hrun : Run Emits initial canister) : CreditsRecorded canister.log := by
  refine (hrun.invariant (fun reached => (∃ view, DepositHistory reached.log reached.state.deposits
    view) ∧ CreditsRecorded reached.log) ?_ ?_ ⟨⟨_, .of_init hinit⟩, ?_⟩).2
  · rintro reached transient ⟨⟨view, hhistory⟩, hcredits⟩
    exact ⟨⟨view, hhistory.withWatchlist _⟩, hcredits⟩
  · rintro state log t payload state' hemits ⟨⟨view, hhistory⟩, hcredits⟩ heffect
    refine ⟨hhistory.effect heffect, fun timestamp signature amountReceived mints hmem => ?_⟩
    rcases List.mem_append.mp hmem with hold | hnew
    · obtain ⟨sweep, hrecorded, hmints⟩ := hcredits _ _ _ _ hold
      exact ⟨sweep, hrecorded.append _, hmints⟩
    · obtain ⟨-, rfl⟩ := Event.mk.inj (List.mem_singleton.mp hnew)
      obtain ⟨sweep, fetched, hsweep, hsettle⟩ := hemits.settled _ _ _ rfl
      exact ⟨sweep, (hhistory.finalized hsweep).append _, (Sweep.settle_eq_ok hsettle).2.1⟩
  · simp only [Canister.init, bind_eq_ok, pure_eq_ok] at hinit
    obtain ⟨state, -, rfl⟩ := hinit
    intro timestamp signature amountReceived mints hmem
    cases List.mem_singleton.mp hmem

/-! ## Transfers -/

namespace Config

variable {config : Config} {now : Timestamp}

/-- The transfer mints for the deposit, which was queued for its account and swept in the sweep. -/
structure MintsFor (config : Config) (arg : TransferArg) (depositId : DepositSolId)
    (deposit : QueuedDeposit) (sweep : Sweep) : Prop where
  queued : (depositId, deposit) ∈ queuedDeposits config.canister.log
  owns : config.Owns deposit.account deposit.address
  recorded : sweep.RecordedIn config.canister.log
  swept : sweep.deposits[depositId]? = some deposit
  receiver : arg.toAccount = deposit.account
  /-- The memo names the credit of the sweep, and the deposit. -/
  credited : ∃ signature amountReceived mints timestamp,
    ⟨timestamp, .creditedSweep signature amountReceived mints⟩ ∈ config.canister.log ∧
    sweep.mints = .ok mints ∧ arg.memo = some (Memo.encode (.mint (.sweep signature depositId)))
  /-- What is minted is what the deposit held above the rent exemption threshold, less the fees. -/
  amount : arg.amount + sweep.feeShare.toNat + deposit.fee.toNat = deposit.sweepableAmount.toNat

/-- In every run whose deposits are queued by `deposit_sol`, every transfer that the minter requests
mints for a deposit of its receiver, from a sweep of the address that is derived from the receiver. -/
theorem mintsFor_of_run {minterId : Principal} {args : InitArgs} {actions : List (Timestamp × Action)}
    (h : runFrom minterId args now actions = some config)
    (hflow : ∀ entry ∈ actions, ∀ deposit, entry.2 ≠ .queueDeposit deposit)
    {arg : TransferArg} (harg : arg ∈ config.transfers) :
    ∃ depositId deposit sweep, config.MintsFor arg depositId deposit sweep := by
  obtain ⟨-, initial, hinit, hrun⟩ := emits_of_run h
  obtain ⟨view, hview⟩ := (DepositHistory.of_init hinit).run hrun
  obtain ⟨depositId, pending, ⟨hqueued, hrecord⟩, rfl⟩ := (callsRecorded_of_run h).transfers arg harg
  obtain ⟨⟨timestamp, payload⟩, hmem, hrecord⟩ := List.mem_flatMap.mp hrecord
  cases payload with
  | creditedSweep signature amountReceived mints =>
      obtain ⟨mint, hmint, heq⟩ := List.mem_map.mp hrecord
      obtain ⟨rfl, rfl, hamount, -⟩ := MintRecord.mk.inj heq
      obtain ⟨sweep, hrecorded, hmints⟩ := creditsRecorded_of_run hinit hrun _ _ _ _ hmem
      obtain ⟨deposit, hget, hsum⟩ := Sweep.amountToMint_of_mints hmints hmint
      -- the deposit that was swept is the one that was queued under its id
      obtain rfl : deposit = pending.deposit.deposit := by
        obtain ⟨deposits, minterAddress, hplan, -, hdeposits⟩ := id hrecorded
        obtain ⟨payer, payerAmount, hunique, -⟩ := Sweep.plan_eq_ok hplan
        have hswept := hdeposits _ (((Sweep.unique_eq_ok hunique).2 _ _).mp hget)
        exact Option.some.inj
          (((hview.queued _ _).mpr hswept).symm.trans ((hview.queued _ _).mpr hqueued))
      refine ⟨_, _, sweep, hqueued, (derived_of_run h hflow).queued _ hqueued, hrecorded, hget, rfl,
        ⟨_, _, _, _, hmem, hmints, rfl⟩, ?_⟩
      rw [← hsum, hamount]
      rfl
  | _ => cases hrecord

end Config

end Ownership

section Sample

attribute [local instance] Solana.sdk

theorem Config.mintsFor_sampleManualDeposit :
    ∃ config arg, runFrom sampleMinterId sampleInitArgs 0
        (sampleManualDeposit ++ [(30, .mints .start), (31, .mints .next)]) = some config ∧
      arg ∈ config.transfers ∧ arg.toAccount = sampleAccount ∧ arg.amount = 29_104_120 ∧
      ∃ depositId deposit sweep, config.MintsFor arg depositId deposit sweep := by
  have hsome : ((runFrom sampleMinterId sampleInitArgs 0 (sampleManualDeposit ++
      [(30, .mints .start), (31, .mints .next)])).any fun config => config.transfers.any fun arg =>
        arg.toAccount = sampleAccount ∧ arg.amount = 29_104_120) = true := by decide +kernel
  obtain ⟨config, hconfig, hany⟩ := (Option.any_eq_true _ _).mp hsome
  obtain ⟨arg, hmem, htest⟩ := List.any_eq_true.mp hany
  obtain ⟨hreceiver, hamount⟩ := of_decide_eq_true htest
  exact ⟨config, arg, hconfig, hmem, hreceiver, hamount,
    mintsFor_of_run hconfig (by simp [sampleManualDeposit]) hmem⟩

end Sample

end Cksol
