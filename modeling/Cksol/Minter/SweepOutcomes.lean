import Cksol.Minter.FinalizationRounds
import Cksol.Minter.Ownership
import Cksol.State.SweepExecution

/-! # What becomes of sweeps

Deposit addresses are derived from accounts, and an account has one deposit in flight, so the sources of
a sweep differ as long as the derivation does not collide. The minimum deposit amount lets every deposit
pay its share of the fee and brings the rent exemption threshold to the main address. Every sweep in
flight therefore succeeds when a block includes it, and is credited with what it planned.
-/

namespace Cksol

open Std Canister

variable {signature : Signature} {sweep : Sweep}

section Outcomes

variable [SolanaSdk]

/-! ## Sweeps in flight -/

/-- The sweep was submitted and is neither dropped nor settled. -/
def Deposits.InFlight (deposits : Deposits) (signature : Signature) (sweep : Sweep) : Prop :=
  deposits.swept.bySignature[signature]? = some sweep ∨
    deposits.finalized.bySignature[signature]? = some sweep

/-- A sweep comes into flight when it is submitted, with the main address as its destination. -/
theorem State.Effect.inFlight {state state' : State} {timestamp : Timestamp} {payload : EventType}
    (heffect : state.Effect timestamp payload state') (h : state'.deposits.InFlight signature sweep) :
    state.deposits.InFlight signature sweep ∨
      ∃ key, state.minterPublicKey = some key ∧ sweep.minterAddress = minterAddress key := by
  cases heffect with
  | sweptDeposits _ _ _ hkey hsweep =>
      obtain ⟨taken, planned, -, -, -, hplan, -, -, rfl⟩ := Deposits.sweep_eq_ok hsweep
      rcases h with hswept | hfinalized
      · rw [OrdMap.getElem?_insert_eq] at hswept
        split at hswept
        · obtain rfl := Option.some.inj hswept
          obtain ⟨-, -, -, -, -, -, hminterAddress, -⟩ := Sweep.plan_eq_ok hplan
          exact .inr ⟨_, hkey, hminterAddress⟩
        · exact .inl (.inl hswept)
      · exact .inl (.inr hfinalized)
  | succeededSweep _ _ _ hfinalize =>
      obtain ⟨moved, hmoved, -, rfl⟩ := Deposits.finalizeSwept_eq_ok hfinalize
      rcases h with hswept | hfinalized
      · exact .inl (.inl (OrdMap.getElem?_of_erase hswept))
      · rw [OrdMap.getElem?_insert_eq] at hfinalized
        split at hfinalized
        case isTrue heq => exact .inl (.inl (heq ▸ hmoved.trans hfinalized))
        case isFalse => exact .inl (.inr hfinalized)
  | failedSweep _ _ _ hdrop | expiredSweep _ _ _ hdrop =>
      obtain ⟨_, -, -, rfl⟩ := Deposits.dropSwept_eq_ok hdrop
      exact .inl (h.imp_left OrdMap.getElem?_of_erase)
  | queuedDeposit hqueue =>
      obtain ⟨-, -, _, -, rfl⟩ := Deposits.queue_eq_ok hqueue
      exact .inl h
  | creditedSweep hcredit =>
      obtain ⟨-, -, _, -, rfl⟩ := Deposits.creditSweep_eq_ok hcredit
      exact .inl (h.imp_right OrdMap.getElem?_of_erase)
  | quarantinedSweep hquarantine =>
      obtain ⟨_, -, rfl⟩ := Deposits.quarantineSweep_eq_ok hquarantine
      exact .inl (h.imp_right OrdMap.getElem?_of_erase)
  | minted hmint =>
      obtain ⟨_, -, -, rfl⟩ := Deposits.mint_eq_ok hmint
      exact .inl h
  | quarantinedPendingMint hquarantine =>
      obtain ⟨_, -, rfl⟩ := Deposits.quarantinePendingMint_eq_ok hquarantine
      exact .inl h
  | _ => exact .inl h

/-- Sweeps in flight pay to the main address. -/
def State.SweepsToMain (state : State) : Prop :=
  ∀ signature sweep, state.deposits.InFlight signature sweep →
    ∃ key, state.minterPublicKey = some key ∧ sweep.minterAddress = minterAddress key

theorem Canister.sweepsToMain_of_run {Emits : State → Timestamp → EventType → Prop}
    {canister canister' : Canister} (hrun : Run Emits canister canister')
    (h : canister.state.SweepsToMain) : canister'.state.SweepsToMain := by
  refine hrun.invariant (fun reached => reached.state.SweepsToMain) (fun _ _ h => h) ?_ h
  intro state log now payload state' _ h heffect signature sweep hsweep
  obtain ⟨key, hkey, hminter⟩ := (heffect.inFlight hsweep).elim (h signature sweep) id
  exact ⟨key, State.minterPublicKey_of_effect heffect hkey, hminter⟩

omit [SolanaSdk] in
/-- The deposits of a sweep in flight belong to different accounts. -/
theorem Tracks.id_unique {deposits : Deposits} {view : View} (h : Tracks deposits view)
    (hsweep : deposits.InFlight signature sweep) {id id' : DepositSolId}
    {deposit deposit' : QueuedDeposit} (hid : sweep.deposits[id]? = some deposit)
    (hid' : sweep.deposits[id']? = some deposit')
    (haccount : deposit.account.key = deposit'.account.key) : id = id' := by
  have hreserves {id : DepositSolId} {deposit : QueuedDeposit}
      (hid : sweep.deposits[id]? = some deposit) :
      deposits.inFlightIds[deposit.account.key]? = some id := by
    refine (h.inFlightIds _ _).mpr ?_
    rcases hsweep with hswept | hfinalized
    · rw [View.reserves, (h.swept _ _ _).mp ⟨sweep, hswept, hid⟩]
      rfl
    · rw [View.reserves, (h.finalized _ _ _).mp ⟨sweep, hfinalized, hid⟩]
      rfl
  have hsame := hreserves hid'
  rw [← haccount, hreserves hid] at hsame
  exact Option.some.inj hsame

namespace Config

variable {config : Config} {now : Timestamp}

/-- The derivation of addresses does not collide on the accounts of the queued deposits. -/
def AddressesDiffer (config : Config) : Prop :=
  ∀ key ∈ config.canister.state.minterPublicKey, ∀ entry ∈ queuedDeposits config.canister.log,
    accountAddress key entry.2.account ≠ minterAddress key ∧
    ∀ entry' ∈ queuedDeposits config.canister.log,
      accountAddress key entry.2.account = accountAddress key entry'.2.account →
        entry.2.account.key = entry'.2.account.key

instance (config : Config) : Decidable config.AddressesDiffer :=
  inferInstanceAs (Decidable (∀ key ∈ config.canister.state.minterPublicKey, _))

section Runs

variable {minterId : Principal} {args : InitArgs} {actions : List (Timestamp × Action)}
  (h : runFrom minterId args now actions = some config)
  (hflow : ∀ entry ∈ actions, ∀ deposit, entry.2 ≠ .queueDeposit deposit)
  (hfits : SumsFit config.canister.log)

include h

theorem sweepsToMain_of_run : config.canister.state.SweepsToMain := by
  obtain ⟨-, initial, hinit, hrun⟩ := emits_of_run h
  refine Canister.sweepsToMain_of_run hrun ?_
  obtain ⟨_, pool, -, -, rfl⟩ := Canister.exists_of_init hinit
  rintro signature sweep (hswept | hfinalized)
  · simp [Deposits.default, Sweeps.empty] at hswept
  · simp [Deposits.default, Sweeps.empty] at hfinalized

include hflow hfits

/-- A sweep in flight takes from different addresses and brings in the rent exemption threshold. -/
theorem separates_of_run (haddresses : config.AddressesDiffer)
    (hsweep : config.canister.state.deposits.InFlight signature sweep) :
    ∃ deposits, sweep.Separates deposits sweep.minterAddress := by
  obtain ⟨-, initial, hinit, hrun⟩ := emits_of_run h
  obtain ⟨view, hview⟩ := (DepositHistory.of_init hinit).run hrun
  obtain ⟨key, hkey, hminter⟩ := sweepsToMain_of_run h signature sweep hsweep
  have hderived := derived_of_run h hflow
  have hrecorded : sweep.RecordedIn config.canister.log := hsweep.elim hview.swept hview.finalized
  have hreceived := Sweep.expectedReceived_ge (depositFloor_of_run h hflow).queued hrecorded hfits
  have hbalance := hfits.totalBalance_lt hrecorded
  obtain ⟨deposits, destination, hplan, -, hqueued⟩ := hrecorded
  obtain ⟨payer, payerAmount, hunique, -, -, -, rfl, -⟩ := Sweep.plan_eq_ok hplan
  obtain ⟨hnodup, hget⟩ := Sweep.unique_eq_ok hunique
  have haddress : ∀ entry ∈ deposits, entry.2.address = accountAddress key entry.2.account := by
    intro entry hentry
    obtain ⟨key', hkey', haddress⟩ := (hderived.queued entry (hqueued entry hentry)).derived
    rwa [Option.some.inj (hkey.symm.trans hkey')]
  refine ⟨deposits, hplan, ?_, ?_, hbalance, UInt64.le_iff_toNat_le.mpr hreceived⟩
  · refine List.Nodup.map_on (fun entry hentry entry' hentry' heq => ?_) (List.Nodup.of_map _ hnodup)
    rw [haddress entry hentry, haddress entry' hentry'] at heq
    have haccount := (haddresses key hkey entry (hqueued entry hentry)).2 entry'
      (hqueued entry' hentry') heq
    exact List.inj_on_of_nodup_map hnodup hentry hentry' (hview.tracks.id_unique hsweep
      ((hget _ _).mpr hentry) ((hget _ _).mpr hentry') haccount)
  · intro hmem
    obtain ⟨entry, hentry, heq⟩ := List.mem_map.mp hmem
    rw [haddress entry hentry, hminter] at heq
    exact (haddresses key hkey entry (hqueued entry hentry)).1 heq

/-- Every deposit of a sweep in flight pays its share of the fee. -/
theorem exists_mints_of_run (hsweep : config.canister.state.deposits.InFlight signature sweep) :
    ∃ mints, sweep.mints = .ok mints := by
  obtain ⟨-, initial, hinit, hrun⟩ := emits_of_run h
  obtain ⟨view, hview⟩ := (DepositHistory.of_init hinit).run hrun
  have hrecorded : sweep.RecordedIn config.canister.log := hsweep.elim hview.swept hview.finalized
  have hbalance := hfits.totalBalance_lt hrecorded
  obtain ⟨deposits, destination, hplan, -, hqueued⟩ := hrecorded
  obtain ⟨payer, payerAmount, hunique, -⟩ := Sweep.plan_eq_ok hplan
  refine Sweep.exists_mints fun entry hentry => ?_
  have hmem := hqueued entry
    (((Sweep.unique_eq_ok hunique).2 _ _).mp (OrdMap.mem_toList_iff.mp hentry))
  have habove := (depositFloor_of_run h hflow).queued entry hmem
  have hsweepable : entry.2.sweepableAmount.toNat + rentExemptionThreshold.toNat =
      entry.2.balance.lamports.toNat := entry.2.balance.toNat_sweepableAmount
  have hfree : entry.2.fee = 0 := by
    rw [QueuedDeposit.fee, (derived_of_run h hflow).free entry hmem]
    rfl
  rw [Sweep.toNat_feeShare hplan hbalance, hfree]
  rw [minimumSweptBalance] at habove
  have hzero : (0 : Lamport).toNat = 0 := rfl
  omega

end Runs

/-! ## Outcomes -/

/-- Sweeps in flight mint for all of their deposits and succeed when a block includes them. A round that
fetches what was executed credits the planned amounts and mints, and quarantines nothing. -/
structure SweepsSettle [SolanaRuntime] (config : Config) : Prop where
  mints : ∀ signature sweep, config.canister.state.deposits.InFlight signature sweep →
    ∃ mints, sweep.mints = .ok mints
  executes : ∀ signature sweep, config.canister.state.deposits.InFlight signature sweep →
    ∀ bank blockhash next, sweep.IncludedBy bank blockhash next →
      ∃ after, SolanaRuntime.execute bank (sweep.sweepMessage blockhash) next = some (after, true) ∧
        sweep.Collected bank after
  credits : ∀ sweeps, config.finalization = some (.crediting sweeps) → ∀ replies,
    (∀ entry ∈ sweeps.zip replies, ∀ fetched ∈ entry.2, entry.1.2.FetchedFor fetched) →
    (∀ payload, payload ∈ creditEvents sweeps replies ↔
      ∃ entry ∈ sweeps.zip replies, ∃ mints, entry.2.isSome ∧ entry.1.2.mints = .ok mints ∧
        payload = .creditedSweep entry.1.1 entry.1.2.expectedReceived mints) ∧
    ∀ t, ∃ canister', config.canister.processEvents (creditEvents sweeps replies) t = .ok canister'

/-- In every run whose deposits are queued by `deposit_sol` at addresses that differ, sweeps settle. -/
theorem sweepsSettle_of_run [SolanaSdk.Lawful] [SolanaSdk.LawfulLayout] [SolanaRuntime]
    [SolanaRuntime.Lawful] {minterId : Principal} {args : InitArgs}
    {actions : List (Timestamp × Action)} (h : runFrom minterId args now actions = some config)
    (hflow : ∀ entry ∈ actions, ∀ deposit, entry.2 ≠ .queueDeposit deposit)
    (hfits : SumsFit config.canister.log) (haddresses : config.AddressesDiffer) :
    config.SweepsSettle := by
  constructor
  case mints => exact fun signature sweep hsweep => exists_mints_of_run h hflow hfits hsweep
  case executes =>
    intro signature sweep hsweep bank blockhash next hincluded
    obtain ⟨deposits, hseparates⟩ := separates_of_run h hflow hfits haddresses hsweep
    exact hseparates.exists_execute hincluded
  case credits =>
    intro sweeps hround replies hreplies
    refine ⟨fun payload => ?_, (finalizationSafe_of_run h).credits hfits sweeps hround replies⟩
    have hcredit : ∀ entry ∈ sweeps.zip replies, ∀ fetched ∈ entry.2, ∃ mints,
        entry.1.2.mints = .ok mints ∧ creditEvent entry.1.1 entry.1.2 entry.2 =
          some (.creditedSweep entry.1.1 entry.1.2.expectedReceived mints) := by
      intro entry hentry fetched hfetched
      have hsweep := (finalizationCurrent_of_run h _ hround).finalized _ (List.of_mem_zip hentry).1
      obtain ⟨deposits, hseparates⟩ := separates_of_run h hflow hfits haddresses (.inr hsweep)
      obtain ⟨mints, hmints⟩ := exists_mints_of_run h hflow hfits (.inr hsweep)
      have hsettle := hseparates.settle_of_fetchedFor (hreplies entry hentry fetched hfetched) hmints
      refine ⟨mints, hmints, ?_⟩
      rw [Option.mem_def.mp hfetched, creditEvent, hsettle]
    rw [creditEvents, List.mem_filterMap]
    refine exists_congr fun entry => and_congr_right fun hentry => ?_
    cases hreply : entry.2 with
    | none => simp [creditEvent]
    | some fetched =>
        obtain ⟨mints, hmints, heq⟩ := hcredit entry hentry fetched hreply
        rw [hreply] at heq
        simp [heq, hmints, eq_comm]

end Config

end Outcomes

section Sample

attribute [local instance] Solana.sdk Solana.runtime

/-- The accounts before the sweep of `sampleManualDeposit`. -/
def sampleAccounts : Bank where
  lamports address := if address = sampleDepositAddress then 30_000_000 else 0
  kind _ := .wallet
  recentBlockhashes := [100]

def sampleContent : TransferMessage where
  payer := sampleDepositAddress
  nonceAccount := none
  blockhash := 100
  transfers := [⟨sampleDepositAddress, Solana.productionKey, 29_104_120⟩]

/-- A round is about to credit the sweep of a deposit, which a block could include. -/
theorem Config.sweepsSettle_sampleManualDeposit :
    ∃ config sweep, runFrom sampleMinterId sampleInitArgs 0 (sampleManualDeposit.take 12) =
        some config ∧
      config.finalization.any (· matches .crediting [_]) ∧
      config.canister.state.deposits.finalized.bySignature[(5 : Signature)]? = some sweep ∧
      sweep.IncludedBy sampleAccounts 100 101 ∧ config.SweepsSettle := by
  obtain ⟨config, hconfig, ⟨hfits, haddresses⟩, hround, sweep, hsweep, hcontent, hminter, hvalues⟩ :
      ∃ config, runFrom sampleMinterId sampleInitArgs 0 (sampleManualDeposit.take 12) = some config ∧
        (SumsFit config.canister.log ∧ config.AddressesDiffer) ∧
        config.finalization.any (· matches .crediting [_]) ∧
        ∃ sweep ∈ config.canister.state.deposits.finalized.bySignature[(5 : Signature)]?,
          sweep.content 100 = some sampleContent ∧ sweep.minterAddress = Solana.productionKey ∧
          sweep.deposits.values = [⟨sampleAccount, sampleDepositAddress, .sample, none⟩] :=
    exists_of_any (by decide +kernel)
  have := Solana.lawful_sdk
  have := Solana.lawfulLayout_sdk
  have := Solana.lawful_runtime
  refine ⟨config, sweep, hconfig, hround, hsweep, ⟨?_, ?_, ?_⟩,
    sweepsSettle_of_run hconfig (by simp [sampleManualDeposit]) hfits haddresses⟩
  · intro content hmem
    obtain rfl := Option.some.inj (hcontent.symm.trans hmem)
    refine ⟨by decide +kernel, ⟨rfl, by decide +kernel⟩, by decide +kernel, fun _ => by decide, ?_⟩
    rintro account ⟨⟩
  · intro deposit hdeposit
    rw [hvalues, List.mem_singleton] at hdeposit
    subst hdeposit
    exact ⟨⟨rfl, by decide +kernel⟩, by decide +kernel⟩
  · rw [hminter]
    exact ⟨rfl, by decide +kernel⟩

end Sample

end Cksol
