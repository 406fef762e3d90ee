import Cksol.Minter.Parameters
import Cksol.State.DepositHistory
import Cksol.State.PlanOrder

/-! # Deposits that the parameters admit

The parameter constraints are checked when the canister is installed and by every upgrade. A deposit
that the parameters in force admit can therefore be swept in any company, and mints a positive amount,
whatever the parameters become later.
-/

namespace Cksol

open Std Canister

/-- The deposit holds the minimum, and is charged nothing or the automatic deposit fee in force. -/
def State.AdmitsDeposit (state : State) (deposit : QueuedDeposit) : Prop :=
  state.minimumDepositAmount ≤ deposit.balance.lamports ∧
    (deposit.depositFee = none ∨ deposit.depositFee = state.automaticDepositFee)

/-- Every deposit is queued under parameters that admit it; all other events are free. -/
def Admitting (state : State) (_ : Timestamp) (payload : EventType) : Prop :=
  ∀ depositId deposit, payload = .queuedDeposit depositId deposit → state.AdmitsDeposit deposit

/-- The deposit covers the fee of a full sweep, brings the rent exemption threshold to the main address
and leaves a lamport to mint. -/
structure QueuedDeposit.Covers (deposit : QueuedDeposit) : Prop where
  sweep : feePerSignature.toNat * maxSignatures ≤ deposit.sweepableAmount.toNat
  rent : rentExemptionThreshold.toNat + feePerSignature.toNat ≤ deposit.sweepableAmount.toNat
  mint : deposit.fee.toNat + feePerSignature.toNat + 1 ≤ deposit.sweepableAmount.toNat

/-- The parameter constraints on the minimum deposit amount and on the automatic deposit fee. -/
theorem State.deposit_of_validate {state : State} (h : state.validate = .ok ⟨⟩) :
    maxSignatures * feePerSignature.toNat + rentExemptionThreshold.toNat ≤
        state.minimumDepositAmount.toNat ∧
      2 * rentExemptionThreshold.toNat + feePerSignature.toNat ≤ state.minimumDepositAmount.toNat ∧
      ∀ fee ∈ state.automaticDepositFee, fee.toNat ≤
        state.minimumDepositAmount.toNat - rentExemptionThreshold.toNat - feePerSignature.toNat - 1 := by
  simp only [validate, bind_eq_ok, check_eq_ok] at h
  obtain ⟨⟨⟩, -, ⟨⟩, -, ⟨⟩, hsweep, ⟨⟩, hrent, ⟨⟩, -, ⟨⟩, -, hfee⟩ := h
  refine ⟨UInt64.le_iff_toNat_le.mp hsweep, UInt64.le_iff_toNat_le.mp hrent, fun fee hmem => ?_⟩
  rw [Option.mem_def] at hmem
  rw [hmem] at hfee
  have hle := UInt64.le_iff_toNat_le.mp (check_eq_ok.mp hfee)
  rw [maxAutomaticDepositFee] at hle
  simp only [toNat_saturatingSub] at hle
  exact hle

theorem State.AdmitsDeposit.covers {state : State} {deposit : QueuedDeposit}
    (h : state.AdmitsDeposit deposit) (hvalid : state.validate = .ok ⟨⟩) : deposit.Covers := by
  obtain ⟨hsweep, hrent, hfee⟩ := deposit_of_validate hvalid
  have hle := UInt64.le_iff_toNat_le.mp h.1
  have hbalance : deposit.sweepableAmount.toNat + rentExemptionThreshold.toNat =
      deposit.balance.lamports.toNat := deposit.balance.toNat_sweepableAmount
  have hcharged : deposit.fee.toNat ≤
      state.minimumDepositAmount.toNat - rentExemptionThreshold.toNat - feePerSignature.toNat - 1 := by
    rw [QueuedDeposit.fee]
    cases hdeposit : deposit.depositFee with
    | none => exact Nat.zero_le _
    | some fee =>
        refine hfee fee ?_
        rcases h.2 with hnone | hsome
        · rw [hnone] at hdeposit
          cases hdeposit
        · exact hsome.symm.trans hdeposit
  have hthreshold := toNat_rentExemptionThreshold
  refine ⟨?_, by omega, by omega⟩
  rw [Nat.mul_comm]
  omega

section Runs

variable [SolanaSdk] {initial canister : Canister} {args : InitArgs} {now : Timestamp}

/-- Every deposit of the log was admitted by valid parameters. -/
theorem Canister.covers_of_run (hinit : Canister.init args now = .ok initial)
    (hrun : Run Admitting initial canister) : canister.state.validate = .ok ⟨⟩ ∧
      ∀ entry ∈ queuedDeposits canister.log, entry.2.Covers := by
  refine hrun.invariant (fun canister => canister.state.validate = .ok ⟨⟩ ∧
    ∀ entry ∈ queuedDeposits canister.log, entry.2.Covers) ?_ ?_ ⟨validate_of_init hinit, ?_⟩
  · exact fun canister transient h => h
  · rintro state log now payload state' hadmitting ⟨hvalid, hcovers⟩ heffect
    refine ⟨heffect.validate hvalid, fun entry hentry => ?_⟩
    rw [queuedDeposits_append, List.mem_append] at hentry
    rcases hentry with hold | hnew
    · exact hcovers entry hold
    · exact (hadmitting _ _ (mem_queuedDeposits_singleton.mp hnew)).covers hvalid
  · obtain ⟨_, pool, -, -, rfl⟩ := Canister.exists_of_init hinit
    simp [queuedDeposits, EventType.queuedEntry]

end Runs

/-! ## Sweeps of admitted deposits -/

/-- The sweep mints for each of the deposits, after 5000 lamports and its recorded fee, and brings the
rent exemption threshold to the main address. -/
structure Sweep.MintsForAll (sweep : Sweep) (deposits : List (DepositSolId × QueuedDeposit))
    (mints : List CreditedDeposit) : Prop where
  mints_eq : sweep.mints = .ok mints
  depositIds : (mints.map CreditedDeposit.depositId).Perm (deposits.map Prod.fst)
  positive : ∀ mint ∈ mints, 1 ≤ mint.amountToMint.toNat
  amount : ∀ mint ∈ mints, ∃ deposit, (mint.depositId, deposit) ∈ deposits ∧
    mint.amountToMint.toNat = deposit.sweepableAmount.toNat - feePerSignature.toNat - deposit.fee.toNat
  received : rentExemptionThreshold ≤ sweep.expectedReceived

/-- Deposits that cover what is taken from them have a plan that mints for all of them. -/
theorem Sweep.mintsForAll_of_covers {deposits : List (DepositSolId × QueuedDeposit)}
    (hcovers : ∀ entry ∈ deposits, entry.2.Covers) (hnodup : (deposits.map Prod.fst).Nodup)
    (hne : deposits ≠ []) (hlength : deposits.length ≤ maxSignatures)
    (hfits : (deposits.map (·.2.sweepableAmount.toNat)).sum < 2 ^ 64) (minterAddress : Address) :
    ∃ sweep mints, plan deposits minterAddress = .ok sweep ∧ sweep.MintsForAll deposits mints := by
  obtain ⟨sweep, hplan⟩ := exists_plan_eq_ok hnodup hne hlength
    (fun entry hentry => (hcovers entry hentry).sweep) minterAddress
  have hcount := depositCount_eq_length hplan
  have hlt : feePerSignature.toNat * sweep.depositCount < 2 ^ 64 := by
    simp only [maxSignatures] at hlength
    rw [toNat_feePerSignature]
    omega
  have hshare := toNat_feeShare_of_lt hplan hlt
  have hisPlan := isPlanOf_of_plan hplan (hcount ▸ hlt) hfits
  obtain ⟨mints, hmints⟩ : ∃ mints, sweep.mints = .ok mints := by
    refine exists_mints fun entry hentry => ?_
    have hmem := (hisPlan.deposits_iff entry.1 entry.2).mp (OrdMap.mem_toList_iff.mp hentry)
    have hmint := (hcovers entry hmem).mint
    omega
  have hamount : ∀ mint ∈ mints, ∃ deposit, (mint.depositId, deposit) ∈ deposits ∧
      mint.amountToMint.toNat + feePerSignature.toNat + deposit.fee.toNat =
        deposit.sweepableAmount.toNat := by
    intro mint hmint
    obtain ⟨deposit, hdeposit, hsum⟩ := amountToMint_of_mints hmints hmint
    exact ⟨deposit, (hisPlan.deposits_iff _ _).mp hdeposit, by omega⟩
  refine ⟨sweep, mints, hplan, hmints, ?_, ?_, ?_, ?_⟩
  · obtain ⟨-, -, hunique, -⟩ := plan_eq_ok hplan
    rw [(mints_eq_ok hmints).1, ← ExtTreeMap.map_fst_toList_eq_keys]
    exact (toList_perm_of_unique hunique).map Prod.fst
  · intro mint hmint
    obtain ⟨deposit, hdeposit, hsum⟩ := hamount mint hmint
    have hleft : deposit.fee.toNat + feePerSignature.toNat + 1 ≤ deposit.sweepableAmount.toNat :=
      (hcovers _ hdeposit).mint
    omega
  · intro mint hmint
    obtain ⟨deposit, hdeposit, hsum⟩ := hamount mint hmint
    exact ⟨deposit, hdeposit, by omega⟩
  · -- every deposit brings the threshold beyond its share of the fee
    have hreceived := hisPlan.received
    have hfee := hisPlan.fee_eq
    have hsum := mul_length_le_sum fun entry hentry => (hcovers entry hentry).rent
    have hpos := List.length_pos_iff.mpr hne
    simp only [toNat_rentExemptionThreshold, toNat_feePerSignature] at hfee hsum
    rw [UInt64.le_iff_toNat_le, toNat_rentExemptionThreshold]
    omega

/-- Deposits admitted along a run can be swept in any groups and mint for all of them. -/
theorem Canister.mintsForAll_of_run [SolanaSdk] {initial canister : Canister} {args : InitArgs}
    {now : Timestamp} (hinit : Canister.init args now = .ok initial)
    (hrun : Run Admitting initial canister) {deposits : List (DepositSolId × QueuedDeposit)}
    (hqueued : ∀ entry ∈ deposits, entry ∈ queuedDeposits canister.log)
    (hnodup : (deposits.map Prod.fst).Nodup) (hne : deposits ≠ [])
    (hlength : deposits.length ≤ maxSignatures)
    (hfits : (deposits.map (·.2.sweepableAmount.toNat)).sum < 2 ^ 64) (minterAddress : Address) :
    ∃ sweep mints, Sweep.plan deposits minterAddress = .ok sweep ∧
      sweep.MintsForAll deposits mints := by
  have hcovers := (covers_of_run hinit hrun).2
  exact Sweep.mintsForAll_of_covers (fun entry hentry => hcovers entry (hqueued entry hentry)) hnodup
    hne hlength hfits minterAddress

section Sample

attribute [local instance] Solana.sdk

/-- A deposit is queued, an upgrade sets other parameters, and another deposit is queued under them. -/
def sampleAdmissions : Except Panic (Canister × Canister × Canister × Canister) := do
  let initial ← Canister.init sampleInitArgs 0
  let first ← initial.processEvent (.queuedDeposit 0
    ⟨⟨.single 9, none⟩, 5, .sampleSmall, none⟩) 1
  let upgraded ← first.processEvent (.upgrade
    { minimumDepositAmount := some 3_000_000, automaticDepositFee := some 1_000 }) 2
  let second ← upgraded.processEvent (.queuedDeposit 1
    ⟨⟨.single 8, none⟩, 6, .sample, some 1_000⟩) 3
  return (initial, first, upgraded, second)

theorem Canister.mintsForAll_sampleAdmissions : ∃ sweep mints,
    Sweep.plan Sweep.sampleDeposits 7 = .ok sweep ∧ sweep.MintsForAll Sweep.sampleDeposits mints := by
  obtain ⟨⟨initial, first, upgraded, second⟩, hcanisters, ⟨hfirst, hsecond, hfee⟩, hqueued⟩ :
      ∃ canisters, sampleAdmissions.toOption = some canisters ∧
        (canisters.1.state.minimumDepositAmount ≤ 2_000_000 ∧
          canisters.2.2.1.state.minimumDepositAmount ≤ 30_000_000 ∧
          canisters.2.2.1.state.automaticDepositFee = some 1_000) ∧
        ∀ entry ∈ Sweep.sampleDeposits, entry ∈ queuedDeposits canisters.2.2.2.log :=
    exists_of_any (by decide +kernel)
  have hok := toOption_eq_some.mp hcanisters
  simp only [sampleAdmissions, bind_eq_ok, pure_eq_ok, Prod.mk.injEq] at hok
  obtain ⟨initial, hinit, first, hevent, upgraded, hupgrade, second, hevent', rfl, rfl, rfl, rfl⟩ := hok
  have hrun : Run Admitting initial second := by
    refine ((Run.event hevent ?_).trans (Run.event hupgrade ?_)).trans (Run.event hevent' ?_)
    · intro depositId deposit heq
      obtain ⟨-, rfl⟩ := EventType.queuedDeposit.inj heq
      exact ⟨hfirst, .inl rfl⟩
    · rintro depositId deposit ⟨⟩
    · intro depositId deposit heq
      obtain ⟨-, rfl⟩ := EventType.queuedDeposit.inj heq
      exact ⟨hsecond, .inr hfee.symm⟩
  exact mintsForAll_of_run hinit hrun hqueued (by decide) (by decide) (by decide) (by decide) 7

end Sample

end Cksol
