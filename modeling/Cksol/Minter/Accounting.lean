import Cksol.Minter.Emissions

/-! # The accounts of the minter

What credited sweeps bring in is split into mints and fees; what created withdrawals cost is taken
from the balance. Between the two, the balance covers what the minter owes.
-/

namespace Cksol

open Std Canister

section Accounting

variable [SolanaSdk]

/-- In every run whose credits come from `Sweep::settle`, mints and collected fees are exactly what
the credited sweeps brought in. -/
theorem Canister.mintsConserved_of_run {args : InitArgs} {now : Timestamp}
    {initial canister : Canister} (hinit : Canister.init args now = .ok initial)
    (hrun : Run SettledCredits initial canister) (hfits : SumsFit canister.log) :
    canister.MintsConserved :=
  MintsConserved.run (.of_init hinit) (.of_init hinit) hrun hfits

end Accounting

section Sample

attribute [local instance] Solana.sdk

theorem Canister.mintsConserved_sampleDeposit :
    ∃ initial canister, Canister.init sampleInitArgs 0 = .ok initial ∧
      Run SettledCredits initial canister ∧ SumsFit canister.log ∧
      totalReceived canister.log = 29_104_120 ∧ canister.MintsConserved := by
  obtain ⟨config, hconfig, hfits, hreceived⟩ : ∃ config,
      Config.runFrom sampleMinterId sampleInitArgs 0 sampleDeposit = some config ∧
      SumsFit config.canister.log ∧ totalReceived config.canister.log = 29_104_120 :=
    exists_of_any (by decide +kernel)
  obtain ⟨-, initial, hinit, hrun⟩ := Config.emits_of_run hconfig
  have hsettled := hrun.mono fun _ _ _ hemits => hemits.settled
  exact ⟨initial, config.canister, hinit, hsettled, hfits, hreceived,
    mintsConserved_of_run hinit hsettled hfits⟩

end Sample

/-! ## The balance -/

section Balance

variable [SolanaSdk] {state state' : State} {log : List Event} {timestamp : Timestamp}
  {payload : EventType} {canister canister' : Canister}

/-- A created transaction takes what its batch costs. -/
theorem Emits.balance_of_created {burnIndices : List LedgerBurnIndex} {account : Address} {value : Hash}
    (hemits : Emits state timestamp (.createdWithdrawalTransaction burnIndices account value))
    (hpending : PendingRecorded log state)
    (heffect : state.Effect timestamp (.createdWithdrawalTransaction burnIndices account value)
      state') :
    state'.balance.toNat + (withdrawalRecord log).cost burnIndices = state.balance.toNat := by
  cases heffect with
  | createdWithdrawal haccount hunseen hmoved htotal hbalance hnew =>
      have hfits := (hemits.created rfl).2
      rw [checkedSub_eq_some] at hbalance
      rw [toNat_add_of_lt (by rw [htotal, toNat_batchWithdrawalTxFee]; exact hfits), htotal,
        toNat_batchWithdrawalTxFee] at hbalance
      rw [hpending.cost_eq hmoved.present]
      exact hbalance

/-- An event adds what a sweep brings in, up to an overflow, and takes what a created transaction
costs. -/
theorem Emits.balance (hemits : Emits state timestamp payload) (hpending : PendingRecorded log state)
    (heffect : state.Effect timestamp payload state') :
    state'.balance.toNat + totalDebited (log ++ [⟨timestamp, payload⟩]) ≤
        state.balance.toNat + totalDebited log + payload.amountReceived ∧
      (state.balance.toNat + payload.amountReceived < 2 ^ 64 →
        state'.balance.toNat + totalDebited (log ++ [⟨timestamp, payload⟩]) =
          state.balance.toNat + totalDebited log + payload.amountReceived) := by
  -- every event but two leaves the balance and the debits alone
  have hframe (hbalance : state'.balance = state.balance) (hamount : payload.amountReceived = 0)
      (hcreated : ∀ burnIndices account value,
        payload ≠ .createdWithdrawalTransaction burnIndices account value) :
      state'.balance.toNat + totalDebited (log ++ [⟨timestamp, payload⟩]) =
        state.balance.toNat + totalDebited log + payload.amountReceived := by
    rw [totalDebited, createdDebits_append_of_not hcreated, hbalance, hamount, ← totalDebited]
    rfl
  have heffect' := heffect
  cases heffect with
  | @createdWithdrawal burnIndices account value =>
      have hbalance := hemits.balance_of_created hpending heffect'
      have hdebits : totalDebited (log ++ [⟨timestamp,
          .createdWithdrawalTransaction burnIndices account value⟩]) =
          totalDebited log + (withdrawalRecord log).cost burnIndices := by
        rw [totalDebited, createdDebits_append_created]
        simp [totalDebited]
      have hnothing : (EventType.createdWithdrawalTransaction burnIndices account
        value).amountReceived = 0 := rfl
      rw [hdebits, hnothing]
      dsimp only at hbalance ⊢
      omega
  | @creditedSweep signature amountReceived =>
      have hle := toNat_add_le state.balance amountReceived
      have heq := @toNat_add_of_lt state.balance amountReceived
      rw [totalDebited, createdDebits_append_of_not (by simp), ← totalDebited]
      dsimp only [EventType.amountReceived]
      constructor
      · omega
      · intro hlt
        rw [heq hlt]
        omega
  | _ => exact ⟨(hframe rfl rfl (by simp)).le, fun _ => hframe rfl rfl (by simp)⟩

/-- The balance is at most what sweeps brought in beyond what created transactions cost. -/
def Canister.BalanceBounded (canister : Canister) : Prop :=
  canister.state.balance.toNat + totalDebited canister.log ≤ totalReceived canister.log

/-- The balance is what sweeps brought in minus what created transactions cost. -/
def Canister.BalanceAccounted (canister : Canister) : Prop :=
  canister.state.balance.toNat + totalDebited canister.log = totalReceived canister.log

theorem Canister.BalanceBounded.run (hpending : PendingRecorded canister.log canister.state)
    (h : canister.BalanceBounded) (hrun : Run Emits canister canister') : canister'.BalanceBounded := by
  refine (hrun.invariant (fun canister => PendingRecorded canister.log canister.state ∧
    canister.BalanceBounded) ?_ ?_ ⟨hpending, h⟩).2
  · exact fun canister transient ⟨hpending, h⟩ => ⟨⟨hpending.keyed, hpending.amount⟩, h⟩
  · rintro state log now payload state' hemits ⟨hpending, h⟩ heffect
    refine ⟨hpending.effect heffect, ?_⟩
    have hbalance := (hemits.balance hpending heffect).1
    simp only [BalanceBounded, totalReceived_append, totalReceived_singleton] at *
    omega

theorem Canister.BalanceAccounted.effect (h : BalanceAccounted ⟨state, log⟩)
    (hemits : Emits state timestamp payload) (hpending : PendingRecorded log state)
    (heffect : state.Effect timestamp payload state')
    (hfits : SumsFit (log ++ [⟨timestamp, payload⟩])) :
    BalanceAccounted ⟨state', log ++ [⟨timestamp, payload⟩]⟩ := by
  have hreceived := hfits.received
  simp only [BalanceAccounted, totalReceived_append, totalReceived_singleton] at *
  have hbalance := (hemits.balance hpending heffect).2 (by omega)
  omega

theorem Canister.BalanceAccounted.run (hpending : PendingRecorded canister.log canister.state)
    (h : canister.BalanceAccounted) (hrun : Run Emits canister canister')
    (hfits : SumsFit canister'.log) : canister'.BalanceAccounted := by
  refine (hrun.invariant (fun canister => PendingRecorded canister.log canister.state ∧
    (SumsFit canister.log → canister.BalanceAccounted)) ?_ ?_ ⟨hpending, fun _ => h⟩).2 hfits
  · exact fun canister transient ⟨hpending, h⟩ => ⟨⟨hpending.keyed, hpending.amount⟩, h⟩
  · rintro state log now payload state' hemits ⟨hpending, h⟩ heffect
    exact ⟨hpending.effect heffect, fun hfits =>
      (h hfits.of_append).effect hemits hpending heffect hfits⟩

theorem Canister.BalanceAccounted.of_init {args : InitArgs} {now : Timestamp}
    (h : Canister.init args now = .ok canister) : canister.BalanceAccounted := by
  obtain ⟨_, pool, -, -, rfl⟩ := Canister.exists_of_init h
  simp [BalanceAccounted, totalDebited, createdDebits, withdrawalRecord, WithdrawalRecord.apply,
    WithdrawalRecord.empty, EventType.amountReceived]

end Balance

end Cksol
