import Cksol.Solana.Compile
import Cksol.State.Effects
import Cksol.State.Settlement

/-! # Overflow of a credit

The credit of a sweep is guarded by one checked addition. The two sums that it adds, and the balance and
the collected fees that the credit is added to, are `u64`s that wrap; the guard compares natural numbers,
and the credit is exact, when these do not.
-/

namespace Cksol

open Std

/-- The sum of the mints of a credit. -/
def totalToMint (mints : List CreditedDeposit) : ℕ :=
  (mints.map (·.amountToMint.toNat)).sum

theorem toNat_sum_amountToMint (mints : List CreditedDeposit) :
    (mints.map CreditedDeposit.amountToMint).sum.toNat = totalToMint mints % 2 ^ 64 := by
  rw [toNat_sum_mod, List.map_map]
  rfl

namespace State

/-- What a credit does over the natural numbers: the received lamports cover the mints and the fees, and
are booked together with the fees. -/
structure CreditedExactly (state state' : State) (sweep : Sweep) (amountReceived : Lamport)
    (mints : List CreditedDeposit) : Prop where
  covered : totalToMint mints + sweep.totalDepositFees ≤ amountReceived.toNat
  balance : state'.balance.toNat = state.balance.toNat + amountReceived.toNat
  fees : state'.collectedAutomaticDepositFees.toNat =
    state.collectedAutomaticDepositFees.toNat + sweep.totalDepositFees

/-- None of the unchecked additions of a credit wraps. -/
structure CreditFits (state : State) (sweep : Sweep) (amountReceived : Lamport)
    (mints : List CreditedDeposit) : Prop where
  mints : totalToMint mints < 2 ^ 64
  balance : state.balance.toNat + amountReceived.toNat < 2 ^ 64
  fees : state.collectedAutomaticDepositFees.toNat + sweep.totalDepositFees < 2 ^ 64

instance (state : State) (sweep : Sweep) (amountReceived : Lamport) (mints : List CreditedDeposit) :
    Decidable (state.CreditFits sweep amountReceived mints) :=
  decidable_of_iff (totalToMint mints < 2 ^ 64 ∧
      state.balance.toNat + amountReceived.toNat < 2 ^ 64 ∧
      state.collectedAutomaticDepositFees.toNat + sweep.totalDepositFees < 2 ^ 64)
    ⟨fun h => ⟨h.1, h.2.1, h.2.2⟩, fun h => ⟨h.mints, h.balance, h.fees⟩⟩

variable {state state' : State} {signature : Signature} {amountReceived : Lamport}
  {mints : List CreditedDeposit} {timestamp : Timestamp} {sweep : Sweep}

/-- What a credit without a panic has checked and booked, in the arithmetic of `u64`. -/
theorem processCreditedSweep_eq_ok
    (hsweep : state.deposits.finalized.get signature = some sweep)
    (h : state.processCreditedSweep signature amountReceived mints timestamp = .ok state') :
    totalToMint mints % 2 ^ 64 + sweep.totalDepositFees % 2 ^ 64 ≤ amountReceived.toNat ∧
      state'.balance = state.balance + amountReceived ∧
      state'.collectedAutomaticDepositFees =
        state.collectedAutomaticDepositFees + sweep.depositFees := by
  simp only [processCreditedSweep, bind_eq_ok, check_eq_ok, pure_eq_ok, Option.any_eq_true,
    decide_eq_true_eq] at h
  obtain ⟨⟨deposits, credited⟩, hcredit, ⟨⟩, ⟨covered, hcovered, hreceived⟩, rfl⟩ := h
  obtain ⟨hcredited, -⟩ := Deposits.creditSweep_eq_ok hcredit
  obtain rfl : sweep = credited := Option.some.inj (hsweep.symm.trans hcredited)
  refine ⟨?_, rfl, rfl⟩
  rw [← toNat_sum_amountToMint, ← Sweep.toNat_depositFees, ← checkedAdd_eq_some.mp hcovered]
  exact UInt64.le_iff_toNat_le.mp hreceived

/-- A credit that does not panic is exact over the natural numbers exactly when none of its unchecked
additions wraps. -/
theorem creditedExactly_iff (hsweep : state.deposits.finalized.get signature = some sweep)
    (h : state.processCreditedSweep signature amountReceived mints timestamp = .ok state') :
    state.CreditedExactly state' sweep amountReceived mints ↔
      state.CreditFits sweep amountReceived mints := by
  obtain ⟨hcovered, hbalance, hfees⟩ := processCreditedSweep_eq_ok hsweep h
  have hreceived := amountReceived.toNat_lt
  constructor
  · intro hexact
    -- what is booked exactly is the value of a `u64`
    have hbooked := state'.balance.toNat_lt
    have hcollected := state'.collectedAutomaticDepositFees.toNat_lt
    rw [hexact.balance] at hbooked
    rw [hexact.fees] at hcollected
    have hmints := hexact.covered
    exact ⟨by omega, hbooked, hcollected⟩
  · intro hfits
    have hfeesFit : sweep.totalDepositFees < 2 ^ 64 :=
      Nat.lt_of_le_of_lt (Nat.le_add_left _ _) hfits.fees
    rw [Nat.mod_eq_of_lt hfits.mints, Nat.mod_eq_of_lt hfeesFit] at hcovered
    have hsum : sweep.depositFees.toNat = sweep.totalDepositFees := by
      rw [Sweep.toNat_depositFees, Nat.mod_eq_of_lt hfeesFit]
    refine ⟨hcovered, ?_, ?_⟩
    · rw [hbalance, toNat_add_of_lt hfits.balance]
    · rw [hfees, toNat_add_of_lt (by rw [hsum]; exact hfits.fees), hsum]

section Sample

attribute [local instance] Solana.sdk

/-- Two deposits of the same balance, the second with a fee, are swept and the sweep succeeds. -/
def sampleSweep (balance : DepositBalance) : List Event :=
  let amount := balance.sweepableAmount
  let message := SolanaSdk.newWithBlockhash
    [SolanaSdk.transfer 11 7 (amount - 10_000), SolanaSdk.transfer 12 7 amount] (some 11) 9
  [⟨0, .init sampleInitArgs⟩, ⟨1, .minterPublicKeyFetched ⟨7, 8⟩⟩,
    ⟨2, .queuedDeposit 0 ⟨⟨.single 8, none⟩, 11, balance, none⟩⟩,
    ⟨3, .queuedDeposit 1 ⟨⟨.single 9, none⟩, 12, balance, some 1_000⟩⟩,
    ⟨4, .submittedTransaction 5 message [.account ⟨.single 8, none⟩, .account ⟨.single 9, none⟩]
      (.sweepDeposit [0, 1] 1000)⟩,
    ⟨5, .succeededTransaction 5⟩]

/-- A credit of the sample sweep that does not panic, in a state that passes a test. -/
theorem exists_credit_sampleSweep (balance : DepositBalance) (amountReceived : Lamport)
    (mints : List CreditedDeposit) (test : State → Sweep → Bool)
    (h : ((replayEvents (sampleSweep balance)).toOption.any fun state =>
      (state.deposits.finalized.get 5).any fun sweep =>
        (state.processCreditedSweep 5 amountReceived mints 6).isOk && test state sweep) = true) :
    ∃ state sweep state', replayEvents (sampleSweep balance) = .ok state ∧
      state.deposits.finalized.get 5 = some sweep ∧
      state.processCreditedSweep 5 amountReceived mints 6 = .ok state' ∧ test state sweep = true := by
  obtain ⟨state, hreplay, hstate⟩ := (Option.any_eq_true _ _).mp h
  obtain ⟨sweep, hsweep, hcredit⟩ := (Option.any_eq_true _ _).mp hstate
  obtain ⟨hok, htest⟩ := Bool.and_eq_true_iff.mp hcredit
  obtain ⟨state', hstate'⟩ := exists_eq_ok_of_isOk hok
  exact ⟨state, sweep, state', toOption_eq_some.mp hreplay, hsweep, hstate', htest⟩

/-- The mints and the fee take all that a sweep of two sample balances brings in. -/
theorem creditedExactly_sampleSweep :
    ∃ state sweep state', replayEvents (sampleSweep .sample) = .ok state ∧
      state.processCreditedSweep 5 58_208_240 [⟨0, 29_104_120⟩, ⟨1, 29_103_120⟩] 6 = .ok state' ∧
      state.CreditFits sweep 58_208_240 [⟨0, 29_104_120⟩, ⟨1, 29_103_120⟩] ∧
      state.CreditedExactly state' sweep 58_208_240 [⟨0, 29_104_120⟩, ⟨1, 29_103_120⟩] := by
  obtain ⟨state, sweep, state', hreplay, hsweep, hcredit, hfits⟩ :=
    exists_credit_sampleSweep .sample 58_208_240 [⟨0, 29_104_120⟩, ⟨1, 29_103_120⟩]
      (fun state sweep =>
        decide (state.CreditFits sweep 58_208_240 [⟨0, 29_104_120⟩, ⟨1, 29_103_120⟩]))
      (by decide +kernel)
  have hfits := of_decide_eq_true hfits
  exact ⟨state, sweep, state', hreplay, hcredit, hfits,
    (creditedExactly_iff hsweep hcredit).mpr hfits⟩

/-- A balance whose sweepable amount is `2 ^ 63` lamports. -/
def largeBalance : DepositBalance := ⟨9_223_372_036_855_666_688, by decide⟩

/-- The mints of two such balances. -/
def largeMints : List CreditedDeposit :=
  [⟨0, 9_223_372_036_854_775_808⟩, ⟨1, 9_223_372_036_854_775_808⟩]

/-- The large mints add up to zero in a `u64`, so the fee is all that a credit of both has to cover. -/
theorem not_creditedExactly_largeMints :
    ∃ state sweep state', replayEvents (sampleSweep largeBalance) = .ok state ∧
      state.deposits.finalized.get 5 = some sweep ∧
      state.processCreditedSweep 5 1_000 largeMints 6 = .ok state' ∧
      ¬ state.CreditedExactly state' sweep 1_000 largeMints := by
  obtain ⟨state, sweep, state', hreplay, hsweep, hcredit, -⟩ :=
    exists_credit_sampleSweep largeBalance 1_000 largeMints (fun _ _ => true) (by decide +kernel)
  refine ⟨state, sweep, state', hreplay, hsweep, hcredit, fun hexact => ?_⟩
  have hmints : totalToMint largeMints = 2 ^ 64 := by decide +kernel
  have hcovered := hexact.covered
  rw [hmints, show (1_000 : Lamport).toNat = 1_000 from rfl] at hcovered
  omega

end Sample

end State

end Cksol
