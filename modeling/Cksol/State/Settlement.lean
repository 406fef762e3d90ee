import Cksol.State.Sweeps

/-! # The amounts of a sweep

A plan splits the sweepable amounts of its deposits into what the minter receives and one signature
fee per deposit; a settlement splits what the minter receives into mints and recorded deposit fees.
Both splits are exact while the balances of the deposits fit a `u64` together.
-/

namespace Cksol

open Std

namespace Sweep

variable {mints : List CreditedDeposit}

/-- What the deposit addresses of a sweep hold together. -/
def totalBalance (sweep : Sweep) : ℕ :=
  sweep.deposits.sumBy fun deposit => deposit.balance.lamports.toNat

/-- What the deposits of a sweep hold above the rent exemption threshold. -/
def totalSweepable (sweep : Sweep) : ℕ :=
  sweep.deposits.sumBy fun deposit => deposit.sweepableAmount.toNat

def totalDepositFees (sweep : Sweep) : ℕ :=
  sweep.deposits.sumBy fun deposit => deposit.fee.toNat

variable {sweep : Sweep}

theorem length_toList_deposits (sweep : Sweep) : sweep.deposits.toList.length = sweep.depositCount := by
  rw [depositCount, ExtTreeMap.length_toList]

/-- Every deposit address keeps the rent exemption threshold. -/
theorem totalBalance_eq (sweep : Sweep) :
    sweep.totalBalance = sweep.totalSweepable + rentExemptionThreshold.toNat * sweep.depositCount := by
  rw [← length_toList_deposits, totalBalance, totalSweepable, OrdMap.sumBy, OrdMap.sumBy]
  induction sweep.deposits.toList with
  | nil => rfl
  | cons entry entries ih =>
      have hentry := entry.2.balance.toNat_sweepableAmount
      simp only [List.map_cons, List.sum_cons, List.length_cons, ih, QueuedDeposit.sweepableAmount,
        Nat.mul_succ]
      omega

/-- The fees are added as `u64`s that wrap. -/
theorem toNat_depositFees (sweep : Sweep) :
    sweep.depositFees.toNat = sweep.totalDepositFees % 2 ^ 64 := by
  rw [depositFees, toNat_sum_mod, List.map_map]
  rfl

/-! ## Plans -/

theorem mem_of_maxByPayerKey {entries : List (DepositSolId × QueuedDeposit)}
    {payer : DepositSolId × QueuedDeposit} (h : maxByPayerKey entries = some payer) :
    payer ∈ entries := by
  cases entries with
  | nil => cases h
  | cons first rest =>
      obtain rfl := Option.some.inj h
      -- the best entry so far is the first one or one of those already passed
      suffices key : ∀ best, rest.foldl (fun best next => if payerKeyLe best next then next else best)
          best ∈ best :: rest from key first
      clear h
      induction rest with
      | nil => exact fun best => List.mem_cons_self
      | cons next rest ih =>
          intro best
          rw [List.foldl_cons]
          rcases List.mem_cons.mp (ih (if payerKeyLe best next then next else best)) with hbest | hrest
          · rw [hbest]
            split
            · exact List.mem_cons_of_mem _ List.mem_cons_self
            · exact List.mem_cons_self
          · exact List.mem_cons_of_mem _ (List.mem_cons_of_mem _ hrest)

/-- The entries of a map, one of them first. -/
theorem toList_perm_cons {deposits : OrdMap DepositSolId QueuedDeposit}
    {entry : DepositSolId × QueuedDeposit} (h : entry ∈ deposits.toList) :
    deposits.toList.Perm (entry :: deposits.toList.filter (·.1 ≠ entry.1)) := by
  have hnodup := OrdMap.nodup_toList deposits
  have hentry := OrdMap.mem_toList_iff.mp h
  refine (List.perm_ext_iff_of_nodup hnodup ?_).mpr ?_
  · refine List.nodup_cons.mpr ⟨?_, hnodup.filter _⟩
    simp
  · rintro ⟨id, deposit⟩
    rw [List.mem_cons, List.mem_filter, decide_eq_true_eq]
    constructor
    · intro hmem
      by_cases heq : id = entry.1
      · subst heq
        rw [OrdMap.mem_toList_iff, hentry] at hmem
        exact .inl (Prod.ext rfl (Option.some.inj hmem).symm)
      · exact .inr ⟨hmem, heq⟩
    · rintro (rfl | ⟨hmem, -⟩)
      · exact h
      · exact hmem

/-- The transfers of a plan move what is sweepable, up to the fee. -/
theorem sum_transfers_of_plan {deposits : List (DepositSolId × QueuedDeposit)}
    {minterAddress : Address} (h : plan deposits minterAddress = .ok sweep) :
    ((sweep.transfers.map Transfer.amount).map UInt64.toNat).sum + sweep.fee.toNat =
      sweep.totalSweepable := by
  obtain ⟨payer, payerAmount, -, hpayer, -, -, -, hamount, htransfers, -⟩ := plan_eq_ok h
  have hperm := toList_perm_cons (mem_of_maxByPayerKey hpayer)
  have hsort := List.perm_insertionSort transferKeyLe
    (sweep.deposits.toList.filter (·.1 ≠ payer.1))
  rw [totalSweepable, OrdMap.sumBy, (hperm.map _).sum_eq, List.map_cons, List.sum_cons,
    ← (hsort.map _).sum_eq, htransfers, ← checkedSub_eq_some.mp hamount]
  simp only [List.map_cons, List.map_map, List.sum_cons, Function.comp_def]
  omega

theorem depositCount_pos {deposits : List (DepositSolId × QueuedDeposit)} {minterAddress : Address}
    (h : plan deposits minterAddress = .ok sweep) : 0 < sweep.depositCount := by
  obtain ⟨payer, payerAmount, -, hpayer, -⟩ := plan_eq_ok h
  rw [← length_toList_deposits]
  exact List.length_pos_of_mem (mem_of_maxByPayerKey hpayer)

section Fits

variable {deposits : List (DepositSolId × QueuedDeposit)} {minterAddress : Address}

/-- One signature fee per deposit. -/
theorem toNat_fee_of_lt (h : plan deposits minterAddress = .ok sweep)
    (hlt : feePerSignature.toNat * sweep.depositCount < 2 ^ 64) :
    sweep.fee.toNat = feePerSignature.toNat * sweep.depositCount := by
  obtain ⟨payer, payerAmount, -, -, -, hfee, -⟩ := plan_eq_ok h
  have hcount : sweep.deposits.size = sweep.depositCount := rfl
  rw [toNat_feePerSignature] at hlt ⊢
  rw [hfee, UInt64.toNat_mul, UInt64.toNat_ofNat', toNat_feePerSignature, hcount]
  omega

/-- The fee is shared without a remainder. -/
theorem toNat_feeShare_of_lt (h : plan deposits minterAddress = .ok sweep)
    (hlt : feePerSignature.toNat * sweep.depositCount < 2 ^ 64) :
    sweep.feeShare.toNat = feePerSignature.toNat := by
  have hfee := toNat_fee_of_lt h hlt
  have hpos := depositCount_pos h
  have hcount : (UInt64.ofNat sweep.depositCount).toNat = sweep.depositCount := by
    rw [toNat_feePerSignature] at hlt
    rw [UInt64.toNat_ofNat']
    omega
  have hrem : sweep.fee % UInt64.ofNat sweep.depositCount = 0 := by
    rw [← UInt64.toNat_inj, UInt64.toNat_mod, hfee, hcount, Nat.mul_mod_left]
    rfl
  rw [feeShare, divCeil, if_pos hrem, UInt64.toNat_div, hfee, hcount, Nat.mul_div_cancel _ hpos]

/-- The balances of the deposits bound the fee. -/
theorem fee_lt (sweep : Sweep) (hfits : sweep.totalBalance < 2 ^ 64) :
    feePerSignature.toNat * sweep.depositCount < 2 ^ 64 := by
  have hbalance := sweep.totalBalance_eq
  rw [toNat_rentExemptionThreshold] at hbalance
  rw [toNat_feePerSignature]
  omega

theorem toNat_fee (h : plan deposits minterAddress = .ok sweep) (hfits : sweep.totalBalance < 2 ^ 64) :
    sweep.fee.toNat = feePerSignature.toNat * sweep.depositCount :=
  toNat_fee_of_lt h (sweep.fee_lt hfits)

theorem toNat_feeShare (h : plan deposits minterAddress = .ok sweep)
    (hfits : sweep.totalBalance < 2 ^ 64) : sweep.feeShare.toNat = feePerSignature.toNat :=
  toNat_feeShare_of_lt h (sweep.fee_lt hfits)

theorem toNat_expectedReceived (h : plan deposits minterAddress = .ok sweep)
    (hfits : sweep.totalBalance < 2 ^ 64) :
    sweep.expectedReceived.toNat + feePerSignature.toNat * sweep.depositCount =
      sweep.totalSweepable := by
  have hsum := sum_transfers_of_plan h
  have hfee := toNat_fee h hfits
  have hbalance := sweep.totalBalance_eq
  obtain ⟨payer, payerAmount, -, -, -, -, -, -, -, hexpected⟩ := plan_eq_ok h
  rw [hexpected, toNat_sum_of_lt (by omega)]
  omega

end Fits

/-! ## Settlements -/

/-- The mints leave the fee share and the recorded fee of every deposit. -/
theorem sum_mints (h : sweep.mints = .ok mints) :
    (mints.map (·.amountToMint.toNat)).sum + sweep.totalDepositFees +
      sweep.feeShare.toNat * sweep.depositCount = sweep.totalSweepable := by
  rw [← length_toList_deposits, totalDepositFees, totalSweepable, OrdMap.sumBy, OrdMap.sumBy]
  have hall := forall₂_of_mapM_eq_ok h
  clear h
  generalize sweep.deposits.toList = entries at hall ⊢
  induction hall with
  | nil => rfl
  | @cons entry mint entries mints hmint _ ih =>
      simp only [bind_eq_ok, orPanic_eq_ok, Option.bind_eq_some_iff, pure_eq_ok] at hmint
      obtain ⟨amount, ⟨rest, hshare, hfee⟩, rfl⟩ := hmint
      rw [checkedSub_eq_some] at hshare hfee
      simp only [List.map_cons, List.sum_cons, List.length_cons, Nat.mul_succ]
      omega

/-- A mint is the sweepable amount of its deposit minus the fee share and the recorded fee. -/
theorem amountToMint_of_mints (h : sweep.mints = .ok mints) {mint : CreditedDeposit}
    (hmint : mint ∈ mints) :
    ∃ deposit, sweep.deposits[mint.depositId]? = some deposit ∧
      mint.amountToMint.toNat + sweep.feeShare.toNat + deposit.fee.toNat =
        deposit.sweepableAmount.toNat := by
  obtain ⟨entry, hentry, hmint⟩ := mem_of_mapM_eq_ok h hmint
  simp only [bind_eq_ok, orPanic_eq_ok, Option.bind_eq_some_iff, pure_eq_ok] at hmint
  obtain ⟨amount, ⟨rest, hshare, hfee⟩, rfl⟩ := hmint
  rw [checkedSub_eq_some] at hshare hfee
  refine ⟨entry.2, OrdMap.mem_toList_iff.mp hentry, ?_⟩
  dsimp only
  omega

/-- The mints succeed when every sweepable amount covers the fees. -/
theorem exists_mints (h : ∀ entry ∈ sweep.deposits.toList,
    sweep.feeShare.toNat + entry.2.fee.toNat ≤ entry.2.sweepableAmount.toNat) :
    ∃ mints, sweep.mints = .ok mints := by
  refine exists_mapM_eq_ok fun entry hentry => ?_
  have hle := h entry hentry
  have hshare : checkedSub entry.2.sweepableAmount sweep.feeShare =
      some (entry.2.sweepableAmount - sweep.feeShare) :=
    if_pos (UInt64.le_iff_toNat_le.mpr (by omega))
  have hrest := checkedSub_eq_some.mp hshare
  have hfee : checkedSub (entry.2.sweepableAmount - sweep.feeShare) entry.2.fee =
      some (entry.2.sweepableAmount - sweep.feeShare - entry.2.fee) :=
    if_pos (UInt64.le_iff_toNat_le.mpr (by omega))
  simp only [bind_eq_ok, orPanic_eq_ok, Option.bind_eq_some_iff, pure_eq_ok]
  exact ⟨_, _, ⟨_, hshare, hfee⟩, rfl⟩

/-- The mints are for the deposits of the sweep in id order, each within its sweepable amount. -/
theorem mints_eq_ok (h : sweep.mints = .ok mints) :
    mints.map CreditedDeposit.depositId = sweep.deposits.keys ∧
      ∀ mint ∈ mints, ∃ deposit, sweep.deposits[mint.depositId]? = some deposit ∧
        mint.amountToMint ≤ deposit.sweepableAmount := by
  constructor
  · rw [← ExtTreeMap.map_fst_toList_eq_keys]
    have hall := forall₂_of_mapM_eq_ok h
    clear h
    generalize sweep.deposits.toList = entries at hall ⊢
    induction hall with
    | nil => rfl
    | cons hmint _ ih =>
        simp only [bind_eq_ok, pure_eq_ok] at hmint
        obtain ⟨amount, -, rfl⟩ := hmint
        rw [List.map_cons, List.map_cons, ih]
  · intro mint hmint
    obtain ⟨deposit, hdeposit, hamount⟩ := amountToMint_of_mints h hmint
    exact ⟨deposit, hdeposit, UInt64.le_iff_toNat_le.mpr (by omega)⟩

/-- A settled sweep succeeded with the planned message, received what its plan expected, and mints what
the plan prescribes. -/
theorem settle_eq_ok [SolanaSdk] {fetched : FetchedTransaction} {settled : Settled}
    (h : sweep.settle fetched = .ok settled) :
    settled.amountReceived = sweep.expectedReceived ∧ sweep.mints = .ok settled.mints ∧
      ∃ message, fetched.message = .legacy message ∧
        message = sweep.sweepMessage message.recentBlockhash ∧
        ∃ status, fetched.status = some status ∧ status.err = none := by
  simp only [settle, bind_eq_ok, orPanic_eq_ok] at h
  obtain ⟨status, hstatus, h⟩ := h
  split at h
  · cases h
  case h_2 herr =>
    split at h
    · cases h
    case h_2 message hmessage =>
      simp only [bind_eq_ok, check_eq_ok, mapError_eq_ok, settleBalances, orPanic_eq_ok,
        pure_eq_ok] at h
      obtain ⟨⟨⟩, hbuilt, ⟨⟩, -, ⟨⟩, -, ⟨⟩, -, balances, -, amountReceived, -, ⟨⟩, hreceived, mints,
        hmints, rfl⟩ := h
      have hsucceeded := Option.eq_none_iff_forall_ne_some.mpr herr
      exact ⟨hreceived, hmints, message, hmessage, hbuilt, status, hstatus, hsucceeded⟩

end Sweep

end Cksol
