import Cksol.State.SweepKeys

/-! # What `settle` accepts

A sweep settles exactly with the outcomes of its own execution: its message at some blockhash, a fee of
at most the planned one, and balances that the execution leads to.
-/

namespace Cksol

open Std

namespace Sweep

/-- The balance that the metadata lists for an address. -/
def reportedBalance (accountKeys : List Address) (balances : List Lamport) (address : Address) : ℕ :=
  ((balances[accountKeys.idxOf address]?).map UInt64.toNat).getD 0

section Settle

variable [SolanaSdk] {sweep : Sweep}

/-- The outcome is a successful one of the planned message, with one balance for every account key. -/
structure Reports (sweep : Sweep) (fetched : FetchedTransaction) (status : TransactionStatusMeta)
    (message : Message) : Prop where
  status_eq : fetched.status = some status
  message_eq : fetched.message = .legacy message
  succeeded : status.err = none
  planned : message = sweep.sweepMessage message.recentBlockhash
  preBalances : status.preBalances.length = message.accountKeys.length
  postBalances : status.postBalances.length = message.accountKeys.length
  fee_le : status.fee ≤ sweep.fee

/-- The balances of the deposit addresses and of the minter address after the transaction are those that
the execution leads to. -/
def ReportsAfter (sweep : Sweep) (status : TransactionStatusMeta) (message : Message)
    (after : Address → ℕ) : Prop :=
  sweep.execute status.fee.toNat (reportedBalance message.accountKeys status.preBalances) =
      some after ∧
    (∀ deposit ∈ sweep.deposits.values, reportedBalance message.accountKeys status.postBalances
      deposit.address = after deposit.address) ∧
    reportedBalance message.accountKeys status.postBalances sweep.minterAddress =
      after sweep.minterAddress

/-! ## The checks -/

theorem settle_eq_ok_iff {fetched : FetchedTransaction} {settled : Settled} :
    sweep.settle fetched = .ok settled ↔ ∃ status message, sweep.Reports fetched status message ∧
      sweep.settleBalances status.fee (balancesByAddress message.accountKeys status) =
        .ok settled := by
  constructor
  · intro h
    simp only [settle, bind_eq_ok, orPanic_eq_ok] at h
    obtain ⟨status, hstatus, h⟩ := h
    split at h
    · cases h
    case h_2 herr =>
      split at h
      · cases h
      case h_2 message hmessage =>
        simp only [bind_eq_ok, check_eq_ok, mapError_eq_ok] at h
        obtain ⟨⟨⟩, hplanned, ⟨⟩, ⟨hpre, hpost⟩, ⟨⟩, hfee, hbalances⟩ := h
        exact ⟨status, message, ⟨hstatus, hmessage, Option.eq_none_iff_forall_ne_some.mpr herr,
          hplanned, hpre, hpost, hfee⟩, hbalances⟩
  · rintro ⟨status, message, ⟨hstatus, hmessage, herr, hplanned, hpre, hpost, hfee⟩, hbalances⟩
    simp only [settle, bind_eq_ok, orPanic_eq_ok]
    refine ⟨status, hstatus, ?_⟩
    rw [herr, hmessage]
    simp only [bind_eq_ok, check_eq_ok, mapError_eq_ok]
    exact ⟨⟨⟩, hplanned, ⟨⟩, ⟨hpre, hpost⟩, ⟨⟩, hfee, hbalances⟩

omit [SolanaSdk] in
theorem checkTransfer_eq_ok_iff {fee : Lamport} {balances : OrdMap Address (Lamport × Lamport)}
    {transfer : Transfer} : sweep.checkTransfer fee balances transfer = .ok ⟨⟩ ↔
      ∃ pre post, balances[transfer.source]? = some (pre, post) ∧
        checkedSub pre post =
          some (transfer.amount + if transfer.depositId = sweep.feePayer then fee else 0) ∧
        rentExemptionThreshold ≤ post := by
  simp only [checkTransfer, bind_eq_ok, orPanic_eq_ok, check_eq_ok, Prod.exists]
  constructor
  · rintro ⟨pre, post, hbalances, ⟨⟩, hdecrease, hrent⟩
    exact ⟨pre, post, hbalances, hdecrease, hrent⟩
  · rintro ⟨pre, post, hbalances, hdecrease, hrent⟩
    exact ⟨pre, post, hbalances, ⟨⟩, hdecrease, hrent⟩

omit [SolanaSdk] in
theorem settleBalances_eq_ok_iff {fee : Lamport} {balances : OrdMap Address (Lamport × Lamport)}
    {settled : Settled} : sweep.settleBalances fee balances = .ok settled ↔
      (∀ transfer ∈ sweep.transfers, sweep.checkTransfer fee balances transfer = .ok ⟨⟩) ∧
        (∃ pre post, balances[sweep.minterAddress]? = some (pre, post) ∧
          checkedSub post pre = some sweep.expectedReceived) ∧
        sweep.mints = .ok settled.mints ∧ settled.amountReceived = sweep.expectedReceived := by
  simp only [settleBalances, bind_eq_ok, orPanic_eq_ok, check_eq_ok, mapError_eq_ok, pure_eq_ok,
    Prod.exists]
  constructor
  · rintro ⟨⟨⟩, htransfers, pre, post, hminter, received, hreceived, ⟨⟩, rfl, mints, hmints, rfl⟩
    exact ⟨forM_eq_ok.mp htransfers, ⟨pre, post, hminter, hreceived⟩, hmints, rfl⟩
  · rintro ⟨htransfers, ⟨pre, post, hminter, hreceived⟩, hmints, hamount⟩
    refine ⟨⟨⟩, forM_eq_ok.mpr htransfers, pre, post, hminter, _, hreceived, ⟨⟩, rfl, _, hmints, ?_⟩
    rw [← hamount]

/-! ## The balances -/

omit [SolanaSdk] in
theorem getElem?_balancesByAddress {accountKeys : List Address} {status : TransactionStatusMeta}
    (hnodup : accountKeys.Nodup) (hpre : status.preBalances.length = accountKeys.length)
    (hpost : status.postBalances.length = accountKeys.length) {address : Address}
    (h : address ∈ accountKeys) :
    ∃ pre post, (balancesByAddress accountKeys status)[address]? = some (pre, post) ∧
      reportedBalance accountKeys status.preBalances address = pre.toNat ∧
      reportedBalance accountKeys status.postBalances address = post.toNat := by
  have hindex := List.idxOf_lt_length_of_mem h
  have hpreIndex : accountKeys.idxOf address < status.preBalances.length := by omega
  have hpostIndex : accountKeys.idxOf address < status.postBalances.length := by omega
  refine ⟨status.preBalances[accountKeys.idxOf address], status.postBalances[accountKeys.idxOf address],
    ?_, ?_, ?_⟩
  · have hzip : accountKeys.length ≤ (status.preBalances.zip status.postBalances).length := by
      rw [List.length_zip]
      omega
    refine OrdMap.getElem?_insertAll_of_mem _ ?_ ?_
    · rwa [List.map_fst_zip hzip]
    · refine List.mem_iff_getElem.mpr ⟨accountKeys.idxOf address, ?_, ?_⟩
      · rw [List.length_zip]
        omega
      · rw [List.getElem_zip, List.getElem_zip, List.getElem_idxOf]
  · rw [reportedBalance, List.getElem?_eq_getElem hpreIndex]
    rfl
  · rw [reportedBalance, List.getElem?_eq_getElem hpostIndex]
    rfl

section Lawful

variable [SolanaSdk.LawfulLayout] {deposits : List (DepositSolId × QueuedDeposit)}
  {minterAddress : Address} {fetched : FetchedTransaction} {status : TransactionStatusMeta}
  {message : Message}

/-- The balances that are reported for an account of the planned message. -/
theorem Reports.exists_balances (h : sweep.Reports fetched status message) {address : Address}
    (hkey : address ∈ (sweep.sweepMessage message.recentBlockhash).accountKeys) :
    ∃ pre post, (balancesByAddress message.accountKeys status)[address]? = some (pre, post) ∧
      reportedBalance message.accountKeys status.preBalances address = pre.toNat ∧
      reportedBalance message.accountKeys status.postBalances address = post.toNat := by
  rw [← h.planned] at hkey
  refine getElem?_balancesByAddress ?_ h.preBalances h.postBalances hkey
  rw [h.planned]
  exact SolanaSdk.LawfulLayout.nodup_accountKeys _ _ _

/-- A transfer passes its check exactly if its source was left rent-exempt with what the execution
leaves. -/
theorem checkTransfer_iff_taken (h : plan deposits minterAddress = .ok sweep)
    (hdistinct : (deposits.map (·.2.address)).Nodup) (hreports : sweep.Reports fetched status message)
    {transfer : Transfer} (hmem : transfer ∈ sweep.transfers) :
    sweep.checkTransfer status.fee (balancesByAddress message.accountKeys status) transfer = .ok ⟨⟩ ↔
      reportedBalance message.accountKeys status.postBalances transfer.source +
          sweep.taken status.fee.toNat transfer.source =
        reportedBalance message.accountKeys status.preBalances transfer.source ∧
      rentExemptionThreshold.toNat ≤
        reportedBalance message.accountKeys status.postBalances transfer.source := by
  obtain ⟨payer, payerAmount, others, hperm, horders⟩ := exists_orders h
  obtain ⟨-, -, hunique, -⟩ := plan_eq_ok h
  have hnodup := (hperm.map Prod.fst).nodup_iff.mpr (unique_eq_ok hunique).1
  obtain ⟨deposit, -, -, hamount⟩ := horders.exists_entry hnodup hmem
  -- the amount and the fee are within the sweepable amount, so that their sum does not wrap
  have hdecrease : (transfer.amount + if transfer.depositId = sweep.feePayer then status.fee
      else 0).toNat = sweep.taken status.fee.toNat transfer.source := by
    have hle := UInt64.le_iff_toNat_le.mp hreports.fee_le
    have hlt := deposit.sweepableAmount.toNat_lt
    rw [taken_source h hdistinct hmem]
    split
    case isTrue hpayer =>
      rw [if_pos hpayer] at hamount
      exact toNat_add_of_lt (by omega)
    case isFalse => rw [UInt64.add_zero, Nat.add_zero]
  obtain ⟨pre, post, hbalances, hpre, hpost⟩ := hreports.exists_balances
    ((mem_accountKeys_sweepMessage (List.ne_nil_of_mem hmem)).mpr (.inl (List.mem_map_of_mem hmem)))
  rw [checkTransfer_eq_ok_iff, hpre, hpost]
  constructor
  · rintro ⟨pre', post', hbalances', hsub, hrent⟩
    rw [hbalances] at hbalances'
    obtain ⟨rfl, rfl⟩ := Prod.mk.inj (Option.some.inj hbalances')
    rw [checkedSub_eq_some, hdecrease] at hsub
    exact ⟨(Nat.add_comm _ _).trans hsub, UInt64.le_iff_toNat_le.mp hrent⟩
  · rintro ⟨htaken, hrent⟩
    refine ⟨pre, post, hbalances, ?_, UInt64.le_iff_toNat_le.mpr hrent⟩
    rw [checkedSub_eq_some, hdecrease]
    exact (Nat.add_comm _ _).trans htaken

/-- The minter address passes its check exactly if it received what the transfers send. -/
theorem received_iff (h : plan deposits minterAddress = .ok sweep)
    (hfits : (sweep.transfers.map (·.amount.toNat)).sum < 2 ^ 64)
    (hreports : sweep.Reports fetched status message) :
    (∃ pre post, (balancesByAddress message.accountKeys status)[sweep.minterAddress]? =
        some (pre, post) ∧ checkedSub post pre = some sweep.expectedReceived) ↔
      reportedBalance message.accountKeys status.postBalances sweep.minterAddress =
        reportedBalance message.accountKeys status.preBalances sweep.minterAddress +
          (sweep.transfers.map (·.amount.toNat)).sum := by
  obtain ⟨transfer, hmem⟩ := List.exists_mem_of_ne_nil _ (transfers_ne_nil h)
  obtain ⟨-, -, -, -, -, -, -, -, -, hexpected⟩ := plan_eq_ok h
  have hsum : sweep.expectedReceived.toNat = (sweep.transfers.map (·.amount.toNat)).sum := by
    rw [hexpected, toNat_sum_of_lt, List.map_map]
    · rfl
    · rwa [List.map_map]
  obtain ⟨pre, post, hbalances, hpre, hpost⟩ := hreports.exists_balances
    ((mem_accountKeys_sweepMessage (List.ne_nil_of_mem hmem)).mpr (.inr (.inl rfl)))
  rw [hpre, hpost, ← hsum]
  constructor
  · rintro ⟨pre', post', hbalances', hsub⟩
    rw [hbalances] at hbalances'
    obtain ⟨rfl, rfl⟩ := Prod.mk.inj (Option.some.inj hbalances')
    rw [checkedSub_eq_some] at hsub
    omega
  · intro hreceived
    refine ⟨pre, post, hbalances, ?_⟩
    rw [checkedSub_eq_some]
    omega

omit [SolanaSdk] [SolanaSdk.LawfulLayout] in
/-- The deposits and the transfers have the same addresses. -/
theorem exists_transfer_of_mem_values (h : plan deposits minterAddress = .ok sweep)
    {deposit : QueuedDeposit} (hmem : deposit ∈ sweep.deposits.values) :
    ∃ transfer ∈ sweep.transfers, transfer.source = deposit.address := by
  obtain ⟨-, -, hunique, -⟩ := plan_eq_ok h
  obtain ⟨depositId, hget⟩ := OrdMap.mem_values_iff.mp hmem
  have hentry := ((unique_eq_ok hunique).2 _ _).mp hget
  exact List.mem_map.mp ((map_source_perm h).symm.subset (List.mem_map_of_mem hentry))

/-- All checks of the balances pass exactly for the balances that the execution leads to. -/
theorem checks_iff (h : plan deposits minterAddress = .ok sweep)
    (hdistinct : (deposits.map (·.2.address)).Nodup)
    (hminter : minterAddress ∉ deposits.map (·.2.address))
    (hfits : (sweep.transfers.map (·.amount.toNat)).sum < 2 ^ 64)
    (hreports : sweep.Reports fetched status message) :
    ((∀ transfer ∈ sweep.transfers, sweep.checkTransfer status.fee
        (balancesByAddress message.accountKeys status) transfer = .ok ⟨⟩) ∧
      ∃ pre post, (balancesByAddress message.accountKeys status)[sweep.minterAddress]? =
        some (pre, post) ∧ checkedSub post pre = some sweep.expectedReceived) ↔
      ∃ after, sweep.ReportsAfter status message after ∧
        ∀ deposit ∈ sweep.deposits.values, rentExemptionThreshold.toNat ≤ after deposit.address := by
  have hsources := source_ne h hminter
  rw [received_iff h hfits hreports]
  constructor
  · rintro ⟨hchecks, hreceived⟩
    have htaken := fun transfer hmem =>
      (checkTransfer_iff_taken h hdistinct hreports hmem).mp (hchecks transfer hmem)
    obtain ⟨after, hafter⟩ := exists_execute (transfers_ne_nil h) hsources
      fun transfer hmem => (Nat.le_add_left _ _).trans_eq (htaken transfer hmem).1
    obtain ⟨hpaid, hminterReceives⟩ := execute_eq_some hsources hafter
    have hposts : ∀ deposit ∈ sweep.deposits.values,
        reportedBalance message.accountKeys status.postBalances deposit.address =
          after deposit.address ∧ rentExemptionThreshold.toNat ≤ after deposit.address := by
      intro deposit hdeposit
      obtain ⟨transfer, hmem, hsource⟩ := exists_transfer_of_mem_values h hdeposit
      have hpays := hpaid _ (hsources transfer hmem)
      obtain ⟨hbalance, hrent⟩ := htaken transfer hmem
      rw [← hsource]
      omega
    exact ⟨after, ⟨hafter, fun deposit hdeposit => (hposts deposit hdeposit).1,
      hreceived.trans hminterReceives.symm⟩, fun deposit hdeposit => (hposts deposit hdeposit).2⟩
  · rintro ⟨after, ⟨hafter, hposts, hminterPost⟩, hrent⟩
    obtain ⟨hpaid, hminterReceives⟩ := execute_eq_some hsources hafter
    refine ⟨fun transfer hmem => ?_, hminterPost.trans hminterReceives⟩
    obtain ⟨deposit, hdeposit, hsource⟩ := exists_deposit_of_mem_transfers h hmem
    have hpays := hpaid _ (hsources transfer hmem)
    have hpost := hposts deposit hdeposit
    have hleft := hrent deposit hdeposit
    rw [hsource] at hpost hleft
    rw [checkTransfer_iff_taken h hdistinct hreports hmem]
    omega

/-- The outcomes that settle: a sweep settles with its own executions and with nothing else, it is then
credited with what it planned, and only an outcome with missing data is unreadable. -/
structure SettlesExactly (sweep : Sweep) : Prop where
  settles_iff : ∀ fetched, (∃ settled, sweep.settle fetched = .ok settled) ↔
    (∃ status message after, sweep.Reports fetched status message ∧
      sweep.ReportsAfter status message after ∧
      ∀ deposit ∈ sweep.deposits.values, rentExemptionThreshold.toNat ≤ after deposit.address) ∧
    ∃ mints, sweep.mints = .ok mints
  received : ∀ fetched settled, sweep.settle fetched = .ok settled →
    settled.amountReceived = sweep.expectedReceived
  /-- Balances of at least the recorded ones can pay for the execution, and its outcome settles. -/
  covered : ∀ fetched status message, sweep.Reports fetched status message →
    (∀ deposit ∈ sweep.deposits.values, deposit.balance.lamports.toNat ≤
      reportedBalance message.accountKeys status.preBalances deposit.address) →
    (∃ mints, sweep.mints = .ok mints) →
    ∃ after, sweep.execute status.fee.toNat
        (reportedBalance message.accountKeys status.preBalances) = some after ∧
      (sweep.ReportsAfter status message after → ∃ settled, sweep.settle fetched = .ok settled)
  unreadable : ∀ fetched outcome, sweep.settle fetched = .error (.unreadable outcome) →
    fetched.status = none ∨ ∃ status message, fetched.status = some status ∧
      fetched.message = .legacy message ∧
      (status.preBalances.length ≠ message.accountKeys.length ∨
        status.postBalances.length ≠ message.accountKeys.length)

omit [SolanaSdk.LawfulLayout] in
/-- Only missing data makes an outcome unreadable. -/
theorem settle_eq_unreadable {outcome : UnreadableOutcome}
    (h : sweep.settle fetched = .error (.unreadable outcome)) :
    fetched.status = none ∨ ∃ status message, fetched.status = some status ∧
      fetched.message = .legacy message ∧
      (status.preBalances.length ≠ message.accountKeys.length ∨
        status.postBalances.length ≠ message.accountKeys.length) := by
  simp only [settle, bind_eq_error, orPanic_eq_error, orPanic_eq_ok] at h
  rcases h with ⟨hnone, -⟩ | ⟨status, hstatus, h⟩
  · exact .inl hnone
  split at h
  · cases h
  split at h
  · cases h
  case h_2 message hmessage =>
    simp only [bind_eq_error, check_eq_error, check_eq_ok, mapError_eq_error] at h
    rcases h with ⟨-, heq⟩ | ⟨⟨⟩, -, ⟨hlengths, -⟩ | ⟨⟨⟩, -, ⟨-, heq⟩ | ⟨⟨⟩, -, mismatch, -, heq⟩⟩⟩
    · cases heq
    · exact .inr ⟨status, message, hstatus, hmessage, not_and_or.mp hlengths⟩
    · cases heq
    · cases heq

omit [SolanaSdk] [SolanaSdk.LawfulLayout] in
/-- A transfer leaves its deposit address with the rent exemption threshold, for every fee up to the
planned one. -/
theorem taken_add_rent_le (h : plan deposits minterAddress = .ok sweep)
    (hdistinct : (deposits.map (·.2.address)).Nodup) {transfer : Transfer}
    (hmem : transfer ∈ sweep.transfers) {fee : ℕ} (hfee : fee ≤ sweep.fee.toNat) :
    ∃ deposit ∈ sweep.deposits.values, deposit.address = transfer.source ∧
      sweep.taken fee transfer.source + rentExemptionThreshold.toNat ≤
        deposit.balance.lamports.toNat := by
  obtain ⟨payer, payerAmount, others, hperm, horders⟩ := exists_orders h
  obtain ⟨-, -, hunique, -⟩ := plan_eq_ok h
  obtain ⟨hnodup, hget⟩ := unique_eq_ok hunique
  obtain ⟨deposit, hdeposit, hsource, hamount⟩ :=
    horders.exists_entry ((hperm.map Prod.fst).nodup_iff.mpr hnodup) hmem
  have hvalue := OrdMap.mem_values_iff.mpr ⟨_, (hget _ _).mpr (hperm.subset hdeposit)⟩
  refine ⟨deposit, hvalue, hsource.symm, ?_⟩
  have hbalance : deposit.sweepableAmount.toNat + rentExemptionThreshold.toNat =
      deposit.balance.lamports.toNat := deposit.balance.toNat_sweepableAmount
  rw [taken_source h hdistinct hmem]
  split at hamount
  case isTrue hpayer =>
    rw [if_pos hpayer]
    omega
  case isFalse hother =>
    rw [if_neg hother]
    omega

/-- A planned sweep of different addresses settles exactly with its executions. -/
theorem settlesExactly_of_plan (h : plan deposits minterAddress = .ok sweep)
    (hdistinct : (deposits.map (·.2.address)).Nodup)
    (hminter : minterAddress ∉ deposits.map (·.2.address))
    (hfits : (sweep.transfers.map (·.amount.toNat)).sum < 2 ^ 64) : sweep.SettlesExactly := by
  have hiff : ∀ fetched, (∃ settled, sweep.settle fetched = .ok settled) ↔
      (∃ status message after, sweep.Reports fetched status message ∧
        sweep.ReportsAfter status message after ∧
        ∀ deposit ∈ sweep.deposits.values, rentExemptionThreshold.toNat ≤ after deposit.address) ∧
      ∃ mints, sweep.mints = .ok mints := by
    intro fetched
    constructor
    · rintro ⟨settled, hsettle⟩
      obtain ⟨status, message, hreports, hbalances⟩ := settle_eq_ok_iff.mp hsettle
      obtain ⟨hchecks, hreceived, hmints, -⟩ := settleBalances_eq_ok_iff.mp hbalances
      obtain ⟨after, hafter⟩ := (checks_iff h hdistinct hminter hfits hreports).mp ⟨hchecks, hreceived⟩
      exact ⟨⟨status, message, after, hreports, hafter⟩, _, hmints⟩
    · rintro ⟨⟨status, message, after, hreports, hafter⟩, mints, hmints⟩
      obtain ⟨hchecks, hreceived⟩ :=
        (checks_iff h hdistinct hminter hfits hreports).mpr ⟨after, hafter⟩
      refine ⟨⟨sweep.expectedReceived, mints⟩, settle_eq_ok_iff.mpr ⟨status, message, hreports, ?_⟩⟩
      exact settleBalances_eq_ok_iff.mpr ⟨hchecks, hreceived, hmints, rfl⟩
  constructor
  case settles_iff => exact hiff
  case received => exact fun fetched settled hsettle => (settle_eq_ok hsettle).1
  case covered =>
    intro fetched status message hreports hrecorded hmints
    have hsources := source_ne h hminter
    -- what was recorded pays for the transfers and leaves the rent behind
    have hcovers : ∀ transfer ∈ sweep.transfers,
        sweep.taken status.fee.toNat transfer.source + rentExemptionThreshold.toNat ≤
          reportedBalance message.accountKeys status.preBalances transfer.source := by
      intro transfer hmem
      obtain ⟨deposit, hdeposit, heq, hle⟩ := taken_add_rent_le h hdistinct hmem
        (UInt64.le_iff_toNat_le.mp hreports.fee_le)
      exact hle.trans (heq ▸ hrecorded deposit hdeposit)
    obtain ⟨after, hafter⟩ := exists_execute (transfers_ne_nil h) hsources
      fun transfer hmem => (Nat.le_add_right _ _).trans (hcovers transfer hmem)
    refine ⟨after, hafter, fun hreportsAfter => (hiff fetched).mpr
      ⟨⟨status, message, after, hreports, hreportsAfter, fun deposit hdeposit => ?_⟩, hmints⟩⟩
    obtain ⟨transfer, hmem, hsource⟩ := exists_transfer_of_mem_values h hdeposit
    have hpays := (execute_eq_some hsources hafter).1 _ (hsources transfer hmem)
    have hleft := hcovers transfer hmem
    rw [← hsource]
    omega
  case unreadable => exact fun fetched outcome hsettle => settle_eq_unreadable hsettle

end Lawful

end Settle

section Sample

attribute [local instance] Solana.sdk

theorem settlesExactly_sampleDeposits : ∃ sweep, plan sampleDeposits 7 = .ok sweep ∧
    (sweep.transfers.map (·.amount.toNat)).sum < 2 ^ 64 ∧ sweep.SettlesExactly := by
  obtain ⟨sweep, hsweep, hfits⟩ : ∃ sweep,
      (plan sampleDeposits 7).toOption = some sweep ∧
      (sweep.transfers.map (·.amount.toNat)).sum < 2 ^ 64 :=
    exists_of_any (by decide +kernel)
  have hplan := toOption_eq_some.mp hsweep
  have := Solana.lawfulLayout_sdk
  exact ⟨sweep, hplan, hfits, settlesExactly_of_plan hplan (by decide) (by decide) hfits⟩

end Sample

end Sweep

end Cksol
