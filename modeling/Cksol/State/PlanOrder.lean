import Cksol.Common.Payments
import Cksol.State.SweepPlans

/-! # What a plan pays

A plan is a function of the set of its deposits. Its fee payer and the order of its transfers are
determined by sweepable amounts and ids, and executing it leaves every deposit address with exactly the
rent exemption threshold.
-/

namespace Cksol

open Std

namespace Sweep

variable {deposits : List (DepositSolId × QueuedDeposit)} {minterAddress : Address} {sweep : Sweep}

/-! ## The order of the transfers -/

theorem transferKeyLe_iff {a b : DepositSolId × QueuedDeposit} : transferKeyLe a b ↔
    b.2.sweepableAmount.toNat < a.2.sweepableAmount.toNat ∨
      (a.2.sweepableAmount.toNat = b.2.sweepableAmount.toNat ∧ a.1 ≤ b.1) := by
  rw [transferKeyLe, UInt64.lt_iff_toNat_lt, UInt64.toNat_inj]

instance : Std.Total transferKeyLe where
  total a b := by
    simp only [transferKeyLe_iff]
    rcases Nat.lt_trichotomy a.2.sweepableAmount.toNat b.2.sweepableAmount.toNat with hlt | heq | hgt
    · exact .inr (.inl hlt)
    · exact (Nat.le_total a.1 b.1).imp (fun hle => .inr ⟨heq, hle⟩) fun hle => .inr ⟨heq.symm, hle⟩
    · exact .inl (.inl hgt)

instance : IsTrans (DepositSolId × QueuedDeposit) transferKeyLe where
  trans a b c hab hbc := by
    rw [transferKeyLe_iff] at hab hbc ⊢
    rcases hab with hab | ⟨hab, hid⟩ <;> rcases hbc with hbc | ⟨hbc, hid'⟩
    · exact .inl (hbc.trans hab)
    · exact .inl (hbc ▸ hab)
    · exact .inl (hab ▸ hbc)
    · exact .inr ⟨hab.trans hbc, Nat.le_trans hid hid'⟩

/-- The transfers of a plan: the deposits once each, the one that covers the fee first and the others
in their order. -/
structure Orders (sweep : Sweep) (payer : DepositSolId × QueuedDeposit) (payerAmount : Lamport)
    (others : List (DepositSolId × QueuedDeposit)) : Prop where
  payerKeyLe : ∀ entry ∈ payer :: others, payerKeyLe entry payer
  ordered : others.Pairwise transferKeyLe
  payerAmount_add : payerAmount.toNat + sweep.fee.toNat = payer.2.sweepableAmount.toNat
  feePayer : sweep.feePayer = payer.1
  transfers : sweep.transfers = ⟨payer.1, payer.2.address, payerAmount⟩ ::
    others.map fun entry => ⟨entry.1, entry.2.address, entry.2.sweepableAmount⟩

theorem exists_orders (h : plan deposits minterAddress = .ok sweep) :
    ∃ payer payerAmount others, (payer :: others).Perm deposits ∧
      sweep.Orders payer payerAmount others := by
  obtain ⟨payer, payerAmount, hunique, hpayer, hfeePayer, -, -, hamount, htransfers, -⟩ := plan_eq_ok h
  have hperm := toList_perm_cons (mem_of_maxByPayerKey hpayer)
  have hsort := List.perm_insertionSort transferKeyLe
    (sweep.deposits.toList.filter (·.1 ≠ payer.1))
  refine ⟨payer, payerAmount, _, ((hsort.cons payer).trans hperm.symm).trans
    (toList_perm_of_unique hunique), ?_, List.pairwise_insertionSort _ _, ?_, hfeePayer, htransfers⟩
  · intro entry hentry
    exact payerKeyLe_of_maxByPayerKey hpayer entry
      (hperm.symm.subset ((hsort.cons payer).subset hentry))
  · exact checkedSub_eq_some.mp hamount

/-! ## Any order of the deposits -/

theorem unique_perm {deposits' : List (DepositSolId × QueuedDeposit)}
    (hnodup : (deposits.map Prod.fst).Nodup) (hperm : deposits'.Perm deposits) :
    unique deposits' = unique deposits := by
  obtain ⟨result, hresult⟩ := exists_unique_eq_ok hnodup
  obtain ⟨result', hresult'⟩ := exists_unique_eq_ok ((hperm.map Prod.fst).nodup_iff.mpr hnodup)
  have heq : result' = result := by
    refine ExtTreeMap.ext_getElem? fun depositId => Option.ext fun deposit => ?_
    rw [(unique_eq_ok hresult).2, (unique_eq_ok hresult').2, hperm.mem_iff]
  rw [hresult, hresult', heq]

/-- The plan does not depend on the order in which the deposits are given. -/
theorem plan_perm {deposits' : List (DepositSolId × QueuedDeposit)}
    (hnodup : (deposits.map Prod.fst).Nodup) (hperm : deposits'.Perm deposits)
    (minterAddress : Address) : plan deposits' minterAddress = plan deposits minterAddress := by
  rw [plan, unique_perm hnodup hperm, plan]

/-! ## Execution -/

/-- The transfers as payments to the minter address. -/
def payments (sweep : Sweep) : List (Payment Address) :=
  sweep.transfers.map fun transfer => ⟨transfer.source, sweep.minterAddress, transfer.amount.toNat⟩

/-- What Solana does: it charges the fee to the first source, then executes the transfers. -/
def execute (sweep : Sweep) (fee : ℕ) (balances : Address → ℕ) : Option (Address → ℕ) := do
  let payer ← sweep.transfers.head?
  if fee ≤ balances payer.source then
    payAll (Function.update balances payer.source (balances payer.source - fee)) sweep.payments
  else none

/-- What the execution takes from an address other than the minter's. -/
def taken (sweep : Sweep) (fee : ℕ) (address : Address) : ℕ :=
  outgoing sweep.payments address +
    if sweep.transfers.head?.map Transfer.source = some address then fee else 0

theorem mem_payments {payment : Payment Address}
    (hsources : ∀ transfer ∈ sweep.transfers, transfer.source ≠ sweep.minterAddress)
    (h : payment ∈ sweep.payments) :
    payment.target = sweep.minterAddress ∧ payment.source ≠ sweep.minterAddress := by
  obtain ⟨transfer, htransfer, rfl⟩ := List.mem_map.mp h
  exact ⟨rfl, hsources transfer htransfer⟩

theorem execute_eq_some {fee : ℕ} {before after : Address → ℕ}
    (hsources : ∀ transfer ∈ sweep.transfers, transfer.source ≠ sweep.minterAddress)
    (h : sweep.execute fee before = some after) :
    (∀ address ≠ sweep.minterAddress, after address + sweep.taken fee address = before address) ∧
      after sweep.minterAddress = before sweep.minterAddress +
        (sweep.transfers.map (·.amount.toNat)).sum := by
  simp only [execute, Option.bind_eq_bind, Option.bind_eq_some_iff, Option.ite_none_right_eq_some] at h
  obtain ⟨payer, hpayer, hle, hpayAll⟩ := h
  obtain ⟨hothers, hreceived⟩ := payAll_eq_some (fun _ => mem_payments hsources) hpayAll
  refine ⟨fun address haddress => ?_, ?_⟩
  · have hrest := hothers address haddress
    simp only [taken, hpayer, Option.map_some, Option.some.injEq]
    by_cases heq : payer.source = address
    · subst heq
      rw [Function.update_self] at hrest
      rw [if_pos rfl]
      omega
    · rw [Function.update_of_ne (Ne.symm heq)] at hrest
      rw [if_neg heq]
      omega
  · have hother := hsources payer (List.mem_of_head? hpayer)
    rw [hreceived, Function.update_of_ne (Ne.symm hother), payments, List.map_map]
    rfl

theorem taken_eq_zero {address : Address} (h : address ∉ sweep.transfers.map Transfer.source)
    (fee : ℕ) : sweep.taken fee address = 0 := by
  have hnone : address ∉ sweep.payments.map Payment.source := by
    rwa [payments, List.map_map]
  rw [taken, outgoing_eq_zero hnone, if_neg]
  intro hhead
  obtain ⟨payer, hpayer, rfl⟩ := Option.map_eq_some_iff.mp hhead
  exact h (List.mem_map_of_mem (List.mem_of_head? hpayer))

/-- The execution succeeds when every source covers what is taken from it. -/
theorem exists_execute {fee : ℕ} {before : Address → ℕ} (hne : sweep.transfers ≠ [])
    (hsources : ∀ transfer ∈ sweep.transfers, transfer.source ≠ sweep.minterAddress)
    (h : ∀ transfer ∈ sweep.transfers, sweep.taken fee transfer.source ≤ before transfer.source) :
    ∃ after, sweep.execute fee before = some after := by
  obtain ⟨payer, hpayer⟩ : ∃ payer, sweep.transfers.head? = some payer :=
    ⟨_, List.head?_eq_some_head hne⟩
  have hcovers := h payer (List.mem_of_head? hpayer)
  simp only [taken, hpayer, Option.map_some, if_true] at hcovers
  obtain ⟨after, hafter⟩ : ∃ after, payAll (Function.update before payer.source
      (before payer.source - fee)) sweep.payments = some after := by
    refine exists_payAll (fun _ => mem_payments hsources) fun address haddress => ?_
    by_cases heq : payer.source = address
    · subst heq
      rw [Function.update_self]
      omega
    · rw [Function.update_of_ne (Ne.symm heq)]
      have hle : outgoing sweep.payments address ≤ sweep.taken fee address := Nat.le_add_right _ _
      by_cases hsource : address ∈ sweep.transfers.map Transfer.source
      · obtain ⟨transfer, htransfer, rfl⟩ := List.mem_map.mp hsource
        exact hle.trans (h transfer htransfer)
      · rw [taken_eq_zero hsource] at hle
        omega
  refine ⟨after, ?_⟩
  simp only [execute, hpayer, Option.bind_eq_bind, Option.bind_some]
  rw [if_pos (by omega), hafter]

/-- A deposit address pays its own transfer, and the fee if it is the first. -/
theorem taken_of_mem (hnodup : (sweep.transfers.map Transfer.source).Nodup) {transfer : Transfer}
    (hmem : transfer ∈ sweep.transfers) (fee : ℕ) :
    sweep.taken fee transfer.source = transfer.amount.toNat +
      if sweep.transfers.head? = some transfer then fee else 0 := by
  have hpayment : (⟨transfer.source, sweep.minterAddress, transfer.amount.toNat⟩ : Payment Address) ∈
      sweep.payments := List.mem_map_of_mem hmem
  have hdistinct : (sweep.payments.map Payment.source).Nodup := by
    rwa [payments, List.map_map]
  have houtgoing := outgoing_of_nodup hdistinct hpayment
  have hfirst : sweep.transfers.head?.map Transfer.source = some transfer.source ↔
      sweep.transfers.head? = some transfer := by
    constructor
    · intro hsource
      obtain ⟨first, hhead, heq⟩ := Option.map_eq_some_iff.mp hsource
      rw [hhead, List.inj_on_of_nodup_map hnodup (List.mem_of_head? hhead) hmem heq]
    · intro hhead
      rw [hhead, Option.map_some]
  rw [taken, houtgoing]
  simp only [hfirst]

/-! ## Plans of distinct deposits -/

namespace Orders

variable {payer : DepositSolId × QueuedDeposit} {payerAmount : Lamport}
  {others : List (DepositSolId × QueuedDeposit)}

theorem map_depositId (h : sweep.Orders payer payerAmount others) :
    sweep.transfers.map Transfer.depositId = (payer :: others).map Prod.fst := by
  rw [h.transfers, List.map_cons, List.map_map, List.map_cons]
  rfl

theorem map_source (h : sweep.Orders payer payerAmount others) :
    sweep.transfers.map Transfer.source = (payer :: others).map (·.2.address) := by
  rw [h.transfers, List.map_cons, List.map_map, List.map_cons]
  rfl

theorem head?_transfers (h : sweep.Orders payer payerAmount others) :
    sweep.transfers.head? = some ⟨payer.1, payer.2.address, payerAmount⟩ := by
  rw [h.transfers, List.head?_cons]

/-- Only the first transfer is the fee payer's. -/
theorem head?_iff (h : sweep.Orders payer payerAmount others)
    (hnodup : ((payer :: others).map Prod.fst).Nodup) {transfer : Transfer}
    (hmem : transfer ∈ sweep.transfers) :
    sweep.transfers.head? = some transfer ↔ transfer.depositId = sweep.feePayer := by
  rw [← h.map_depositId] at hnodup
  have hhead := h.head?_transfers
  constructor
  · intro hfirst
    rw [hfirst] at hhead
    rw [h.feePayer, Option.some.inj hhead]
  · intro hid
    rw [h.feePayer] at hid
    rw [hhead, List.inj_on_of_nodup_map hnodup (List.mem_of_head? hhead) hmem hid.symm]

/-- A transfer moves the sweepable amount of its deposit, up to the fee. -/
theorem exists_entry (h : sweep.Orders payer payerAmount others)
    (hnodup : ((payer :: others).map Prod.fst).Nodup) {transfer : Transfer}
    (hmem : transfer ∈ sweep.transfers) :
    ∃ deposit, (transfer.depositId, deposit) ∈ payer :: others ∧ transfer.source = deposit.address ∧
      transfer.amount.toNat + (if transfer.depositId = sweep.feePayer then sweep.fee.toNat else 0) =
        deposit.sweepableAmount.toNat := by
  rw [h.transfers] at hmem
  rcases List.mem_cons.mp hmem with rfl | hother
  · refine ⟨payer.2, List.mem_cons_self, rfl, ?_⟩
    rw [if_pos h.feePayer.symm]
    exact h.payerAmount_add
  · obtain ⟨entry, hentry, rfl⟩ := List.mem_map.mp hother
    refine ⟨entry.2, List.mem_cons_of_mem _ hentry, rfl, ?_⟩
    have hne : entry.1 ≠ sweep.feePayer := by
      rintro heq
      rw [h.feePayer] at heq
      exact (List.nodup_cons.mp hnodup).1 (heq ▸ List.mem_map_of_mem hentry)
    rw [if_neg hne, Nat.add_zero]

end Orders

/-- What a sweep of the deposits to the minter address pays. -/
structure IsPlanOf (sweep : Sweep) (deposits : List (DepositSolId × QueuedDeposit))
    (minterAddress : Address) : Prop where
  deposits_iff : ∀ depositId deposit,
    sweep.deposits[depositId]? = some deposit ↔ (depositId, deposit) ∈ deposits
  minterAddress_eq : sweep.minterAddress = minterAddress
  fee_eq : sweep.fee.toNat = feePerSignature.toNat * deposits.length
  /-- The fee payer has the largest sweepable amount and, among those, the lowest id. -/
  feePayer : ∃ deposit, (sweep.feePayer, deposit) ∈ deposits ∧ ∀ other ∈ deposits,
    other.2.sweepableAmount < deposit.sweepableAmount ∨
      (other.2.sweepableAmount = deposit.sweepableAmount ∧ sweep.feePayer ≤ other.1)
  once : (sweep.transfers.map Transfer.depositId).Perm (deposits.map Prod.fst)
  first : sweep.transfers.head?.map Transfer.depositId = some sweep.feePayer
  /-- After the fee payer, by decreasing sweepable amount, then by increasing id. -/
  ordered : ∃ others : List (DepositSolId × QueuedDeposit), others ⊆ deposits ∧
    sweep.transfers.tail =
      others.map (fun entry => ⟨entry.1, entry.2.address, entry.2.sweepableAmount⟩) ∧
    others.Pairwise fun a b => b.2.sweepableAmount < a.2.sweepableAmount ∨
      (a.2.sweepableAmount = b.2.sweepableAmount ∧ a.1 < b.1)
  /-- The recorded balance of every deposit is its transfer, the fee if it pays it, and the rent
  exemption threshold. -/
  keeps : ∀ transfer ∈ sweep.transfers, ∃ deposit, (transfer.depositId, deposit) ∈ deposits ∧
    transfer.source = deposit.address ∧ deposit.balance.lamports.toNat = transfer.amount.toNat +
      (if transfer.depositId = sweep.feePayer then sweep.fee.toNat else 0) +
        rentExemptionThreshold.toNat
  /-- Executing the plan leaves different deposit addresses that hold the recorded balances with the
  rent exemption threshold. -/
  executes : (deposits.map (·.2.address)).Nodup → minterAddress ∉ deposits.map (·.2.address) →
    ∀ before : Address → ℕ,
      (∀ entry ∈ deposits, before entry.2.address = entry.2.balance.lamports.toNat) →
      ∃ after, sweep.execute sweep.fee.toNat before = some after ∧
        (∀ entry ∈ deposits, after entry.2.address = rentExemptionThreshold.toNat) ∧
        after minterAddress = before minterAddress + sweep.expectedReceived.toNat
  received : sweep.expectedReceived.toNat + sweep.fee.toNat =
    (deposits.map (·.2.sweepableAmount.toNat)).sum

theorem depositCount_eq_length (h : plan deposits minterAddress = .ok sweep) :
    sweep.depositCount = deposits.length := by
  obtain ⟨-, -, hunique, -⟩ := plan_eq_ok h
  rw [← length_toList_deposits, (toList_perm_of_unique hunique).length_eq]

/-! ### Different deposit addresses -/

theorem map_source_perm (h : plan deposits minterAddress = .ok sweep) :
    (sweep.transfers.map Transfer.source).Perm (deposits.map (·.2.address)) := by
  obtain ⟨payer, payerAmount, others, hperm, horders⟩ := exists_orders h
  rw [horders.map_source]
  exact hperm.map _

theorem length_transfers (h : plan deposits minterAddress = .ok sweep) :
    sweep.transfers.length = deposits.length := by
  have hlength := (map_source_perm h).length_eq
  rwa [List.length_map, List.length_map] at hlength

theorem nodup_source (h : plan deposits minterAddress = .ok sweep)
    (hdistinct : (deposits.map (·.2.address)).Nodup) :
    (sweep.transfers.map Transfer.source).Nodup :=
  (map_source_perm h).nodup_iff.mpr hdistinct

theorem source_ne (h : plan deposits minterAddress = .ok sweep)
    (hminter : minterAddress ∉ deposits.map (·.2.address)) :
    ∀ transfer ∈ sweep.transfers, transfer.source ≠ sweep.minterAddress := by
  obtain ⟨-, -, -, -, -, -, hminterAddress, -⟩ := plan_eq_ok h
  intro transfer hmem heq
  refine hminter ((map_source_perm h).subset ?_)
  rw [← hminterAddress, ← heq]
  exact List.mem_map_of_mem hmem

/-- What the execution takes from a deposit address. -/
theorem taken_source (h : plan deposits minterAddress = .ok sweep)
    (hdistinct : (deposits.map (·.2.address)).Nodup) {transfer : Transfer}
    (hmem : transfer ∈ sweep.transfers) (fee : ℕ) :
    sweep.taken fee transfer.source =
      transfer.amount.toNat + if transfer.depositId = sweep.feePayer then fee else 0 := by
  obtain ⟨payer, payerAmount, others, hperm, horders⟩ := exists_orders h
  obtain ⟨-, -, hunique, -⟩ := plan_eq_ok h
  have hnodup := (hperm.map Prod.fst).nodup_iff.mpr (unique_eq_ok hunique).1
  rw [taken_of_mem (nodup_source h hdistinct) hmem]
  simp only [horders.head?_iff hnodup hmem]

theorem transfers_ne_nil (h : plan deposits minterAddress = .ok sweep) : sweep.transfers ≠ [] := by
  obtain ⟨payer, payerAmount, others, -, horders⟩ := exists_orders h
  rw [horders.transfers]
  exact List.cons_ne_nil _ _

/-- What `plan` computes is a plan of the deposits. -/
theorem isPlanOf_of_plan (h : plan deposits minterAddress = .ok sweep)
    (hfee : feePerSignature.toNat * deposits.length < 2 ^ 64)
    (hfits : (deposits.map (·.2.sweepableAmount.toNat)).sum < 2 ^ 64) :
    sweep.IsPlanOf deposits minterAddress := by
  obtain ⟨payer, payerAmount, others, hperm, horders⟩ := exists_orders h
  obtain ⟨-, -, hunique, -, -, -, hminter, -, -, hexpected⟩ := plan_eq_ok h
  obtain ⟨hnodup, hget⟩ := unique_eq_ok hunique
  have hnodup' := (hperm.map Prod.fst).nodup_iff.mpr hnodup
  have htoNat : sweep.fee.toNat = feePerSignature.toNat * deposits.length := by
    have hcount := depositCount_eq_length h
    rw [toNat_fee_of_lt h (hcount ▸ hfee), hcount]
  have hsum : sweep.totalSweepable = (deposits.map (·.2.sweepableAmount.toNat)).sum := by
    rw [totalSweepable, OrdMap.sumBy, ((toList_perm_of_unique hunique).map _).sum_eq]
  have htransfers := sum_transfers_of_plan h
  have hreceived : sweep.expectedReceived.toNat =
      ((sweep.transfers.map Transfer.amount).map UInt64.toNat).sum := by
    rw [hexpected, toNat_sum_of_lt (by omega)]
  -- a deposit holds what it transfers, the fee if it pays it, and the rent
  have hkeeps : ∀ transfer ∈ sweep.transfers, ∃ deposit, (transfer.depositId, deposit) ∈ deposits ∧
      transfer.source = deposit.address ∧ deposit.balance.lamports.toNat = transfer.amount.toNat +
        (if transfer.depositId = sweep.feePayer then sweep.fee.toNat else 0) +
          rentExemptionThreshold.toNat := by
    intro transfer hmem
    obtain ⟨deposit, hdeposit, hsource, hamount⟩ := horders.exists_entry hnodup' hmem
    refine ⟨deposit, hperm.subset hdeposit, hsource, ?_⟩
    rw [hamount]
    exact deposit.balance.toNat_sweepableAmount.symm
  constructor
  case deposits_iff => exact hget
  case minterAddress_eq => exact hminter
  case fee_eq => exact htoNat
  case feePayer =>
    refine ⟨payer.2, ?_, fun other hother => ?_⟩
    · rw [horders.feePayer]
      exact hperm.subset List.mem_cons_self
    · rw [horders.feePayer]
      exact of_decide_eq_true (horders.payerKeyLe other (hperm.symm.subset hother))
  case once =>
    rw [horders.map_depositId]
    exact hperm.map Prod.fst
  case first => rw [horders.head?_transfers, Option.map_some, horders.feePayer]
  case ordered =>
    refine ⟨others, fun entry hentry => hperm.subset (List.mem_cons_of_mem _ hentry), ?_, ?_⟩
    · rw [horders.transfers, List.tail_cons]
    · -- two entries of one amount differ in their ids
      have hdistinct : others.Pairwise fun a b => a.1 ≠ b.1 :=
        List.pairwise_map.mp (List.nodup_cons.mp hnodup').2
      refine (horders.ordered.and hdistinct).imp fun hle => ?_
      exact hle.1.imp_right fun heq => ⟨heq.1, Nat.lt_of_le_of_ne heq.2 hle.2⟩
  case keeps => exact hkeeps
  case executes =>
    intro hdistinct hother before hbefore
    have hsources := source_ne h hother
    -- every source holds what is taken from it and the rent, so the payments go through
    have htaken : ∀ transfer ∈ sweep.transfers, sweep.taken sweep.fee.toNat transfer.source +
        rentExemptionThreshold.toNat = before transfer.source := by
      intro transfer hmem
      obtain ⟨deposit, hdeposit, hsource, hbalance⟩ := hkeeps transfer hmem
      have hheld := hbefore _ hdeposit
      rw [taken_source h hdistinct hmem, hsource]
      exact hbalance.symm.trans hheld.symm
    obtain ⟨after, hafter⟩ := exists_execute (transfers_ne_nil h) hsources
      fun transfer hmem => (Nat.le_add_right _ _).trans_eq (htaken transfer hmem)
    obtain ⟨hpaid, hminterReceives⟩ := execute_eq_some hsources hafter
    refine ⟨after, hafter, fun entry hentry => ?_, ?_⟩
    · obtain ⟨transfer, hmem, heq⟩ := List.mem_map.mp
        ((map_source_perm h).symm.subset (List.mem_map_of_mem hentry))
      have hleft := hpaid _ (hsources transfer hmem)
      have hheld := htaken transfer hmem
      rw [← heq]
      omega
    · rw [← hminter, hminterReceives, hreceived, List.map_map]
      rfl
  case received => omega

/-- Distinct deposits, one of which covers the fee, have one plan in any order, which pays what it
should. -/
theorem plan_of_distinct (hnodup : (deposits.map Prod.fst).Nodup)
    (hlargest : ∃ entry ∈ deposits,
      feePerSignature.toNat * deposits.length ≤ entry.2.sweepableAmount.toNat)
    (hfits : (deposits.map (·.2.sweepableAmount.toNat)).sum < 2 ^ 64) (minterAddress : Address) :
    ∃ sweep, (∀ deposits' : List (DepositSolId × QueuedDeposit), deposits'.Perm deposits →
      plan deposits' minterAddress = .ok sweep) ∧ sweep.IsPlanOf deposits minterAddress := by
  obtain ⟨entry, hentry, hamount⟩ := hlargest
  obtain ⟨sweep, hplan⟩ := exists_plan_of_covered hnodup hentry hamount minterAddress
  have hlt := entry.2.sweepableAmount.toNat_lt
  exact ⟨sweep, fun deposits' hperm => (plan_perm hnodup hperm minterAddress).trans hplan,
    isPlanOf_of_plan hplan (by omega) hfits⟩

/-- Two deposits, the second of which pays the fee. -/
def sampleDeposits : List (DepositSolId × QueuedDeposit) :=
  [(0, ⟨⟨.single 9, none⟩, 5, .sampleSmall, none⟩),
    (1, ⟨⟨.single 8, none⟩, 6, .sample, some 1_000⟩)]

theorem plan_sampleDeposits : ∃ sweep,
    (∀ deposits' : List (DepositSolId × QueuedDeposit), deposits'.Perm sampleDeposits →
      plan deposits' 7 = .ok sweep) ∧ sweep.IsPlanOf sampleDeposits 7 := by
  exact plan_of_distinct (by decide) ⟨_, List.mem_cons_self, by decide⟩ (by decide) 7

end Sweep

end Cksol
