import Cksol.Solana.Runtime
import Cksol.State.SettlementExact

/-! # Executing sweeps

A sweep that a block includes while its deposit addresses still hold what was recorded of them succeeds
under every lawful runtime, and `settle` accepts what is then fetched for it.
-/

namespace Cksol

open Std

variable [SolanaSdk]

/-- The transaction that is fetched for an executed message: there is no error if the message succeeded,
and the balances are those of the account keys before and after. -/
structure Bank.Fetches (before after : Bank) (succeeded : Bool) (content : TransferMessage)
    (fetched : Sweep.FetchedTransaction) (status : Sweep.TransactionStatusMeta) : Prop where
  message_eq : fetched.message = .legacy content.message
  status_eq : fetched.status = some status
  err_eq : status.err = none ↔ succeeded
  fee_eq : status.fee.toNat = content.fee
  preBalances : status.preBalances.map UInt64.toNat = content.message.accountKeys.map before.lamports
  postBalances : status.postBalances.map UInt64.toNat = content.message.accountKeys.map after.lamports

namespace Sweep

variable {deposits : List (DepositSolId × QueuedDeposit)} {minterAddress : Address} {sweep : Sweep}
  {bank after : Bank} {blockhash next : Hash}

/-- What the message of a sweep is compiled from; the first deposit address pays for it. -/
def content (sweep : Sweep) (blockhash : Hash) : Option TransferMessage :=
  sweep.transfers.head?.map fun first =>
    ⟨first.source, none, blockhash, sweep.transfers.map fun transfer =>
      ⟨transfer.source, sweep.minterAddress, transfer.amount⟩⟩

/-- A block includes the sweep while the deposit addresses, which hold no data, have at least the
balances that were recorded. -/
structure IncludedBy (sweep : Sweep) (bank : Bank) (blockhash next : Hash) : Prop where
  includes : ∀ content ∈ sweep.content blockhash, bank.Includes content next
  deposits : ∀ deposit ∈ sweep.deposits.values, bank.Pays deposit.address ∧
    deposit.balance.lamports.toNat ≤ bank.lamports deposit.address
  minter : bank.Pays sweep.minterAddress

/-- The transaction was fetched for an execution of the sweep. -/
def FetchedFor [SolanaRuntime] (sweep : Sweep) (fetched : FetchedTransaction) : Prop :=
  ∃ (bank after : Bank) (succeeded : Bool) (blockhash next : Hash) (content : TransferMessage)
    (status : TransactionStatusMeta), sweep.IncludedBy bank blockhash next ∧
      sweep.content blockhash = some content ∧
      SolanaRuntime.execute bank content.message next = some (after, succeeded) ∧
      bank.Fetches after succeeded content fetched status

/-- The minter address has received what the sweep planned, paid for by the deposit addresses, which are
left rent exempt. -/
structure Collected (sweep : Sweep) (bank after : Bank) : Prop where
  received : after.lamports sweep.minterAddress =
    bank.lamports sweep.minterAddress + sweep.expectedReceived.toNat
  paid : ∀ address ≠ sweep.minterAddress,
    after.lamports address + sweep.taken sweep.fee.toNat address = bank.lamports address
  left : ∀ deposit ∈ sweep.deposits.values,
    rentExemptionThreshold.toNat ≤ after.lamports deposit.address

/-- The sweep is the plan of deposits with different addresses, and brings in the rent exemption
threshold at least. -/
structure Separates (sweep : Sweep) (deposits : List (DepositSolId × QueuedDeposit))
    (minterAddress : Address) : Prop where
  planned : plan deposits minterAddress = .ok sweep
  distinct : (deposits.map (·.2.address)).Nodup
  notMinter : minterAddress ∉ deposits.map (·.2.address)
  balance_lt : sweep.totalBalance < 2 ^ 64
  received_ge : rentExemptionThreshold ≤ sweep.expectedReceived

variable {content : TransferMessage}

theorem message_of_content (h : sweep.content blockhash = some content) :
    content.message = sweep.sweepMessage blockhash := by
  obtain ⟨first, hfirst, rfl⟩ := Option.map_eq_some_iff.mp h
  rw [TransferMessage.message, TransferMessage.instructions, sweepMessage, hfirst, List.map_map]
  rfl

namespace Separates

variable (h : sweep.Separates deposits minterAddress)

include h

omit [SolanaSdk] in
theorem exists_content (blockhash : Hash) : ∃ content, sweep.content blockhash = some content := by
  obtain ⟨first, rest, htransfers⟩ := List.exists_cons_of_ne_nil (transfers_ne_nil h.planned)
  rw [Sweep.content, htransfers]
  exact ⟨_, rfl⟩

omit [SolanaSdk] in
theorem source_ne {transfer : Transfer} (hmem : transfer ∈ sweep.transfers) :
    transfer.source ≠ sweep.minterAddress :=
  Sweep.source_ne h.planned h.notMinter transfer hmem

omit [SolanaSdk] in
theorem toNat_expectedReceived :
    sweep.expectedReceived.toNat = (sweep.transfers.map (·.amount.toNat)).sum := by
  have hexpected := Sweep.toNat_expectedReceived h.planned h.balance_lt
  have hsum := sum_transfers_of_plan h.planned
  rw [List.map_map, toNat_fee h.planned h.balance_lt] at hsum
  exact Nat.add_right_cancel (hexpected.trans hsum.symm)

/-- The sweep costs the planned fee. -/
theorem fee_of_content [SolanaSdk.LawfulLayout] (hcontent : sweep.content blockhash = some content) :
    content.fee = sweep.fee.toNat := by
  rw [TransferMessage.fee, message_of_content hcontent,
    numRequiredSignatures_sweepMessage h.planned h.distinct, toNat_fee h.planned h.balance_lt,
    depositCount_eq_length h.planned]

/-! ## The execution -/

/-- A source pays its transfer and keeps the rent exemption threshold. -/
theorem taken_add_le (hincluded : sweep.IncludedBy bank blockhash next) {transfer : Transfer}
    (hmem : transfer ∈ sweep.transfers) :
    sweep.taken sweep.fee.toNat transfer.source + rentExemptionThreshold.toNat ≤
      bank.lamports transfer.source := by
  obtain ⟨deposit, hdeposit, heq, hle⟩ :=
    taken_add_rent_le h.planned h.distinct hmem (Nat.le_refl _)
  exact hle.trans (heq ▸ (hincluded.deposits deposit hdeposit).2)

theorem collected_of_execute (hincluded : sweep.IncludedBy bank blockhash next)
    (hafter : sweep.execute sweep.fee.toNat bank.lamports = some after.lamports) :
    sweep.Collected bank after := by
  obtain ⟨hpaid, hreceived⟩ := execute_eq_some (fun _ => h.source_ne) hafter
  refine ⟨by rw [hreceived, h.toNat_expectedReceived], hpaid, fun deposit hdeposit => ?_⟩
  obtain ⟨transfer, hmem, hsource⟩ := exists_transfer_of_mem_values h.planned hdeposit
  have hpays := hpaid _ (h.source_ne hmem)
  have hleft := h.taken_add_le hincluded hmem
  rw [← hsource]
  omega

/-- No account is left below its minimum. -/
theorem rentKept (hincluded : sweep.IncludedBy bank blockhash next)
    (hcollected : sweep.Collected bank after) (address : Address) :
    bank.RentKept after.lamports address := by
  by_cases heq : address = sweep.minterAddress
  · have hle := UInt64.le_iff_toNat_le.mp h.received_ge
    have hreceived := hcollected.received
    refine .inr ?_
    rw [heq, hincluded.minter.1, AccountKind.rentExemption]
    omega
  · have hpays := hcollected.paid address heq
    by_cases hsource : address ∈ sweep.transfers.map Transfer.source
    · obtain ⟨transfer, hmem, rfl⟩ := List.mem_map.mp hsource
      obtain ⟨deposit, hdeposit, hdepositAddress⟩ := exists_deposit_of_mem_transfers h.planned hmem
      have hleft := hcollected.left deposit hdeposit
      have hwallet := (hincluded.deposits deposit hdeposit).1.1
      rw [hdepositAddress] at hleft hwallet
      refine .inr ?_
      rw [hwallet]
      exact hleft
    · rw [taken_eq_zero hsource] at hpays
      exact .inl hpays

/-- The runtime does what the plan says. -/
theorem exists_execute [SolanaSdk.LawfulLayout] [SolanaRuntime] [SolanaRuntime.Lawful]
    (hincluded : sweep.IncludedBy bank blockhash next) :
    ∃ after, SolanaRuntime.execute bank (sweep.sweepMessage blockhash) next = some (after, true) ∧
      sweep.Collected bank after := by
  obtain ⟨lamports, hlamports⟩ := Sweep.exists_execute (transfers_ne_nil h.planned)
    (fun _ => h.source_ne)
    fun transfer hmem => (Nat.le_add_right _ _).trans (h.taken_add_le hincluded hmem)
  obtain ⟨content, hcontent⟩ := h.exists_content blockhash
  have hcollected : sweep.Collected bank { bank.charged content next with lamports } :=
    h.collected_of_execute hincluded hlamports
  refine ⟨_, ?_, hcollected⟩
  rw [← message_of_content hcontent]
  refine SolanaRuntime.Lawful.succeeds (hincluded.includes _ hcontent) ?_ ?_
    fun address => h.rentKept hincluded hcollected address
  · obtain ⟨first, -, rfl⟩ := Option.map_eq_some_iff.mp hcontent
    intro entry hentry
    obtain ⟨transfer, hmem, rfl⟩ := List.mem_map.mp hentry
    obtain ⟨deposit, hdeposit, hsource⟩ := exists_deposit_of_mem_transfers h.planned hmem
    refine ⟨hsource ▸ (hincluded.deposits deposit hdeposit).1, ?_, hincluded.minter.2⟩
    rw [hincluded.minter.1]
    exact nofun
  · -- the payments of the message are those of the plan, after its fee
    have hfee := h.fee_of_content hcontent
    obtain ⟨first, hfirst, rfl⟩ := Option.map_eq_some_iff.mp hcontent
    simp only [execute, hfirst, Option.bind_eq_bind, Option.bind_some,
      Option.ite_none_right_eq_some] at hlamports
    rw [Bank.charged, TransferMessage.payments, hfee, List.map_map, ← hlamports.2]
    rfl

/-! ## What is fetched -/

omit h [SolanaSdk] in
theorem reportedBalance_eq {keys : List Address} {balances : List Lamport} {lamports : Address → ℕ}
    (heq : balances.map UInt64.toNat = keys.map lamports) {address : Address}
    (hkey : address ∈ keys) : reportedBalance keys balances address = lamports address := by
  rw [reportedBalance, ← List.getElem?_map, heq, List.getElem?_map, Solana.getElem?_idxOf hkey]
  rfl

/-- What is fetched for the execution settles the sweep. -/
theorem settle_of_fetches [SolanaSdk.Lawful] [SolanaSdk.LawfulLayout]
    (hincluded : sweep.IncludedBy bank blockhash next) (hcollected : sweep.Collected bank after)
    (hcontent : sweep.content blockhash = some content) {fetched : FetchedTransaction}
    {status : TransactionStatusMeta} (hfetches : bank.Fetches after true content fetched status)
    {mints : List CreditedDeposit} (hmints : sweep.mints = .ok mints) :
    sweep.settle fetched = .ok ⟨sweep.expectedReceived, mints⟩ := by
  have hmessage := message_of_content hcontent
  have hstatusFee : status.fee = sweep.fee :=
    UInt64.toNat_inj.mp (hfetches.fee_eq.trans (h.fee_of_content hcontent))
  have hlength {balances : List Lamport} {lamports : Address → ℕ}
      (heq : balances.map UInt64.toNat = content.message.accountKeys.map lamports) :
      balances.length = content.message.accountKeys.length := by
    rw [← List.length_map UInt64.toNat, heq, List.length_map]
  -- the fetched outcome is one that `settle` can read
  have hreports : sweep.Reports fetched status content.message := by
    refine ⟨hfetches.status_eq, hfetches.message_eq, hfetches.err_eq.mpr rfl, ?_,
      hlength hfetches.preBalances, hlength hfetches.postBalances, hstatusFee ▸ UInt64.le_refl _⟩
    have hblockhash : (sweep.sweepMessage blockhash).recentBlockhash = blockhash :=
      SolanaSdk.Lawful.recentBlockhash_new _ _ _
    rw [hmessage, hblockhash]
  have hkeys {address : Address} (haddress : address ∈ sweep.transfers.map Transfer.source ∨
      address = sweep.minterAddress) : address ∈ content.message.accountKeys := by
    rw [hmessage]
    exact (mem_accountKeys_sweepMessage (transfers_ne_nil h.planned)).mpr (haddress.imp_right .inl)
  have hpre {address : Address} (haddress : address ∈ sweep.transfers.map Transfer.source ∨
      address = sweep.minterAddress) :=
    reportedBalance_eq hfetches.preBalances (hkeys haddress)
  have hpost {address : Address} (haddress : address ∈ sweep.transfers.map Transfer.source ∨
      address = sweep.minterAddress) :=
    reportedBalance_eq hfetches.postBalances (hkeys haddress)
  refine settle_eq_ok_iff.mpr ⟨_, _, hreports, settleBalances_eq_ok_iff.mpr ⟨?_, ?_, hmints, rfl⟩⟩
  · intro transfer hmem
    have hsource := List.mem_map_of_mem (f := Transfer.source) hmem
    have hpays := hcollected.paid _ (h.source_ne hmem)
    have hleft := h.taken_add_le hincluded hmem
    rw [checkTransfer_iff_taken h.planned h.distinct hreports hmem, hpre (.inl hsource),
      hpost (.inl hsource), hstatusFee]
    omega
  · have hlt := sweep.expectedReceived.toNat_lt
    rw [h.toNat_expectedReceived] at hlt
    rw [received_iff h.planned hlt hreports, hpre (.inr rfl), hpost (.inr rfl), hcollected.received,
      h.toNat_expectedReceived]

/-- The laws leave one outcome of a sweep, and it settles. -/
theorem settle_of_fetchedFor [SolanaSdk.Lawful] [SolanaSdk.LawfulLayout] [SolanaRuntime]
    [SolanaRuntime.Lawful] {fetched : FetchedTransaction} (hfetched : sweep.FetchedFor fetched)
    {mints : List CreditedDeposit} (hmints : sweep.mints = .ok mints) :
    sweep.settle fetched = .ok ⟨sweep.expectedReceived, mints⟩ := by
  obtain ⟨bank, after, succeeded, blockhash, next, content, status, hincluded, hcontent, hexecute,
    hfetches⟩ := hfetched
  obtain ⟨after', hexecute', hcollected⟩ := h.exists_execute hincluded
  rw [← message_of_content hcontent, hexecute] at hexecute'
  obtain ⟨rfl, rfl⟩ := Prod.mk.inj (Option.some.inj hexecute')
  exact h.settle_of_fetches hincluded hcollected hcontent hfetches hmints

end Separates

end Sweep

end Cksol
