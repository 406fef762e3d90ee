import Mathlib.Data.List.Sort
import Cksol.Common.CheckedArith
import Cksol.Common.Fallible
import Cksol.State.Panic

/-! # `state/deposits/sweeps`

A sweep moves queued deposits to the minter's main address in one transaction. Its plan is a function
of the deposits and the destination; the submitted message and the outcome of the transaction are
both checked against that plan.
-/

namespace Cksol

open Std

variable {deposits : List (DepositSolId × QueuedDeposit)}

/-! ## Deposits -/

/-- A deposit address balance that stays rent-exempt once its sweepable amount is transferred. -/
structure DepositBalance where
  lamports : Lamport
  rentExempt : rentExemptionThreshold ≤ lamports
deriving DecidableEq

namespace DepositBalance

def new (balance : Lamport) : Option DepositBalance :=
  if h : rentExemptionThreshold ≤ balance then some ⟨balance, h⟩ else none

def sample : DepositBalance := ⟨30_000_000, by decide⟩

def sampleMedium : DepositBalance := ⟨5_000_000, by decide⟩

def sampleSmall : DepositBalance := ⟨2_000_000, by decide⟩

/-- The balance minus the rent exemption threshold left on the deposit address. -/
def sweepableAmount (balance : DepositBalance) : Lamport :=
  balance.lamports - rentExemptionThreshold

theorem toNat_sweepableAmount (balance : DepositBalance) :
    balance.sweepableAmount.toNat + rentExemptionThreshold.toNat = balance.lamports.toNat := by
  have hle := UInt64.le_iff_toNat_le.mp balance.rentExempt
  rw [sweepableAmount, UInt64.toNat_sub_of_le _ _ balance.rentExempt]
  omega

end DepositBalance

/-- A deposit address queued for a sweep to the minter's main account. -/
structure QueuedDeposit where
  account : Account
  address : Address
  balance : DepositBalance
  depositFee : Option Lamport
deriving DecidableEq

namespace QueuedDeposit

def sweepableAmount (deposit : QueuedDeposit) : Lamport :=
  deposit.balance.sweepableAmount

/-- The fee deducted from the mint, zero for a deposit queued by `deposit_sol`. -/
def fee (deposit : QueuedDeposit) : Lamport :=
  deposit.depositFee.getD 0

end QueuedDeposit

/-- The mint enqueued for one deposit of a `CreditedSweep` event. -/
structure CreditedDeposit where
  depositId : DepositSolId
  amountToMint : Lamport
deriving DecidableEq

/-- One transfer of a sweep transaction, from a deposit address to the minter address. -/
structure Transfer where
  depositId : DepositSolId
  source : Address
  amount : Lamport
deriving DecidableEq

/-! ## Plans -/

/-- The plan of one sweep transaction. -/
structure Sweep where
  deposits : OrdMap DepositSolId QueuedDeposit
  feePayer : DepositSolId
  fee : Lamport
  minterAddress : Address
  transfers : List Transfer
  expectedReceived : Lamport

namespace Sweep

/-- The order of the fee payer's key: sweepable amount, then decreasing id. -/
def payerKeyLe (a b : DepositSolId × QueuedDeposit) : Bool :=
  a.2.sweepableAmount < b.2.sweepableAmount ∨
    (a.2.sweepableAmount = b.2.sweepableAmount ∧ b.1 ≤ a.1)

/-- `max_by_key`: the last entry with the largest key. -/
def maxByPayerKey : List (DepositSolId × QueuedDeposit) → Option (DepositSolId × QueuedDeposit)
  | [] => none
  | entry :: entries =>
      some (entries.foldl (fun best next => if payerKeyLe best next then next else best) entry)

/-- The order of the other transfers: decreasing sweepable amount, then id. -/
def transferKeyLe (a b : DepositSolId × QueuedDeposit) : Prop :=
  b.2.sweepableAmount < a.2.sweepableAmount ∨
    (a.2.sweepableAmount = b.2.sweepableAmount ∧ a.1 ≤ b.1)

instance : DecidableRel transferKeyLe := fun _ _ => inferInstanceAs (Decidable (_ ∨ _))

/-- The deposits by id, each id given once. -/
def unique (deposits : List (DepositSolId × QueuedDeposit)) :
    Except Panic (OrdMap DepositSolId QueuedDeposit) :=
  deposits.foldlM
    (fun unique entry => do
      check (entry.1 ∉ unique) (.sweepWithDepositTwice entry.1)
      return unique.insert entry.1 entry.2)
    ∅

/-- Plans the sweep: the deposit with the largest sweepable amount pays the fee of one signature per
deposit, so that every deposit address is left with the rent exemption threshold. -/
def plan (deposits : List (DepositSolId × QueuedDeposit)) (minterAddress : Address) :
    Except Panic Sweep := do
  let unique ← unique deposits
  let feePayer ← orPanic (maxByPayerKey unique.toList) .sweepWithoutDeposits
  let fee := feePerSignature * UInt64.ofNat unique.size
  let others := (unique.toList.filter (·.1 ≠ feePayer.1)).insertionSort transferKeyLe
  let payerAmount ←
    orPanic (checkedSub feePayer.2.sweepableAmount fee) .minimumDepositBelowSweepFee
  let transfers := ⟨feePayer.1, feePayer.2.address, payerAmount⟩ ::
    others.map fun entry => ⟨entry.1, entry.2.address, entry.2.sweepableAmount⟩
  return {
    deposits := unique
    feePayer := feePayer.1
    fee
    minterAddress
    transfers
    expectedReceived := (transfers.map Transfer.amount).sum }

/-- The loop stops at the first id that comes twice. -/
theorem unique_eq_ok {result : OrdMap DepositSolId QueuedDeposit} (h : unique deposits = .ok result) :
    (deposits.map Prod.fst).Nodup ∧
      ∀ depositId deposit, result[depositId]? = some deposit ↔ (depositId, deposit) ∈ deposits := by
  refine foldlM_invariant
    (P := fun done result => (done.map Prod.fst).Nodup ∧
      ∀ depositId deposit, result[depositId]? = some deposit ↔ (depositId, deposit) ∈ done) ?_ ?_ h
  · exact ⟨List.nodup_nil, by simp⟩
  · rintro done result ⟨id, deposit⟩ result' ⟨hnodup, hget⟩ hstep
    simp only [bind_eq_ok, check_eq_ok, pure_eq_ok] at hstep
    obtain ⟨-, hfresh, rfl⟩ := hstep
    have hnone := OrdMap.not_mem_iff.mp hfresh
    have hnew : id ∉ done.map Prod.fst := by
      intro hmem
      obtain ⟨⟨id', deposit'⟩, hdone, rfl⟩ := List.mem_map.mp hmem
      rw [(hget _ _).mpr hdone] at hnone
      cases hnone
    refine ⟨?_, fun depositId deposit' => ?_⟩
    · rw [List.map_append, List.nodup_append]
      refine ⟨hnodup, List.nodup_singleton _, ?_⟩
      rintro a ha b hb rfl
      obtain rfl : a = id := List.mem_singleton.mp hb
      exact hnew ha
    · rw [OrdMap.getElem?_insert_eq, List.mem_append, List.mem_singleton, Prod.mk.injEq]
      by_cases heq : id = depositId
      · subst heq
        rw [if_pos rfl, Option.some_inj]
        refine ⟨fun h => .inr ⟨rfl, h.symm⟩, ?_⟩
        rintro (hdone | ⟨-, rfl⟩)
        · exact absurd (List.mem_map_of_mem hdone) hnew
        · rfl
      · rw [if_neg heq, hget, or_iff_left]
        exact fun h => heq h.1.symm

/-- The parts of a plan: each deposit of the list once, one signature fee per deposit, and a transfer
of every sweepable amount, the fee payer's reduced by the fee. -/
theorem plan_eq_ok {minterAddress : Address} {sweep : Sweep}
    (h : plan deposits minterAddress = .ok sweep) :
    ∃ feePayer payerAmount,
      unique deposits = .ok sweep.deposits ∧
      maxByPayerKey sweep.deposits.toList = some feePayer ∧
      sweep.feePayer = feePayer.1 ∧
      sweep.fee = feePerSignature * UInt64.ofNat sweep.deposits.size ∧
      sweep.minterAddress = minterAddress ∧
      checkedSub feePayer.2.sweepableAmount sweep.fee = some payerAmount ∧
      sweep.transfers = ⟨feePayer.1, feePayer.2.address, payerAmount⟩ ::
        ((sweep.deposits.toList.filter (·.1 ≠ feePayer.1)).insertionSort transferKeyLe).map
          (fun entry => ⟨entry.1, entry.2.address, entry.2.sweepableAmount⟩) ∧
      sweep.expectedReceived = (sweep.transfers.map Transfer.amount).sum := by
  simp only [plan, bind_eq_ok, orPanic_eq_ok, pure_eq_ok] at h
  obtain ⟨result, hunique, feePayer, hpayer, payerAmount, hamount, rfl⟩ := h
  exact ⟨feePayer, payerAmount, hunique, hpayer, rfl, rfl, rfl, hamount, rfl, rfl⟩

def depositCount (sweep : Sweep) : ℕ :=
  sweep.deposits.size

/-- The fees recorded with the deposits of the sweep. -/
def depositFees (sweep : Sweep) : Lamport :=
  (sweep.deposits.toList.map fun entry => entry.2.fee).sum

section Message

variable [SolanaSdk]

/-- One transfer per deposit to the minter address, paid for by the fee payer. -/
def sweepMessage (sweep : Sweep) (recentBlockhash : Hash) : Message :=
  SolanaSdk.newWithBlockhash
    (sweep.transfers.map fun transfer =>
      SolanaSdk.transfer transfer.source sweep.minterAddress transfer.amount)
    (sweep.transfers.head?.map Transfer.source) recentBlockhash

/-- `SweepRecoveryError`. -/
inductive RecoveryError where
  | unexpectedMessage (planned submitted : Message)

/-- Plans the sweep again and checks that the plan builds the submitted message. -/
def recover (deposits : List (DepositSolId × QueuedDeposit)) (minterAddress : Address)
    (submitted : Message) : Except Panic (Except RecoveryError Sweep) := do
  let sweep ← plan deposits minterAddress
  let planned := sweep.sweepMessage submitted.recentBlockhash
  if planned ≠ submitted then
    return .error (.unexpectedMessage planned submitted)
  return .ok sweep

/-- A recovered sweep is the plan of the deposits, and the plan builds the submitted message. -/
theorem recover_eq_ok {minterAddress : Address} {submitted : Message} {sweep : Sweep}
    (h : recover deposits minterAddress submitted = .ok (.ok sweep)) :
    plan deposits minterAddress = .ok sweep ∧
      submitted = sweep.sweepMessage submitted.recentBlockhash := by
  simp only [recover, bind_eq_ok] at h
  obtain ⟨sweep', hplan, h⟩ := h
  split at h
  · cases pure_eq_ok.mp h
  case isFalse heq =>
    obtain rfl := Except.ok.inj (pure_eq_ok.mp h)
    exact ⟨hplan, (not_not.mp heq).symm⟩

end Message

/-! ## Settlement -/

/-- A message as `getTransaction` returns it. -/
inductive FetchedMessage where
  | legacy (message : Message)
  | v0
deriving DecidableEq

/-- The fields of `UiTransactionStatusMeta` that the minter reads. -/
structure TransactionStatusMeta where
  err : Option String
  fee : Lamport
  preBalances : List Lamport
  postBalances : List Lamport
deriving DecidableEq

/-- What settlement sees of a transaction on chain. -/
structure FetchedTransaction where
  message : FetchedMessage
  status : Option TransactionStatusMeta
deriving DecidableEq

/-- Outcomes that tell nothing about the balances. -/
inductive UnreadableOutcome where
  | noMetaField
  | incompleteBalances
deriving DecidableEq

/-- `SweepMintError`. -/
inductive MintError where
  | feesExceedSweepableAmount (depositId : DepositSolId)
      (sweepableAmount feeShare depositFee : Lamport)
deriving DecidableEq

/-- `SweepMismatch`. -/
inductive Mismatch where
  | transactionFailed (error : String)
  | unexpectedMessage
  | unexpectedFee (expected actual : Lamport)
  | unexpectedBalanceChange (address : Address) (pre post expectedDecrease : Lamport)
  | notRentExempt (address : Address) (post : Lamport)
  | mainAccountDebited (pre post : Lamport)
  | unexpectedAmountReceived (expected actual : Lamport)
  | mint (error : MintError)
deriving DecidableEq

/-- `SweepSettlementError`. -/
inductive SettlementError where
  | unreadable (outcome : UnreadableOutcome)
  | mismatch (mismatch : Mismatch)
deriving DecidableEq

/-- A sweep whose outcome matched its plan, with what the minter received and mints for it. -/
structure Settled where
  amountReceived : Lamport
  mints : List CreditedDeposit
deriving DecidableEq

/-- The share of the transaction fee that each deposit bears, rounded up. -/
def feeShare (sweep : Sweep) : Lamport :=
  divCeil sweep.fee (UInt64.ofNat sweep.depositCount)

/-- The mints crediting the deposits: each sweepable amount minus the fee share and the recorded
deposit fee. -/
def mints (sweep : Sweep) : Except MintError (List CreditedDeposit) :=
  sweep.deposits.toList.mapM fun entry => do
    let amountToMint ← orPanic
      ((checkedSub entry.2.sweepableAmount sweep.feeShare).bind (checkedSub · entry.2.fee))
      (.feesExceedSweepableAmount entry.1 entry.2.sweepableAmount sweep.feeShare entry.2.fee)
    return ⟨entry.1, amountToMint⟩

/-- The check of one transfer against the balances of its deposit address. -/
def checkTransfer (sweep : Sweep) (fee : Lamport) (balances : OrdMap Address (Lamport × Lamport))
    (transfer : Transfer) : Except Mismatch PUnit := do
  let (pre, post) ← orPanic balances[transfer.source]? .unexpectedMessage
  let feePaid := if transfer.depositId = sweep.feePayer then fee else 0
  let expectedDecrease := transfer.amount + feePaid
  check (checkedSub pre post = some expectedDecrease)
    (.unexpectedBalanceChange transfer.source pre post expectedDecrease)
  check (rentExemptionThreshold ≤ post) (.notRentExempt transfer.source post)

/-- The checks of the balances of a readable outcome. -/
def settleBalances (sweep : Sweep) (fee : Lamport)
    (balances : OrdMap Address (Lamport × Lamport)) : Except Mismatch Settled := do
  sweep.transfers.forM (sweep.checkTransfer fee balances)
  let (pre, post) ← orPanic balances[sweep.minterAddress]? .unexpectedMessage
  let amountReceived ← orPanic (checkedSub post pre) (.mainAccountDebited pre post)
  check (amountReceived = sweep.expectedReceived)
    (.unexpectedAmountReceived sweep.expectedReceived amountReceived)
  let mints ← sweep.mints.mapError .mint
  return ⟨amountReceived, mints⟩

/-- The balances before and after the transaction, by address. -/
def balancesByAddress (accountKeys : List Address) (status : TransactionStatusMeta) :
    OrdMap Address (Lamport × Lamport) :=
  OrdMap.insertAll ∅ (accountKeys.zip (status.preBalances.zip status.postBalances))

/-- Checks the `getTransaction` output of the sweep against the plan and returns what to credit, or
why the outcome cannot be trusted. -/
def settle [SolanaSdk] (sweep : Sweep) (fetched : FetchedTransaction) :
    Except SettlementError Settled := do
  let status ← orPanic fetched.status (.unreadable .noMetaField)
  if let some error := status.err then
    throw (.mismatch (.transactionFailed error))
  match fetched.message with
  | .v0 => throw (.mismatch .unexpectedMessage)
  | .legacy message =>
      check (message = sweep.sweepMessage message.recentBlockhash)
        (.mismatch .unexpectedMessage)
      check (status.preBalances.length = message.accountKeys.length ∧
          status.postBalances.length = message.accountKeys.length)
        (.unreadable .incompleteBalances)
      check (status.fee ≤ sweep.fee) (.mismatch (.unexpectedFee sweep.fee status.fee))
      (sweep.settleBalances status.fee (balancesByAddress message.accountKeys status)).mapError
        .mismatch

end Sweep

/-! ## Sweeps at one stage -/

/-- The sweep transactions at one stage of the deposit lifecycle, keyed by signature. -/
structure Sweeps where
  bySignature : OrdMap Signature Sweep

namespace Sweeps

variable {signature : Signature} {sweeps : Sweeps} {sweep : Sweep}

def empty : Sweeps := ⟨∅⟩

def get (sweeps : Sweeps) (signature : Signature) : Option Sweep :=
  sweeps.bySignature[signature]?

/-- The sweep of the given deposit, together with the deposit itself. -/
def deposit (sweeps : Sweeps) (depositId : DepositSolId) : Option (Signature × QueuedDeposit) :=
  sweeps.bySignature.toList.findSome? fun entry =>
    (entry.2.deposits[depositId]?).map (entry.1, ·)

/-- Records a sweep none of whose deposits another sweep holds. -/
def insert (sweeps : Sweeps) (signature : Signature) (sweep : Sweep) : Except Panic Sweeps := do
  sweep.deposits.keys.forM fun depositId =>
    check ((sweeps.deposit depositId).isNone) (.depositHeldByAnotherSweep depositId signature)
  check (signature ∉ sweeps.bySignature) (.sweepRecordedTwice signature)
  return ⟨sweeps.bySignature.insert signature sweep⟩

/-- The removed sweep and the others. -/
def remove (sweeps : Sweeps) (signature : Signature) : Option (Sweep × Sweeps) :=
  (sweeps.bySignature[signature]?).map fun sweep => (sweep, ⟨sweeps.bySignature.erase signature⟩)

/-- The sweep with the given signature moves the given deposit. -/
def Holds (sweeps : Sweeps) (depositId : DepositSolId) (signature : Signature)
    (deposit : QueuedDeposit) : Prop :=
  ∃ sweep, sweeps.bySignature[signature]? = some sweep ∧ sweep.deposits[depositId]? = some deposit

theorem deposit_eq_none_iff {depositId : DepositSolId} :
    sweeps.deposit depositId = none ↔
      ∀ signature deposit, ¬ sweeps.Holds depositId signature deposit := by
  rw [deposit, List.findSome?_eq_none_iff]
  constructor
  · rintro hnone signature deposit ⟨sweep, hsweep, hdeposit⟩
    have := hnone (signature, sweep) (OrdMap.mem_toList_iff.mpr hsweep)
    simp [hdeposit] at this
  · rintro hnot ⟨signature, sweep⟩ hmem
    rw [Option.map_eq_none_iff, Option.eq_none_iff_forall_ne_some]
    intro deposit hdeposit
    exact hnot signature deposit ⟨sweep, OrdMap.mem_toList_iff.mp hmem, hdeposit⟩

theorem holds_of_deposit_eq_some {depositId : DepositSolId} {deposit : QueuedDeposit}
    (h : sweeps.deposit depositId = some (signature, deposit)) :
    sweeps.Holds depositId signature deposit := by
  obtain ⟨⟨signature', sweep⟩, hmem, hentry⟩ := List.exists_of_findSome?_eq_some h
  obtain ⟨deposit', hdeposit, heq⟩ := Option.map_eq_some_iff.mp hentry
  obtain ⟨rfl, rfl⟩ := Prod.mk.inj heq
  exact ⟨sweep, OrdMap.mem_toList_iff.mp hmem, hdeposit⟩

/-- A recorded sweep is new, and so are all of its deposits. -/
theorem insert_eq_ok {sweeps sweeps' : Sweeps} (h : sweeps.insert signature sweep = .ok sweeps') :
    sweeps.bySignature[signature]? = none ∧
      (∀ depositId ∈ sweep.deposits, sweeps.deposit depositId = none) ∧
      sweeps' = ⟨sweeps.bySignature.insert signature sweep⟩ := by
  simp only [insert, bind_eq_ok, check_eq_ok, pure_eq_ok] at h
  obtain ⟨⟨⟩, hdeposits, ⟨⟩, hsignature, rfl⟩ := h
  refine ⟨OrdMap.not_mem_iff.mp hsignature, fun depositId hmem => ?_, rfl⟩
  have hkey := forM_eq_ok.mp hdeposits depositId (ExtTreeMap.mem_keys.mpr hmem)
  exact Option.isNone_iff_eq_none.mp (check_eq_ok.mp hkey)

/-- A new sweep of new deposits can be recorded. -/
theorem insert_of_fresh (hsignature : sweeps.bySignature[signature]? = none)
    (hdeposits : ∀ depositId ∈ sweep.deposits, sweeps.deposit depositId = none) :
    sweeps.insert signature sweep = .ok ⟨sweeps.bySignature.insert signature sweep⟩ := by
  simp only [insert, bind_eq_ok, check_eq_ok, pure_eq_ok]
  refine ⟨⟨⟩, forM_eq_ok.mpr fun depositId hmem => ?_, ⟨⟩, OrdMap.not_mem_iff.mpr hsignature, trivial⟩
  rw [check_eq_ok, hdeposits depositId (ExtTreeMap.mem_keys.mp hmem)]
  rfl

theorem remove_of_get (h : sweeps.bySignature[signature]? = some sweep) :
    sweeps.remove signature = some (sweep, ⟨sweeps.bySignature.erase signature⟩) := by
  rw [remove, h]
  rfl

theorem remove_eq_some {sweeps sweeps' : Sweeps}
    (h : sweeps.remove signature = some (sweep, sweeps')) :
    sweeps.bySignature[signature]? = some sweep ∧
      sweeps' = ⟨sweeps.bySignature.erase signature⟩ := by
  obtain ⟨sweep', hsweep, heq⟩ := Option.map_eq_some_iff.mp h
  obtain ⟨rfl, rfl⟩ := Prod.mk.inj heq
  exact ⟨hsweep, rfl⟩

end Sweeps

end Cksol
