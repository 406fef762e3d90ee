import Cksol.State.Effects

/-! # What created transactions debit

The log alone determines what each created withdrawal transaction takes from the balance: the amounts
of the requests it serves, as they were accepted, and the fee of one transaction.
-/

namespace Cksol

open Std

/-- The cost of a created transaction, with the nonce value that it carries. -/
structure Debit where
  nonceAccount : Address
  nonceValue : Hash
  amount : ℕ
deriving DecidableEq

/-- What a log says about withdrawals: the amount of the latest request accepted under each burn
index, and the debits of the created transactions. -/
structure WithdrawalRecord where
  transfers : OrdMap LedgerBurnIndex Lamport
  debits : List Debit

namespace WithdrawalRecord

def empty : WithdrawalRecord := ⟨∅, []⟩

/-- The amounts of a batch and the fee of its transaction. -/
def cost (record : WithdrawalRecord) (burnIndices : List LedgerBurnIndex) : ℕ :=
  (burnIndices.map (record.transfers.weightAt UInt64.toNat)).sum + batchWithdrawalTxFee.toNat

def apply (record : WithdrawalRecord) : EventType → WithdrawalRecord
  | .acceptedWithdrawalRequest request => { record with
      transfers := record.transfers.insert request.burnBlockIndex request.amountToTransfer }
  | .createdWithdrawalTransaction burnIndices nonceAccount nonceValue => { record with
      debits := record.debits ++ [⟨nonceAccount, nonceValue, record.cost burnIndices⟩] }
  | _ => record

end WithdrawalRecord

/-- The accepted transfers and the debits, as the events of the log record them. -/
def withdrawalRecord (log : List Event) : WithdrawalRecord :=
  log.foldl (fun record event => record.apply event.payload) .empty

/-- The debits of all created transactions. -/
def createdDebits (log : List Event) : List Debit :=
  (withdrawalRecord log).debits

/-- What the created transactions cost. -/
def totalDebited (log : List Event) : ℕ :=
  ((createdDebits log).map Debit.amount).sum

section Append

variable {log : List Event} {timestamp : Timestamp} {payload : EventType}

theorem withdrawalRecord_append :
    withdrawalRecord (log ++ [⟨timestamp, payload⟩]) = (withdrawalRecord log).apply payload := by
  rw [withdrawalRecord, List.foldl_append]
  rfl

theorem createdDebits_append_created {burnIndices : List LedgerBurnIndex} {nonceAccount : Address}
    {nonceValue : Hash} :
    createdDebits (log ++ [⟨timestamp,
      .createdWithdrawalTransaction burnIndices nonceAccount nonceValue⟩]) =
      createdDebits log ++ [⟨nonceAccount, nonceValue, (withdrawalRecord log).cost burnIndices⟩] := by
  rw [createdDebits, withdrawalRecord_append]
  rfl

/-- Only a created transaction debits anything. -/
theorem createdDebits_append_of_not (h : ∀ burnIndices nonceAccount nonceValue,
    payload ≠ .createdWithdrawalTransaction burnIndices nonceAccount nonceValue) :
    createdDebits (log ++ [⟨timestamp, payload⟩]) = createdDebits log := by
  rw [createdDebits, withdrawalRecord_append]
  cases payload with
  | createdWithdrawalTransaction burnIndices nonceAccount nonceValue => exact absurd rfl (h _ _ _)
  | _ => rfl

/-- Later events only add debits. -/
theorem exists_createdDebits_append (log new : List Event) :
    ∃ debits, createdDebits (log ++ new) = createdDebits log ++ debits := by
  induction new generalizing log with
  | nil => exact ⟨[], by rw [List.append_nil, List.append_nil]⟩
  | cons event new ih =>
      rw [List.append_cons]
      obtain ⟨debits, hdebits⟩ := ih (log ++ [event])
      rw [hdebits]
      cases hpayload : event.payload with
      | createdWithdrawalTransaction burnIndices nonceAccount nonceValue =>
          refine ⟨⟨nonceAccount, nonceValue, (withdrawalRecord log).cost burnIndices⟩ :: debits, ?_⟩
          rw [createdDebits, withdrawalRecord_append, hpayload, List.append_cons]
          rfl
      | _ =>
          refine ⟨debits, ?_⟩
          rw [createdDebits, withdrawalRecord_append, hpayload]
          rfl

end Append

/-! ## Pending requests -/

/-- A pending request is the one that the log accepted last under its burn index. -/
structure PendingRecorded (log : List Event) (state : State) : Prop where
  keyed : ∀ {i : LedgerBurnIndex} {pending : PendingWithdrawalRequest},
    state.pendingWithdrawalRequests[i]? = some pending → pending.request.burnBlockIndex = i
  amount : ∀ {i : LedgerBurnIndex} {pending : PendingWithdrawalRequest},
    state.pendingWithdrawalRequests[i]? = some pending →
    (withdrawalRecord log).transfers[i]? = some pending.request.amountToTransfer

namespace PendingRecorded

variable [SolanaSdk] {log : List Event} {state state' : State} {timestamp : Timestamp}
  {payload : EventType}

omit [SolanaSdk] in
/-- An event after which no other request is pending. -/
theorem frame (h : PendingRecorded log state)
    (hpending : ∀ {i : LedgerBurnIndex} {pending : PendingWithdrawalRequest},
      state'.pendingWithdrawalRequests[i]? = some pending →
      state.pendingWithdrawalRequests[i]? = some pending)
    (htransfers : ((withdrawalRecord log).apply payload).transfers =
      (withdrawalRecord log).transfers) :
    PendingRecorded (log ++ [⟨timestamp, payload⟩]) state' := by
  refine ⟨fun hget => h.keyed (hpending hget), fun hget => ?_⟩
  rw [withdrawalRecord_append, htransfers]
  exact h.amount (hpending hget)

theorem effect (h : PendingRecorded log state) (heffect : state.Effect timestamp payload state') :
    PendingRecorded (log ++ [⟨timestamp, payload⟩]) state' := by
  cases heffect with
  | @acceptedWithdrawal request hnew =>
      refine ⟨fun {i pending} hget => ?_, fun {i pending} hget => ?_⟩
      · rw [OrdMap.getElem?_insert_eq] at hget
        split at hget
        case isTrue heq =>
          obtain rfl := Option.some.inj hget
          exact heq
        case isFalse => exact h.keyed hget
      · rw [withdrawalRecord_append, WithdrawalRecord.apply, OrdMap.getElem?_insert_eq]
        rw [OrdMap.getElem?_insert_eq] at hget
        split at hget
        case isTrue heq =>
          obtain rfl := Option.some.inj hget
          rw [if_pos heq]
        case isFalse hne =>
          rw [if_neg hne]
          exact h.amount hget
  | createdWithdrawal haccount hunseen hmoved htotal hbalance hnew =>
      refine h.frame (fun {i pending} hget => ?_) rfl
      rwa [← hmoved.source_of_notMem i (hmoved.not_mem_of_present hget)]
  | _ => exact h.frame id rfl

theorem run {Emits : State → Timestamp → EventType → Prop} {canister canister' : Canister}
    (h : PendingRecorded canister.log canister.state)
    (hrun : Canister.Run Emits canister canister') :
    PendingRecorded canister'.log canister'.state := by
  refine hrun.invariant (fun canister => PendingRecorded canister.log canister.state) ?_ ?_ h
  · exact fun canister transient h => ⟨h.keyed, h.amount⟩
  · exact fun state log now payload state' _ h heffect => h.effect heffect

theorem of_init {canister : Canister} {args : InitArgs} {now : Timestamp}
    (h : Canister.init args now = .ok canister) : PendingRecorded canister.log canister.state := by
  obtain ⟨_, pool, -, -, rfl⟩ := Canister.exists_of_init h
  exact ⟨by simp, by simp⟩

omit [SolanaSdk] in
/-- The cost of a batch of pending requests. -/
theorem cost_eq (h : PendingRecorded log state) {burnIndices : List LedgerBurnIndex}
    (hpresent : ∀ i ∈ burnIndices, ∃ pending, state.pendingWithdrawalRequests[i]? = some pending) :
    (withdrawalRecord log).cost burnIndices =
      (burnIndices.map (state.pendingWithdrawalRequests.weightAt State.transferAmount)).sum +
        batchWithdrawalTxFee.toNat := by
  have hmap : burnIndices.map ((withdrawalRecord log).transfers.weightAt UInt64.toNat) =
      burnIndices.map (state.pendingWithdrawalRequests.weightAt State.transferAmount) := by
    refine List.map_congr_left fun i hi => ?_
    obtain ⟨pending, hpending⟩ := hpresent i hi
    rw [OrdMap.weightAt, OrdMap.weightAt, h.amount hpending, hpending]
    rfl
  rw [WithdrawalRecord.cost, hmap, toNat_batchWithdrawalTxFee]

end PendingRecorded

end Cksol
