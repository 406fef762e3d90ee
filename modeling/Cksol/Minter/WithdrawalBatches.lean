import Cksol.Common.Packing
import Cksol.Minter.Reservations

/-! # The batches that the balance pays for

Collected until it yields nothing more, `withdrawal_batches` packs the pending requests greedily, in the
order of their burn indices and within the balance above the rent exemption threshold.
-/

namespace Cksol

open Std

namespace WithdrawalBatches

variable {batches batches' : WithdrawalBatches} {batch : List WithdrawalRequest} {calls : ℕ}

/-- The iterator after a number of calls. -/
def after (batches : WithdrawalBatches) (calls : ℕ) : WithdrawalBatches :=
  (fun batches => batches.advance.2)^[calls] batches

/-- What a number of calls of `next` yields. -/
def collectWith : ℕ → WithdrawalBatches → List (List WithdrawalRequest)
  | 0, _ => []
  | calls + 1, batches =>
      match batches.next with
      | some (batch, batches) => batch :: collectWith calls batches
      | none => []

/-- `Iterator::collect`; every batch takes a request, so there are no more of them than requests. -/
def collect (batches : WithdrawalBatches) : List (List WithdrawalRequest) :=
  collectWith batches.pendingRequests.length batches

/-- The requests left to batch. -/
def requests (batches : WithdrawalBatches) : List WithdrawalRequest :=
  batches.pendingRequests.map PendingWithdrawalRequest.request

/-! ## One call -/

/-- A request is not taken exactly if the balance is below its amount and the fee, which also covers
the overflow of their sum. -/
theorem bind_checkedSub_eq_none {amount fee available : Lamport} :
    (checkedAdd amount fee).bind (checkedSub available) = none ↔
      available.toNat < amount.toNat + fee.toNat := by
  have havailable := available.toNat_lt
  unfold checkedAdd
  split
  case isTrue hlt =>
    rw [Option.bind_some, checkedSub, ite_eq_right_iff, UInt64.le_iff_toNat_le, toNat_add_of_lt hlt]
    simp only [reduceCtorEq, imp_false, Nat.not_le]
  case isFalse hge =>
    rw [Option.bind_none, eq_self_iff_true, true_iff]
    omega

/-- The loop stops with all slots taken or before a request that the balance does not pay for. -/
theorem fill_stops (slots : ℕ) (reservedFee : Lamport) (batches : WithdrawalBatches) :
    (fill slots reservedFee batches).1.length ≤ slots ∧
      ((fill slots reservedFee batches).1.length < slots →
        ∀ pending ∈ (fill slots reservedFee batches).2.pendingRequests.head?,
          (fill slots reservedFee batches).2.availableBalance.toNat <
            pending.request.amountToTransfer.toNat +
              if (fill slots reservedFee batches).1 = [] then reservedFee.toNat else 0) := by
  induction slots generalizing reservedFee batches with
  | zero => simp [fill]
  | succ slots ih =>
      obtain ⟨pendingRequests, availableBalance⟩ := batches
      cases pendingRequests with
      | nil => simp [fill]
      | cons pending rest =>
          cases hpaid : (checkedAdd pending.request.amountToTransfer reservedFee).bind
              (checkedSub availableBalance) with
          | none => simpa [fill, hpaid] using bind_checkedSub_eq_none.mp hpaid
          | some remaining =>
              obtain ⟨hlength, hstops⟩ := ih 0 ⟨rest, remaining⟩
              simp only [fill, hpaid, List.length_cons, reduceCtorEq, if_false]
              refine ⟨Nat.succ_le_succ hlength, fun hlt next hnext => ?_⟩
              have hnext := hstops (Nat.lt_of_succ_lt_succ hlt) next hnext
              simpa using hnext

/-- A batch is full or stops before a request that the balance left does not pay for. -/
theorem next_stops (h : batches.next = some (batch, batches')) :
    batch.length ≤ maxWithdrawalsPerNonceTx ∧ (batch.length < maxWithdrawalsPerNonceTx →
      ∀ request ∈ batches'.requests.head?,
        batches'.availableBalance.toNat < request.amountToTransfer.toNat) := by
  obtain ⟨hlength, hstops⟩ := fill_stops maxWithdrawalsPerNonceTx batchWithdrawalTxFee batches
  obtain ⟨hne, hfill⟩ := next_eq_some.mp h
  rw [hfill] at hlength hstops
  refine ⟨hlength, fun hlt request hrequest => ?_⟩
  rw [requests, List.head?_map, Option.mem_def, Option.map_eq_some_iff] at hrequest
  obtain ⟨pending, hpending, rfl⟩ := hrequest
  have hnext := hstops hlt pending hpending
  rwa [if_neg hne, Nat.add_zero] at hnext

/-- A call that yields nothing leaves the iterator as it is, before a request that it cannot pay for
with a fee. -/
theorem advance_none (h : batches.advance.1 = none) : batches.advance.2 = batches ∧
    ∀ request ∈ batches.requests.head?,
      batches.availableBalance.toNat < request.amountToTransfer.toNat + batchWithdrawalTxFee.toNat := by
  have hnil : (fill maxWithdrawalsPerNonceTx batchWithdrawalTxFee batches).1 = [] := by
    simpa [advance] using h
  obtain ⟨taken, hpending, htaken, hbalance⟩ :=
    fill_spec maxWithdrawalsPerNonceTx batchWithdrawalTxFee batches
  obtain rfl : taken = [] := by simpa [hnil] using htaken.symm
  rw [if_pos rfl, Nat.add_zero, UInt64.toNat_inj] at hbalance
  have hsame : batches.advance.2 = batches := by
    obtain ⟨pendingRequests, availableBalance⟩ := batches
    dsimp only [advance, List.nil_append] at hpending hbalance ⊢
    rw [WithdrawalBatches.mk.injEq]
    exact ⟨hpending.symm, hbalance⟩
  refine ⟨hsame, fun request hrequest => ?_⟩
  have hstops := (fill_stops maxWithdrawalsPerNonceTx batchWithdrawalTxFee batches).2
  have hleft : (fill maxWithdrawalsPerNonceTx batchWithdrawalTxFee batches).2 = batches := hsame
  rw [hnil, hleft, if_pos rfl, toNat_batchWithdrawalTxFee] at hstops
  rw [requests, List.head?_map, Option.mem_def, Option.map_eq_some_iff] at hrequest
  obtain ⟨pending, hhead, rfl⟩ := hrequest
  exact hstops (by decide) pending hhead

theorem next_eq_none (h : ∀ request ∈ batches.requests.head?,
    batches.availableBalance.toNat < request.amountToTransfer.toNat + batchWithdrawalTxFee.toNat) :
    batches.next = none := by
  obtain ⟨pendingRequests, availableBalance⟩ := batches
  cases pendingRequests with
  | nil => rfl
  | cons pending rest =>
      have hunpaid : (checkedAdd pending.request.amountToTransfer batchWithdrawalTxFee).bind
          (checkedSub availableBalance) = none := bind_checkedSub_eq_none.mpr (h pending.request rfl)
      simp only [next, advance, maxWithdrawalsPerNonceTx, fill]
      rw [hunpaid]
      rfl

/-- A call that yields a batch takes the first requests, and their cost from the balance. -/
theorem requests_of_next (h : batches.next = some (batch, batches')) :
    batches.requests = batch ++ batches'.requests ∧
      batches'.availableBalance.toNat +
          ((batch.map (·.amountToTransfer.toNat)).sum + batchWithdrawalTxFee.toNat) =
        batches.availableBalance.toNat ∧
      batches'.pendingRequests.length < batches.pendingRequests.length := by
  obtain ⟨taken, hne, hpending, rfl, hbalance⟩ := next_spec h
  refine ⟨by rw [requests, hpending, List.map_append, requests], ?_, ?_⟩
  · rw [List.map_map]
    exact hbalance
  · have hpos := List.length_pos_iff.mpr hne
    rw [hpending, List.length_append]
    omega

/-! ## All calls -/

theorem advance_of_next_none (h : batches.next = none) : batches.advance.1 = none := by
  rwa [next, Option.map_eq_none_iff] at h

theorem advance_of_next (h : batches.next = some (batch, batches')) :
    batches.advance = (some batch, batches') := by
  rw [next, Option.map_eq_some_iff] at h
  obtain ⟨batch', hbatch, heq⟩ := h
  obtain ⟨rfl, hleft⟩ := Prod.mk.inj heq
  exact Prod.ext hbatch hleft

theorem after_of_next_none (h : batches.next = none) (calls : ℕ) : batches.after calls = batches :=
  Function.iterate_fixed (advance_none (advance_of_next_none h)).1 calls

theorem after_succ_of_next (h : batches.next = some (batch, batches')) (calls : ℕ) :
    batches.after (calls + 1) = batches'.after calls := by
  rw [after, Function.iterate_succ_apply, advance_of_next h, after]

/-- Enough calls pack the requests greedily. -/
theorem collectWith_packing (h : batches.pendingRequests.length ≤ calls) :
    GreedyPacking (fun request : WithdrawalRequest => request.amountToTransfer.toNat)
      maxWithdrawalsPerNonceTx batchWithdrawalTxFee.toNat batches.availableBalance.toNat batches.requests
      (collectWith calls batches) := by
  induction calls generalizing batches with
  | zero =>
      have hnil : batches.pendingRequests = [] := List.length_eq_zero_iff.mp (Nat.le_zero.mp h)
      exact .nil (by simp [requests, hnil])
  | succ calls ih =>
      unfold collectWith
      split
      case h_1 batch batches' hnext =>
        obtain ⟨hrequests, hbalance, hlength⟩ := requests_of_next hnext
        obtain ⟨hle, hstops⟩ := next_stops hnext
        have hrest := @ih batches' (by omega)
        rw [hrequests]
        rcases hle.lt_or_eq with hlt | hfull
        · -- the batch stopped early, so the next call yields nothing
          have hunpaid := hstops hlt
          have hlast : batches'.next = none := next_eq_none fun request hrequest => by
            have := hunpaid request hrequest
            omega
          have hnone : collectWith calls batches' = [] := by
            cases calls with
            | zero => rfl
            | succ calls => simp [collectWith, hlast]
          rw [hnone]
          refine .singleton ?_ hlt (by omega) fun request hrequest => ?_
          · obtain ⟨taken, hne, -, rfl, -⟩ := next_spec hnext
            simpa using hne
          · have := hunpaid request hrequest
            omega
        · refine .cons (by decide) hfull (by omega) ?_
          rwa [show batches.availableBalance.toNat - ((batch.map (·.amountToTransfer.toNat)).sum +
            batchWithdrawalTxFee.toNat) = batches'.availableBalance.toNat by omega]
      case h_2 hnext => exact .nil (advance_none (advance_of_next_none hnext)).2

/-- What the calls yield is what is collected, and nothing afterwards. -/
theorem advance_after (h : batches.pendingRequests.length ≤ calls) (i : ℕ) :
    (batches.after i).advance.1 = (collectWith calls batches)[i]? := by
  induction calls generalizing batches i with
  | zero =>
      have hnil : batches.pendingRequests = [] := List.length_eq_zero_iff.mp (Nat.le_zero.mp h)
      have hnext : batches.next = none := next_eq_none (by simp [requests, hnil])
      rw [after_of_next_none hnext, advance_of_next_none hnext]
      rfl
  | succ calls ih =>
      unfold collectWith
      split
      case h_1 batch batches' hnext =>
        cases i with
        | zero => rw [after, Function.iterate_zero_apply, advance_of_next hnext, List.getElem?_cons_zero]
        | succ i =>
            obtain ⟨-, -, hlength⟩ := requests_of_next hnext
            rw [after_succ_of_next hnext, List.getElem?_cons_succ]
            exact ih (by omega) i
      case h_2 hnext =>
        rw [after_of_next_none hnext, advance_of_next_none hnext]
        rfl

/-- The balance left is exactly what the batches do not cost. -/
theorem availableBalance_after (batches : WithdrawalBatches) :
    (batches.after (collectWith calls batches).length).availableBalance.toNat +
      packingCost (fun request : WithdrawalRequest => request.amountToTransfer.toNat)
        batchWithdrawalTxFee.toNat (collectWith calls batches) = batches.availableBalance.toNat := by
  induction calls generalizing batches with
  | zero => rfl
  | succ calls ih =>
      unfold collectWith
      split
      case h_1 batch batches' hnext =>
        obtain ⟨-, hbalance, -⟩ := requests_of_next hnext
        have hrest := ih batches'
        rw [List.length_cons, after_succ_of_next hnext, GreedyPacking.packingCost_cons]
        omega
      case h_2 => rfl

end WithdrawalBatches

/-! ## The batches of a state -/

/-- What collecting `withdrawal_batches` yields. -/
structure State.BatchesGreedily (state : State) : Prop where
  /-- The requests are batched in the order of their burn indices. -/
  ordered : (state.pendingWithdrawalRequests.toList.map Prod.fst).Pairwise (· < ·) ∧
    state.withdrawalBatches.requests =
      state.pendingWithdrawalRequests.toList.map (·.2.request)
  /-- The batches are the longest affordable run of first requests. -/
  packing : GreedyPacking (fun request : WithdrawalRequest => request.amountToTransfer.toNat)
    maxWithdrawalsPerNonceTx batchWithdrawalTxFee.toNat
    (state.balance.toNat - rentExemptionThreshold.toNat) state.withdrawalBatches.requests
    state.withdrawalBatches.collect
  /-- The calls yield the batches one after the other. -/
  yields : ∀ i, (state.withdrawalBatches.after i).advance.1 = state.withdrawalBatches.collect[i]?
  /-- Once a call yields nothing, no later one does. -/
  fused : ∀ i j, i ≤ j → (state.withdrawalBatches.after i).advance.1 = none →
    (state.withdrawalBatches.after j).advance.1 = none
  /-- No subtraction or addition of the calls wraps. -/
  exact : (state.withdrawalBatches.after state.withdrawalBatches.collect.length).availableBalance.toNat +
    packingCost (fun request : WithdrawalRequest => request.amountToTransfer.toNat)
      batchWithdrawalTxFee.toNat state.withdrawalBatches.collect =
      state.balance.toNat - rentExemptionThreshold.toNat

theorem State.batchesGreedily (state : State) : state.BatchesGreedily := by
  have hbalance : state.withdrawalBatches.availableBalance.toNat =
      state.balance.toNat - rentExemptionThreshold.toNat := toNat_saturatingSub _ _
  have hyields := WithdrawalBatches.advance_after
    (Nat.le_refl state.withdrawalBatches.pendingRequests.length)
  constructor
  case ordered =>
    constructor
    · rw [List.pairwise_map]
      exact ExtTreeMap.ordered_keys_toList.imp fun h => Nat.compare_eq_lt.mp h
    · rw [WithdrawalBatches.requests, State.withdrawalBatches, OrdMap.values, List.map_map]
      rfl
  case packing =>
    rw [← hbalance]
    exact WithdrawalBatches.collectWith_packing (Nat.le_refl _)
  case yields => exact hyields
  case fused =>
    intro i j hle hnone
    rw [hyields, List.getElem?_eq_none_iff] at hnone ⊢
    omega
  case exact =>
    rw [← hbalance]
    exact WithdrawalBatches.availableBalance_after _

end Cksol
