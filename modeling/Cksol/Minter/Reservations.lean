import Mathlib.Algebra.Order.BigOperators.Group.List
import Mathlib.Algebra.Order.Group.Nat
import Mathlib.Data.List.Perm.Basic
import Cksol.Minter.Runs
import Cksol.State.Debits

/-! # The batches of a withdrawal round

A round reserves its batches from one snapshot of the state and creates them later, in any order, with
some of them dropped. Until then their requests stay pending as they were, and the balance keeps
covering what the remaining batches cost.
-/

namespace Cksol

open Std

namespace ReservedBatch

def burnIndices (batch : ReservedBatch) : List LedgerBurnIndex :=
  batch.requests.map WithdrawalRequest.burnBlockIndex

/-- The transfers of the batch and the fee of its transaction. -/
def cost (batch : ReservedBatch) : ℕ :=
  (batch.requests.map (·.amountToTransfer.toNat)).sum + batchWithdrawalTxFee.toNat

end ReservedBatch

/-! ## Batches taken from a snapshot -/

namespace WithdrawalBatches

/-- The loop takes the first requests, as far as the balance pays for them; the fee is paid with the
first one. -/
theorem fill_spec (slots : ℕ) (reservedFee : Lamport) (batches : WithdrawalBatches) :
    ∃ taken, batches.pendingRequests =
        taken ++ (fill slots reservedFee batches).2.pendingRequests ∧
      (fill slots reservedFee batches).1 = taken.map PendingWithdrawalRequest.request ∧
      (fill slots reservedFee batches).2.availableBalance.toNat +
        (if taken = [] then 0 else (taken.map State.transferAmount).sum + reservedFee.toNat) =
          batches.availableBalance.toNat := by
  induction slots generalizing reservedFee batches with
  | zero => exact ⟨[], by simp [fill]⟩
  | succ slots ih =>
      obtain ⟨pendingRequests, availableBalance⟩ := batches
      cases pendingRequests with
      | nil => exact ⟨[], by simp [fill]⟩
      | cons pending rest =>
          cases hpaid : (checkedAdd pending.request.amountToTransfer reservedFee).bind
              (checkedSub availableBalance) with
          | none => exact ⟨[], by simp [fill, hpaid]⟩
          | some remaining =>
              obtain ⟨cost, hcost, hremaining⟩ := Option.bind_eq_some_iff.mp hpaid
              rw [checkedAdd_eq_some] at hcost
              rw [checkedSub_eq_some] at hremaining
              -- the fee is paid with this request, so the rest is filled without one
              obtain ⟨taken, hrest, hrequests, hbalance⟩ := ih 0 ⟨rest, remaining⟩
              refine ⟨pending :: taken, ?_, ?_, ?_⟩
              · simp only [fill, hpaid, List.cons_append]
                rw [← hrest]
              · simp only [fill, hpaid, hrequests, List.map_cons]
              · simp only [fill, hpaid, reduceCtorEq, if_false, List.map_cons, List.sum_cons,
                  State.transferAmount] at hbalance ⊢
                split at hbalance
                case isTrue hnil =>
                  subst hnil
                  simp only [List.map_nil, List.sum_nil]
                  omega
                case isFalse =>
                  simp only [UInt64.toNat_zero] at hbalance
                  omega

theorem next_spec {batches batches' : WithdrawalBatches} {requests : List WithdrawalRequest}
    (h : batches.next = some (requests, batches')) :
    ∃ taken, taken ≠ [] ∧ batches.pendingRequests = taken ++ batches'.pendingRequests ∧
      requests = taken.map PendingWithdrawalRequest.request ∧
      batches'.availableBalance.toNat +
          ((taken.map State.transferAmount).sum + batchWithdrawalTxFee.toNat) =
        batches.availableBalance.toNat := by
  obtain ⟨taken, hpending, hrequests, hbalance⟩ :=
    fill_spec maxWithdrawalsPerNonceTx batchWithdrawalTxFee batches
  obtain ⟨hne, hfill⟩ := next_eq_some.mp h
  rw [hfill] at hpending hrequests hbalance
  have htaken : taken ≠ [] := by
    rintro rfl
    exact hne hrequests
  rw [if_neg htaken] at hbalance
  exact ⟨taken, htaken, hpending, hrequests, hbalance⟩

end WithdrawalBatches

/-- The reserved batches hold the first requests between them, none is empty, and the balance pays for
all of them. -/
theorem reserveBatches_spec (accounts : List Address) (batches : WithdrawalBatches) :
    ∃ taken, taken <+: batches.pendingRequests ∧
      (reserveBatches accounts batches).flatMap ReservedBatch.requests =
        taken.map PendingWithdrawalRequest.request ∧
      (∀ batch ∈ reserveBatches accounts batches, batch.requests ≠ []) ∧
      ((reserveBatches accounts batches).map ReservedBatch.cost).sum ≤
        batches.availableBalance.toNat := by
  induction accounts generalizing batches with
  | nil => exact ⟨[], List.nil_prefix, rfl, by simp [reserveBatches], Nat.zero_le _⟩
  | cons nonceAccount accounts ih =>
      unfold reserveBatches
      split
      case h_1 requests batches' hnext =>
        obtain ⟨first, hne, hpending, rfl, hbalance⟩ := WithdrawalBatches.next_spec hnext
        obtain ⟨taken, hextends, hflat, hnonempty, hcost⟩ := ih batches'
        refine ⟨first ++ taken, ?_, ?_, ?_, ?_⟩
        · rw [hpending]
          exact List.prefix_append_right_inj _ |>.mpr hextends
        · rw [List.flatMap_cons, hflat, List.map_append]
        · intro batch hmem
          rcases List.mem_cons.mp hmem with rfl | hmem
          · simpa using hne
          · exact hnonempty batch hmem
        · have hfirst : ReservedBatch.cost ⟨nonceAccount, first.map PendingWithdrawalRequest.request⟩ =
              (first.map State.transferAmount).sum + batchWithdrawalTxFee.toNat := by
            rw [ReservedBatch.cost, List.map_map]
            rfl
          rw [List.map_cons, List.sum_cons, hfirst]
          omega
      case h_2 => exact ⟨[], List.nil_prefix, rfl, by simp, Nat.zero_le _⟩

/-! ## Batches that wait to be created -/

/-- The requests of the batches are pending as they were reserved, each in one batch only. -/
structure State.Reserves (state : State) (batches : List ReservedBatch) : Prop where
  pending : ∀ batch ∈ batches, ∀ request ∈ batch.requests, ∃ createdAt,
    state.pendingWithdrawalRequests[request.burnBlockIndex]? = some ⟨request, createdAt⟩
  disjoint : batches.Pairwise fun batch batch' =>
    batch.burnIndices.Disjoint batch'.burnIndices
  nonempty : ∀ batch ∈ batches, batch.requests ≠ []
  fits : ∀ batch ∈ batches, batch.cost < 2 ^ 64

/-- The balance pays for all batches and keeps the rent exemption threshold. -/
def State.Affords (state : State) (batches : List ReservedBatch) : Prop :=
  batches ≠ [] →
    rentExemptionThreshold.toNat + (batches.map ReservedBatch.cost).sum ≤ state.balance.toNat

namespace State

variable {state state' : State} {batches batches' : List ReservedBatch} {log : List Event}

theorem burnIndices_values (hrecorded : PendingRecorded log state) :
    state.pendingWithdrawalRequests.values.map (·.request.burnBlockIndex) =
      state.pendingWithdrawalRequests.keys := by
  rw [OrdMap.values, List.map_map, ← ExtTreeMap.map_fst_toList_eq_keys]
  refine List.map_congr_left fun entry hentry => ?_
  exact hrecorded.keyed (OrdMap.mem_toList_iff.mp hentry)

/-- The reserved batches hold the first pending requests between them, each once. -/
theorem reservedBatches_spec (hrecorded : PendingRecorded log state) :
    ∃ taken, taken <+: state.pendingWithdrawalRequests.values ∧
      state.reservedBatches.flatMap ReservedBatch.requests =
        taken.map PendingWithdrawalRequest.request ∧
      (state.reservedBatches.flatMap ReservedBatch.burnIndices).Nodup ∧
      (∀ batch ∈ state.reservedBatches, batch.requests ≠ []) ∧
      (state.reservedBatches.map ReservedBatch.cost).sum ≤
        (saturatingSub state.balance rentExemptionThreshold).toNat := by
  obtain ⟨taken, hextends, hflat, hnonempty, hcost⟩ := reserveBatches_spec
    (state.noncePool.freeAccounts.take
      (min maxConcurrentRpcCalls (maxConcurrentSignatures - state.createdWithdrawalTxs.size)))
    state.withdrawalBatches
  refine ⟨taken, hextends, hflat, ?_, hnonempty, hcost⟩
  have hindices : state.reservedBatches.flatMap ReservedBatch.burnIndices =
      taken.map (·.request.burnBlockIndex) := by
    have hmap := congrArg (List.map WithdrawalRequest.burnBlockIndex) hflat
    rw [List.map_flatMap, List.map_map] at hmap
    exact hmap
  rw [hindices]
  refine ((hextends.map _).sublist).nodup ?_
  rw [withdrawalBatches, burnIndices_values hrecorded]
  exact OrdMap.nodup_keys _

/-- What a round reserves from the state it starts in. -/
theorem reserves_reservedBatches (hrecorded : PendingRecorded log state) :
    state.Reserves state.reservedBatches ∧ state.Affords state.reservedBatches := by
  obtain ⟨taken, hextends, hflat, hnodup, hnonempty, hcost⟩ := reservedBatches_spec hrecorded
  generalize state.reservedBatches = batches at *
  refine ⟨⟨?_, (List.nodup_flatMap.mp hnodup).2, hnonempty, ?_⟩, ?_⟩
  · intro batch hbatch request hrequest
    have hmem : request ∈ taken.map PendingWithdrawalRequest.request := by
      rw [← hflat]
      exact List.mem_flatMap_of_mem hbatch hrequest
    obtain ⟨pending, hpending, rfl⟩ := List.mem_map.mp hmem
    obtain ⟨i, hi⟩ := OrdMap.mem_values_iff.mp (hextends.subset hpending)
    refine ⟨pending.createdAt, ?_⟩
    rw [hrecorded.keyed hi, hi]
  · intro batch hbatch
    have hle : batch.cost ≤ (batches.map ReservedBatch.cost).sum :=
      List.le_sum_of_mem (List.mem_map_of_mem hbatch)
    exact (hle.trans hcost).trans_lt (UInt64.toNat_lt _)
  · intro hne
    obtain ⟨batch, hbatch⟩ := List.exists_mem_of_ne_nil batches hne
    have hle : batch.cost ≤ (batches.map ReservedBatch.cost).sum :=
      List.le_sum_of_mem (List.mem_map_of_mem hbatch)
    have hpos : batchWithdrawalTxFee.toNat ≤ batch.cost := Nat.le_add_left _ _
    rw [toNat_saturatingSub] at hcost
    rw [toNat_batchWithdrawalTxFee] at hpos
    omega

namespace Reserves

theorem sublist (h : state.Reserves batches) (hsub : batches'.Sublist batches) :
    state.Reserves batches' where
  pending batch hbatch := h.pending batch (hsub.subset hbatch)
  disjoint := h.disjoint.sublist hsub
  nonempty batch hbatch := h.nonempty batch (hsub.subset hbatch)
  fits batch hbatch := h.fits batch (hsub.subset hbatch)

/-- The transfers of a reserved batch are those of the pending requests. -/
theorem cost_eq (h : state.Reserves batches) {batch : ReservedBatch} (hbatch : batch ∈ batches) :
    (batch.burnIndices.map (state.pendingWithdrawalRequests.weightAt transferAmount)).sum +
      batchWithdrawalTxFee.toNat = batch.cost := by
  have hmap : batch.burnIndices.map (state.pendingWithdrawalRequests.weightAt transferAmount) =
      batch.requests.map (·.amountToTransfer.toNat) := by
    rw [ReservedBatch.burnIndices, List.map_map]
    refine List.map_congr_left fun request hrequest => ?_
    obtain ⟨createdAt, hpending⟩ := h.pending batch hbatch request hrequest
    rw [Function.comp_apply, OrdMap.weightAt, hpending]
    rfl
  rw [hmap, ReservedBatch.cost]

variable [SolanaSdk] {timestamp : Timestamp} {payload : EventType}

/-- Only a created transaction takes requests out of the pending ones. -/
theorem effect (h : state.Reserves batches) (heffect : state.Effect timestamp payload state')
    (hcreated : ∀ burnIndices account value,
      payload ≠ .createdWithdrawalTransaction burnIndices account value) :
    state'.Reserves batches := by
  refine ⟨fun batch hbatch request hrequest => ?_, h.disjoint, h.nonempty, h.fits⟩
  obtain ⟨createdAt, hpending⟩ := h.pending batch hbatch request hrequest
  refine ⟨createdAt, ?_⟩
  cases heffect with
  | @acceptedWithdrawal accepted hnew =>
      have hne : accepted.burnBlockIndex ≠ request.burnBlockIndex := by
        intro heq
        rw [heq, hpending] at hnew
        cases hnew
      rw [OrdMap.getElem?_insert_eq, if_neg hne]
      exact hpending
  | createdWithdrawal => exact absurd rfl (hcreated _ _ _)
  | _ => exact hpending

/-- What a run without created transactions leaves. -/
theorem run {Emits : State → Timestamp → EventType → Prop} {canister canister' : Canister}
    (h : canister.state.Reserves batches) (hrun : Canister.Run Emits canister canister')
    (hcreated : ∀ state t burnIndices account value,
      ¬ Emits state t (.createdWithdrawalTransaction burnIndices account value)) :
    canister'.state.Reserves batches := by
  refine hrun.invariant (fun canister => canister.state.Reserves batches) ?_ ?_ h
  · exact fun canister transient h => ⟨h.pending, h.disjoint, h.nonempty, h.fits⟩
  · rintro state log now payload state' hemits h heffect
    refine h.effect heffect ?_
    rintro burnIndices account value rfl
    exact hcreated _ _ _ _ _ hemits

/-- A created batch leaves the others as they were. -/
theorem create (h : state.Reserves batches) {position : ℕ} {batch : ReservedBatch}
    (hbatch : batches[position]? = some batch) {account : Address} {value : Hash}
    (heffect : state.Effect timestamp
      (.createdWithdrawalTransaction batch.burnIndices account value) state') :
    state'.Reserves (batches.eraseIdx position) := by
  obtain ⟨hposition, rfl⟩ := List.getElem?_eq_some_iff.mp hbatch
  have hperm := List.getElem_cons_eraseIdx_perm hposition
  have hdisjoint := (hperm.symm.pairwise_iff List.disjoint_symm).mp h.disjoint
  have hrest := h.sublist (List.eraseIdx_sublist (l := batches) (k := position))
  refine ⟨fun other hother request hrequest => ?_, hrest.disjoint, hrest.nonempty, hrest.fits⟩
  obtain ⟨createdAt, hpending⟩ := hrest.pending other hother request hrequest
  refine ⟨createdAt, ?_⟩
  cases heffect with
  | createdWithdrawal haccount hunseen hmoved =>
      rw [hmoved.source_of_notMem]
      · exact hpending
      · intro hmem
        exact (List.pairwise_cons.mp hdisjoint).1 other hother hmem (List.mem_map_of_mem hrequest)

end Reserves

end State

end Cksol
