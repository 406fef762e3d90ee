import Mathlib.Data.List.Infix
import Cksol.Minter.Payouts
import Cksol.Minter.RentFloor
import Cksol.Minter.TaskGuards
import Cksol.State.CreationOrder
import Cksol.State.Statuses

/-! # Rounds that create withdrawal transactions

A round reserves nonce accounts, requests and balance in one snapshot. Nothing that happens before a
batch is created takes any of them away, so none of its events panics.
-/

namespace Cksol

open Std Canister

variable {batch : ReservedBatch} {minterId : Principal} {args : InitArgs}

/-! ## Lamports -/

/-- The lamports that sweeps brought in and no created transaction took stay below `2 ^ 64`, as the
supply of SOL does. -/
def SupplyFits (log : List Event) : Prop :=
  ∀ done ∈ log.inits, totalReceived done < totalDebited done + 2 ^ 64

instance (log : List Event) : Decidable (SupplyFits log) :=
  inferInstanceAs (Decidable (∀ done ∈ log.inits, _))

theorem SupplyFits.of_append {log new : List Event} (h : SupplyFits (log ++ new)) : SupplyFits log :=
  fun done hdone => h done ((List.mem_inits _ _).mpr
    (((List.mem_inits _ _).mp hdone).trans (List.prefix_append log new)))

theorem SupplyFits.lt {log : List Event} (h : SupplyFits log) :
    totalReceived log < totalDebited log + 2 ^ 64 :=
  h log ((List.mem_inits _ _).mpr List.prefix_rfl)

theorem totalDebited_append_of_not {log : List Event} {timestamp : Timestamp} {payload : EventType}
    (h : ∀ burnIndices account value,
      payload ≠ .createdWithdrawalTransaction burnIndices account value) :
    totalDebited (log ++ [⟨timestamp, payload⟩]) = totalDebited log := by
  rw [totalDebited, createdDebits_append_of_not h, totalDebited]

section Balance

variable [SolanaSdk] {canister canister' : Canister}

/-- The balance is accounted for as long as it does not overflow. -/
theorem Canister.BalanceAccounted.run_of_supply
    (hpending : PendingRecorded canister.log canister.state) (h : canister.BalanceAccounted)
    (hrun : Run Emits canister canister') (hfits : SupplyFits canister'.log) :
    canister'.BalanceAccounted := by
  refine (hrun.invariant (fun canister => PendingRecorded canister.log canister.state ∧
    (SupplyFits canister.log → canister.BalanceAccounted)) ?_ ?_ ⟨hpending, fun _ => h⟩).2 hfits
  · exact fun canister transient ⟨hpending, h⟩ => ⟨⟨hpending.keyed, hpending.amount⟩, h⟩
  · rintro state log now payload state' hemits ⟨hpending, h⟩ heffect
    refine ⟨hpending.effect heffect, fun hfits => ?_⟩
    have hbefore := h hfits.of_append
    have hafter := hfits.lt
    have hbalance := (hemits.balance hpending heffect).2
    simp only [BalanceAccounted, totalReceived_append, totalReceived_singleton] at *
    have hlt : state.balance.toNat + payload.amountReceived < 2 ^ 64 := by
      cases payload with
      | creditedSweep =>
          rw [totalDebited_append_of_not (by simp)] at hafter
          omega
      | _ => exact state.balance.toNat_lt
    have heq := hbalance hlt
    omega

/-- Without created transactions the balance does not go down. -/
theorem Canister.balance_le_of_run {Emits : State → Timestamp → EventType → Prop}
    (hrun : Run Emits canister canister')
    (hcreated : ∀ state t burnIndices account value,
      ¬ Emits state t (.createdWithdrawalTransaction burnIndices account value))
    (h : canister.BalanceAccounted) (h' : canister'.BalanceAccounted) :
    canister.state.balance.toNat ≤ canister'.state.balance.toNat := by
  obtain ⟨new, hlog, hnew⟩ := hrun.log_append
  have hdebited : totalDebited canister'.log = totalDebited canister.log := by
    rw [hlog]
    clear hlog
    induction new using List.reverseRecOn with
    | nil => rw [List.append_nil]
    | append_singleton new event ih =>
        rw [← List.append_assoc, totalDebited_append_of_not, ih fun event hevent =>
          hnew event (List.mem_append_left _ hevent)]
        intro burnIndices account value heq
        obtain ⟨state, hemits⟩ := hnew event (List.mem_append_right _ (List.mem_singleton_self _))
        exact hcreated _ _ _ _ _ (heq ▸ hemits)
  have hreceived := totalReceived_append canister.log new
  rw [← hlog] at hreceived
  simp only [BalanceAccounted] at h h'
  omega

end Balance

/-! ## Accounts and requests of the batches -/

/-- Batches with distinct free accounts, for which there is room among the created transactions. -/
structure State.Ready (state : State) (batches : List ReservedBatch) : Prop where
  accounts : (batches.map ReservedBatch.nonceAccount).Nodup
  free : ∀ batch ∈ batches, state.noncePool.IsFree batch.nonceAccount
  indices : ∀ batch ∈ batches, batch.burnIndices.Nodup
  room : state.createdWithdrawalTxs.size + batches.length ≤ maxConcurrentSignatures

theorem reserveBatches_accounts (accounts : List Address) (batches : WithdrawalBatches) :
    (reserveBatches accounts batches).map ReservedBatch.nonceAccount <+: accounts := by
  induction accounts generalizing batches with
  | nil => exact List.nil_prefix
  | cons nonceAccount accounts ih =>
      unfold reserveBatches
      split
      · rw [List.map_cons]
        exact List.cons_prefix_cons.mpr ⟨rfl, ih _⟩
      · exact List.nil_prefix

namespace DurableNoncePool

variable {pool : DurableNoncePool}

theorem nodup_freeAccounts : pool.freeAccounts.Nodup := by
  refine List.Nodup.sublist (List.filter_sublist.map Prod.fst) ?_
  rw [ExtTreeMap.map_fst_toList_eq_keys]
  exact OrdMap.nodup_keys _

theorem isFree_of_mem {account : Address} (h : account ∈ pool.freeAccounts) : pool.IsFree account := by
  obtain ⟨⟨address, ⟨state, seen⟩⟩, hmem, rfl⟩ := List.mem_map.mp h
  obtain ⟨hentry, hfree⟩ := List.mem_filter.mp hmem
  obtain rfl : state = .free := of_decide_eq_true hfree
  exact ⟨seen, OrdMap.mem_toList_iff.mp hentry⟩

end DurableNoncePool

namespace State

variable {state state' : State} {batches batches' : List ReservedBatch} {log : List Event}

/-- What a round reserves from the state it starts in. -/
theorem ready_reservedBatches (hrecorded : PendingRecorded log state)
    (hroom : state.createdWithdrawalTxs.size ≤ maxConcurrentSignatures) :
    state.Ready state.reservedBatches := by
  have haccounts := reserveBatches_accounts (state.noncePool.freeAccounts.take
    (min maxConcurrentRpcCalls (maxConcurrentSignatures - state.createdWithdrawalTxs.size)))
    state.withdrawalBatches
  obtain ⟨-, -, -, hnodup, -, -⟩ := reservedBatches_spec hrecorded
  refine ⟨?_, ?_, (List.nodup_flatMap.mp hnodup).1, ?_⟩
  · exact (DurableNoncePool.nodup_freeAccounts.sublist (List.take_sublist _ _)).sublist
      haccounts.sublist
  · intro batch hbatch
    exact DurableNoncePool.isFree_of_mem
      (List.mem_of_mem_take (haccounts.subset (List.mem_map_of_mem hbatch)))
  · have hlength := haccounts.length_le
    rw [List.length_map, List.length_take] at hlength
    change state.createdWithdrawalTxs.size + (reserveBatches _ _).length ≤ _
    omega

namespace Ready

theorem sublist (h : state.Ready batches) (hsub : batches'.Sublist batches) :
    state.Ready batches' where
  accounts := h.accounts.sublist (hsub.map _)
  free batch hbatch := h.free batch (hsub.subset hbatch)
  indices batch hbatch := h.indices batch (hsub.subset hbatch)
  room := (Nat.add_le_add_left hsub.length_le _).trans h.room

variable [SolanaSdk] {timestamp : Timestamp} {payload : EventType}

/-- Only a created transaction takes an account or adds to the created transactions. -/
theorem effect (h : state.Ready batches) (heffect : state.Effect timestamp payload state')
    (hcreated : ∀ burnIndices account value,
      payload ≠ .createdWithdrawalTransaction burnIndices account value) :
    state'.Ready batches := by
  -- a released account is free as well
  have hfreed {nonceAccount : Address} {seen : OrdSet Hash} : ∀ batch ∈ batches,
      DurableNoncePool.IsFree ⟨state.noncePool.accounts.insert nonceAccount ⟨.free, seen⟩⟩
        batch.nonceAccount := by
    intro batch hbatch
    obtain ⟨seen', hseen'⟩ := h.free batch hbatch
    by_cases heq : nonceAccount = batch.nonceAccount
    · exact ⟨seen, by rw [OrdMap.getElem?_insert_eq, if_pos heq]⟩
    · exact ⟨seen', by rw [OrdMap.getElem?_insert_eq, if_neg heq, hseen']⟩
  cases heffect with
  | createdWithdrawal => exact absurd rfl (hcreated _ _ _)
  | upgrade hpool hvalid =>
      refine ⟨h.accounts, fun batch hbatch => ?_, h.indices, h.room⟩
      obtain ⟨seen, hseen⟩ := h.free batch hbatch
      rcases hpool with ⟨-, rfl⟩ | ⟨texts, addresses, -, -, -, hadd⟩
      · exact ⟨seen, hseen⟩
      · obtain ⟨-, -, hget⟩ := DurableNoncePool.addAccounts_eq_ok hadd
        by_cases hnew : batch.nonceAccount ∈ addresses
        · exact ⟨∅, by rw [hget, if_pos hnew]; rfl⟩
        · exact ⟨seen, by rw [hget, if_neg hnew, hseen]⟩
  | sentWithdrawal =>
      refine ⟨h.accounts, h.free, h.indices, ?_⟩
      exact (Nat.add_le_add_right ExtTreeMap.size_erase_le _).trans h.room
  | succeededWithdrawal => exact ⟨h.accounts, hfreed, h.indices, h.room⟩
  | failedWithdrawal => exact ⟨h.accounts, hfreed, h.indices, h.room⟩
  | _ => exact ⟨h.accounts, h.free, h.indices, h.room⟩

/-- What a run without created transactions leaves. -/
theorem run {Emits : State → Timestamp → EventType → Prop} {canister canister' : Canister}
    (h : canister.state.Ready batches) (hrun : Run Emits canister canister')
    (hcreated : ∀ state t burnIndices account value,
      ¬ Emits state t (.createdWithdrawalTransaction burnIndices account value)) :
    canister'.state.Ready batches := by
  refine hrun.invariant (fun canister => canister.state.Ready batches) ?_ ?_ h
  · exact fun canister transient h => ⟨h.accounts, h.free, h.indices, h.room⟩
  · rintro state log now payload state' hemits h heffect
    refine h.effect heffect ?_
    rintro burnIndices account value rfl
    exact hcreated _ _ _ _ _ hemits

/-- A created batch takes its own account. -/
theorem create (h : state.Ready batches) {position : ℕ} (hbatch : batches[position]? = some batch)
    {value : Hash} (heffect : state.Effect timestamp
      (.createdWithdrawalTransaction batch.burnIndices batch.nonceAccount value) state') :
    state'.Ready (batches.eraseIdx position) := by
  obtain ⟨hposition, rfl⟩ := List.getElem?_eq_some_iff.mp hbatch
  have hrest := h.sublist (List.eraseIdx_sublist batches position)
  have hperm := (List.getElem_cons_eraseIdx_perm hposition).map ReservedBatch.nonceAccount
  have hother := (List.nodup_cons.mp (hperm.symm.nodup h.accounts)).1
  have hlength := List.length_eraseIdx_add_one hposition
  have hroom := h.room
  cases heffect with
  | createdWithdrawal haccount hunseen hmoved htotal hbalance hnew =>
      refine ⟨hrest.accounts, fun other hmem => ?_, hrest.indices, ?_⟩
      · have hne : batches[position].nonceAccount ≠ other.nonceAccount := fun heq =>
          hother (heq ▸ List.mem_map_of_mem hmem)
        obtain ⟨seen, hseen⟩ := hrest.free other hmem
        exact ⟨seen, by rw [OrdMap.getElem?_insert_eq, if_neg hne, hseen]⟩
      · have hsize : (state.createdWithdrawalTxs.insert batches[position].nonceAccount
            ⟨value, batches[position].burnIndices⟩).size ≤ state.createdWithdrawalTxs.size + 1 :=
          ExtTreeMap.size_insert_le
        dsimp only at hsize ⊢
        omega

end Ready

end State

/-! ## Rounds -/

section Rounds

variable [SolanaSdk]

namespace Config

variable {config config' : Config} {now : Timestamp} {action : Action} {address : Address}

/-- The batches that the round in progress has yet to create. -/
def creatingBatches (config : Config) : List ReservedBatch :=
  match config.withdrawals with
  | some (.creating _ batches) => batches
  | _ => []

omit [SolanaSdk] in
theorem creatingBatches_eq {batches : List ReservedBatch}
    (h : config.withdrawals = some (.creating address batches)) :
    config.creatingBatches = batches := by
  rw [creatingBatches, h]

/-- What the round in progress relies on. -/
structure Reserving (config : Config) : Prop where
  ready : config.canister.state.Ready config.creatingBatches
  covered : SupplyFits config.canister.log →
    config.canister.BalanceAccounted ∧ config.canister.state.Affords config.creatingBatches

theorem reserving_of_init (h : init minterId args now = .ok config) : config.Reserving := by
  obtain ⟨canister, hcanister, rfl⟩ := init_eq_ok.mp h
  have haccounted : canister.BalanceAccounted := .of_init hcanister
  obtain ⟨_, pool, -, -, rfl⟩ := Canister.exists_of_init hcanister
  refine ⟨⟨List.nodup_nil, by simp [creatingBatches, idle], by simp [creatingBatches, idle], ?_⟩, ?_⟩
  · exact Nat.zero_le _
  · exact fun _ => ⟨haccounted, fun hne => absurd rfl hne⟩

/-- A message that creates nothing and keeps a part of the batches. -/
theorem Reserving.frame (h : config.Reserving) (hprepared : config.Prepared)
    {Emitted : State → Timestamp → EventType → Prop}
    (hrun : Run Emitted config.canister config'.canister)
    (hemits : ∀ state t payload, Emitted state t payload → Emits state t payload)
    (hcreated : ∀ state t burnIndices account value,
      ¬ Emitted state t (.createdWithdrawalTransaction burnIndices account value))
    (hbatches : config'.creatingBatches.Sublist config.creatingBatches) : config'.Reserving := by
  refine ⟨(h.ready.run hrun hcreated).sublist hbatches, fun hfits => ?_⟩
  obtain ⟨new, hlog, -⟩ := hrun.log_append
  obtain ⟨haccounted, hafford⟩ := h.covered (SupplyFits.of_append (hlog ▸ hfits))
  have haccounted' := haccounted.run_of_supply hprepared.pending (hrun.mono hemits) hfits
  refine ⟨haccounted', fun hne => ?_⟩
  have hle := balance_le_of_run hrun hcreated haccounted haccounted'
  have hne' : config.creatingBatches ≠ [] := by
    intro hnil
    rw [hnil] at hbatches
    exact hne (List.sublist_nil.mp hbatches)
  have hsum := (hbatches.map ReservedBatch.cost).sum_le_sum (by simp)
  have hcovered := hafford hne'
  omega

/-- A batch is created. -/
theorem Reserving.create (h : config.Reserving) (hprepared : config.Prepared)
    {batches : List ReservedBatch} (hround : config.withdrawals = some (.creating address batches))
    {position : ℕ} (hbatch : batches[position]? = some batch) {value : Hash} {canister : Canister}
    (hevent : config.canister.processEvent
      (.createdWithdrawalTransaction batch.burnIndices batch.nonceAccount value) now = .ok canister)
    (hcanister : config'.canister = canister)
    (hbatches : config'.creatingBatches = batches.eraseIdx position) : config'.Reserving := by
  have hreserves := hprepared.creating _ _ hround
  have hemits : Emits config.canister.state now
      (.createdWithdrawalTransaction batch.burnIndices batch.nonceAccount value) :=
    emits_of_reserves hreserves hbatch
  have hrun : Run Emits config.canister canister := .event hevent hemits
  obtain ⟨state, happly, rfl⟩ := processEvent_eq_ok.mp hevent
  have heffect := State.effect_of_apply happly
  have hready := h.ready
  have hcovered := h.covered
  rw [creatingBatches_eq hround] at hready hcovered
  constructor
  · rw [hcanister, hbatches]
    exact hready.create hbatch heffect
  · rw [hcanister, hbatches]
    intro hfits
    obtain ⟨haccounted, hafford⟩ := hcovered (SupplyFits.of_append hfits)
    exact ⟨haccounted.run_of_supply hprepared.pending hrun hfits, fun _ =>
      affords_of_created hafford hreserves hprepared.pending hbatch heffect⟩

/-- A message of a withdrawal round. -/
theorem Reserving.withdrawals (h : config.Reserving) (hprepared : config.Prepared)
    {action : WithdrawalAction} {canister : Canister} {round : Option WithdrawalRound}
    {requested : List BoundWithdrawal} {requests : List SignRequest}
    (hsteps : WithdrawalRound.Steps config.canister now config.withdrawals action
      (canister, round, requested)) :
    Reserving { config with canister, withdrawals := round, signRequests := requests } := by
  -- messages that record nothing about withdrawals, or end the round
  have hquiet {canister : Canister} {round : Option WithdrawalRound}
      (hrun : Run (fun _ _ _ => False) config.canister canister)
      (hbatches : (creatingBatches { config with
        canister, withdrawals := round, signRequests := requests }).Sublist config.creatingBatches) :
      Reserving { config with canister, withdrawals := round, signRequests := requests } :=
    h.frame hprepared hrun (fun _ _ _ => False.elim) (fun _ _ _ _ _ => id) hbatches
  generalize hround : config.withdrawals = before at hsteps
  cases hsteps with
  | start hstart hkey =>
      have hroom := Nat.le_trans (Nat.le_add_right _ _) h.ready.room
      refine ⟨?_, fun hfits => ?_⟩
      · rw [startTask_eq_some hstart]
        have hready := State.ready_reservedBatches hprepared.pending hroom
        exact ⟨hready.accounts, hready.free, hready.indices, hready.room⟩
      · rw [startTask_eq_some hstart] at hfits ⊢
        exact ⟨(h.covered hfits).1, (State.reserves_reservedBatches hprepared.pending).2⟩
  | skipped =>
      refine hquiet .refl ?_
      rw [creatingBatches_eq hround]
      exact List.eraseIdx_sublist _ _
  | created hbatch hread hunseen hbuild hevent =>
      exact h.create hprepared hround hbatch hevent rfl rfl
  | requested => exact hquiet .refl (List.nil_sublist _)
  | notSigned => exact hquiet .refl (List.nil_sublist _)
  | signed hwithdrawal hevent =>
      have hrun : Run (fun _ _ payload => payload = _) config.canister canister :=
        .event hevent rfl
      refine h.frame hprepared hrun ?_ (by simp) (List.nil_sublist _)
      rintro state t payload rfl
      exact emits_of_kind (by simp) (by simp) (by simp)
  | ended => exact hquiet (.endTask _) (List.nil_sublist _)

theorem Reserving.steps (h : config.Reserving) (hprepared : config.Prepared)
    (hwellformed : config.Wellformed) (hsteps : config.Steps now action config') :
    config'.Reserving := by
  have hemits := hsteps.emits hprepared hwellformed
  have hframe (hcreated : ∀ step, action ≠ .withdrawals step)
      (hbatches : config'.creatingBatches.Sublist config.creatingBatches) : config'.Reserving := by
    refine h.frame hprepared hemits (fun _ _ _ hpayload => hpayload.1) ?_ hbatches
    intro state t burnIndices account value hpayload
    obtain ⟨step, heq⟩ := hpayload.2.recordedBy
    exact hcreated step heq
  cases hsteps with
  | withdrawals hsteps => exact h.withdrawals hprepared hsteps
  | unchanged => exact h
  | withdrawEnded =>
      exact h.frame hprepared (Run.dropWithdrawalGuard _ : Run (fun _ _ _ => False) _ _)
        (fun _ _ _ => False.elim) (fun _ _ _ _ _ => id) (List.Sublist.refl _)
  | depositSolEnded =>
      exact h.frame hprepared (Run.dropDepositSolGuard _ : Run (fun _ _ _ => False) _ _)
        (fun _ _ _ => False.elim) (fun _ _ _ _ _ => id) (List.Sublist.refl _)
  | upgraded => exact hframe (by simp) (List.nil_sublist _)
  | _ => exact hframe (by simp) (List.Sublist.refl _)

theorem reserving_of_run {actions : List (Timestamp × Action)}
    (h : runFrom minterId args now actions = some config) :
    config.Prepared ∧ config.Reserving := by
  refine (runFrom_invariant (fun _ config => config.Prepared ∧ config.Reserving) ?_ ?_ h).2
  · exact fun config hinit => ⟨prepared_of_init hinit, reserving_of_init hinit⟩
  · rintro done config now action config' hwellformed ⟨hprepared, hreserving⟩ hsteps
    exact ⟨hprepared.steps hwellformed hsteps, hreserving.steps hprepared hwellformed hsteps⟩

/-- A batch of the round in progress can be created whatever its nonce read returns. -/
theorem Reserving.creates (h : config.Reserving) (hprepared : config.Prepared)
    (hwellformed : config.Wellformed) {view : WithdrawalView}
    (hview : Withdrawals config.canister.log config.canister.state view)
    (hfits : SupplyFits config.canister.log) {batches : List ReservedBatch}
    (hround : config.withdrawals = some (.creating address batches)) (hbatch : batch ∈ batches)
    (reply : Option NonceAccountData) (now : Timestamp) :
    ∃ result, createTransaction config.canister address batch reply now = .ok result := by
  have hready := h.ready
  have hafford := (h.covered hfits).2
  rw [creatingBatches_eq hround] at hready hafford
  have hreserves := hprepared.creating _ _ hround
  have hfree := hready.free batch hbatch
  have hpending : ∀ i ∈ batch.burnIndices, ∃ pending,
      config.canister.state.pendingWithdrawalRequests[i]? = some pending := by
    intro i hi
    obtain ⟨request, hrequest, rfl⟩ := List.mem_map.mp hi
    obtain ⟨createdAt, hget⟩ := hreserves.pending batch hbatch request hrequest
    exact ⟨_, hget⟩
  -- a pending request has not been created
  have hcreated : ∀ i ∈ batch.burnIndices,
      config.canister.state.createdWithdrawalRequests[i]? = none := by
    intro i hi
    obtain ⟨pending, hget⟩ := hpending i hi
    have hstage : config.canister.state.withdrawalAt .pending i = some pending := hget
    have hnone : config.canister.state.withdrawalAt .created i = none :=
      hview.follows.withdrawalAt_eq_none hstage (by simp)
    exact hnone
  have hcost : batch.cost ≤ config.canister.state.balance.toNat := by
    have hle : batch.cost ≤ (batches.map ReservedBatch.cost).sum :=
      List.le_sum_of_mem (List.mem_map_of_mem hbatch)
    have hall := hafford (List.ne_nil_of_mem hbatch)
    omega
  have hnew : config.canister.state.createdWithdrawalTxs[batch.nonceAccount]? = none := by
    obtain ⟨seen, hseen⟩ := hfree
    refine Option.eq_none_iff_forall_ne_some.mpr fun transaction hcreated => ?_
    exact hwellformed.tables.nonces.not_refersTo_of_free hseen (.created transaction) hcreated
  unfold createTransaction
  split
  case h_1 => exact ⟨_, rfl⟩
  case h_2 value hread =>
    split
    case isTrue => exact ⟨_, rfl⟩
    case isFalse hunseen =>
      dsimp only
      split
      case h_1 => exact ⟨_, rfl⟩
      case h_2 =>
        obtain ⟨state, hstate⟩ := State.processTransactionCreated_ok
          ⟨batch.burnIndices, batch.nonceAccount, value⟩ hfree hunseen (hready.indices batch hbatch)
          hpending hcreated (by rw [hreserves.cost_eq hbatch]; exact hcost) hnew
        have hevent : config.canister.processEvent (.createdWithdrawalTransaction batch.burnIndices
            batch.nonceAccount value) now = .ok ⟨state, _⟩ :=
          processEvent_eq_ok.mpr ⟨state, hstate, rfl⟩
        exact ⟨_, bind_eq_ok.mpr ⟨_, hevent, rfl⟩⟩

/-! ## Interleavings -/

end Config

/-- The messages between the snapshot of a round and the last of its creations. -/
def Action.duringCreation : Action → Bool
  | .upgrade _ => false
  | .withdrawals (.nonceRead ..) => true
  | .withdrawals _ => false
  | _ => true

namespace Config

variable {config config' : Config} {now : Timestamp} {action : Action}

/-- Between the reservation and the last creation, nothing else touches pending requests. -/
theorem Steps.duringCreation (hwellformed : config.Wellformed)
    (hsteps : config.Steps now action config') (hduring : action.duringCreation) :
    Run (fun _ _ payload => payload.isBystander ∨ payload.creation.isSome) config.canister
      config'.canister := by
  have hrun := hsteps.run hwellformed.replayable
  cases hsteps with
  | unchanged => exact .refl
  | withdrawEnded => exact Run.dropWithdrawalGuard _
  | depositSolEnded => exact Run.dropDepositSolGuard _
  | upgraded => cases hduring
  | withdrawals hsteps =>
      generalize config.withdrawals = before at hsteps
      cases hsteps with
      | skipped => exact .refl
      | created hbatch hread hunseen hbuild hevent => exact .event hevent (.inr rfl)
      | ended => exact .endTask _
      | _ => cases hduring
  | _ =>
      refine hrun.mono fun state t payload hrecords => .inl ?_
      have hby := hrecords.recordedBy
      cases payload with
      | init | upgrade => cases hby
      | createdWithdrawalTransaction =>
          obtain ⟨step, heq⟩ := hby
          cases heq
      | submittedTransaction signature message signers purpose =>
          cases purpose with
          | sweepDeposit => rfl
          | withdrawal =>
              obtain ⟨step, heq⟩ := hby
              cases heq
      | _ => rfl

theorem run_duringCreation {actions : List (Timestamp × Action)} (hwellformed : config.Wellformed)
    (h : config.run actions = some config')
    (hduring : ∀ entry ∈ actions, entry.2.duringCreation) :
    Run (fun _ _ payload => payload.isBystander ∨ payload.creation.isSome) config.canister
      config'.canister := by
  refine (run_invariant (fun done reached => reached.Wellformed ∧
    ((∀ entry ∈ done, entry.2.duringCreation) →
      Run (fun _ _ payload => payload.isBystander ∨ payload.creation.isSome) config.canister
        reached.canister)) ⟨hwellformed, fun _ => .refl⟩ ?_ h).2 hduring
  rintro done reached now action reached' ⟨hreached, hrun⟩ hsteps
  refine ⟨hreached.steps hsteps, fun hduring => ?_⟩
  exact (hrun fun entry hentry => hduring entry (List.mem_append_left _ hentry)).trans
    (hsteps.duringCreation hreached (hduring (now, action)
      (List.mem_append_right _ (List.mem_singleton_self _))))

/-- What holds of the rounds that create transactions in every reachable state. -/
structure CreationSafe (config : Config) (past : List (Timestamp × Action)) : Prop where
  /-- A round in progress holds the guard of the task, so no second one starts. -/
  guarded : config.withdrawals.isSome → config.canister.startTask .withdrawalProcessing = none
  /-- A round that starts reserves distinct accounts and disjoint requests. -/
  reserved : (config.canister.state.reservedBatches.map ReservedBatch.nonceAccount).Nodup ∧
    config.canister.state.reservedBatches.Pairwise fun batch batch' =>
      batch.burnIndices.Disjoint batch'.burnIndices
  /-- So do the batches that the round in progress has yet to create. -/
  remaining : (config.creatingBatches.map ReservedBatch.nonceAccount).Nodup ∧
    config.creatingBatches.Pairwise fun batch batch' =>
      batch.burnIndices.Disjoint batch'.burnIndices
  /-- Whatever the nonce read of a batch returns, recording it does not panic, as long as burn indices
  are distinct and the lamports held fit into 64 bits. -/
  creates : (burnBlockIndices past).Nodup → SupplyFits config.canister.log →
    ∀ address batches, config.withdrawals = some (.creating address batches) →
    ∀ batch ∈ batches, ∀ reply now, ∃ result,
      createTransaction config.canister address batch reply now = .ok result
  bounded : config.canister.state.createdWithdrawalTxs.size ≤ maxConcurrentSignatures

/-- Two continuations that record the same events, but for the order of the created transactions, lead
to the same state. -/
def OrderIndependent (past : List (Timestamp × Action)) (config : Config) : Prop :=
  ∀ actions actions' config₁ config₂ events₁ events₂,
    config.run actions = some config₁ → config.run actions' = some config₂ →
    (∀ entry ∈ actions, entry.2.duringCreation) → (∀ entry ∈ actions', entry.2.duringCreation) →
    (burnBlockIndices (past ++ actions)).Nodup → (burnBlockIndices (past ++ actions')).Nodup →
    config₁.canister.log = config.canister.log ++ events₁ →
    config₂.canister.log = config.canister.log ++ events₂ →
    otherEvents events₁ = otherEvents events₂ → (creations events₁).Perm (creations events₂) →
    config₁.canister.state.persistent = config₂.canister.state.persistent

theorem orderIndependent_of_run {past : List (Timestamp × Action)}
    (h : runFrom minterId args now past = some config) :
    config.OrderIndependent past := by
  intro actions actions' config₁ config₂ events₁ events₂ h₁ h₂ hduring₁ hduring₂ hburns₁ hburns₂
    hlog₁ hlog₂ hothers hperm
  have hwellformed := wellformed_of_run h
  have hburns : (burnBlockIndices past).Nodup :=
    hburns₁.sublist ((List.sublist_append_left past actions).filterMap _)
  obtain ⟨view, hview⟩ := withdrawals_of_run h hburns
  obtain ⟨_, hlog₁', hfactored₁⟩ := (run_duringCreation hwellformed h₁ hduring₁).factored
    hwellformed.tables hview (hburns₁.sublist (acceptedIndices_sublist (runFrom_append h h₁)))
  obtain ⟨_, hlog₂', hfactored₂⟩ := (run_duringCreation hwellformed h₂ hduring₂).factored
    hwellformed.tables hview (hburns₂.sublist (acceptedIndices_sublist (runFrom_append h h₂)))
  obtain rfl := List.append_cancel_left (hlog₁.symm.trans hlog₁')
  obtain rfl := List.append_cancel_left (hlog₂.symm.trans hlog₂')
  exact hfactored₁.persistent_eq hfactored₂ hothers hperm

/-- In every run, the rounds that create transactions are safe, and the order of their creations does not
matter. -/
theorem creationSafe_of_run {minterId : Principal} {args : InitArgs}
    {actions : List (Timestamp × Action)} (h : runFrom minterId args now actions = some config) :
    config.CreationSafe actions ∧ config.OrderIndependent actions := by
  have hwellformed := wellformed_of_run h
  obtain ⟨hprepared, hreserving⟩ := reserving_of_run h
  have hbounded := Nat.le_trans (Nat.le_add_right _ _) hreserving.ready.room
  have hready := State.ready_reservedBatches hprepared.pending hbounded
  have hreserves := (State.reserves_reservedBatches hprepared.pending).1
  refine ⟨⟨?_, ⟨hready.accounts, hreserves.disjoint⟩, ⟨hreserving.ready.accounts, ?_⟩, ?_, hbounded⟩,
    orderIndependent_of_run h⟩
  · intro hround
    rw [startTask, if_pos ((roundsGuarded_of_run h).withdrawals hround)]
  · unfold creatingBatches
    split
    case h_1 address batches hround => exact (hprepared.creating address batches hround).disjoint
    case h_2 => exact .nil
  · intro hburns hfits address batches hround batch hbatch
    obtain ⟨view, hview⟩ := withdrawals_of_run h hburns
    exact hreserving.creates hprepared hwellformed hview hfits hround hbatch

end Config

end Rounds

section Sample

attribute [local instance] Solana.sdk

/-- A round has reserved its batch when another deposit is queued and another withdrawal is accepted. -/
def sampleCreation : List (Timestamp × Action) :=
  sampleDeposit ++ sampleWithdrawal.take 3 ++
    [(23, .queueDeposit ⟨⟨.single 8, none⟩, 12, .sampleMedium, none⟩),
      (24, .withdraw ⟨.single 8, none⟩ 3_000_000 "11111111111111111111111111111116"),
      (25, .burned 0 (.blockIndex 4))]

theorem Config.creationSafe_sampleCreation :
    ∃ config, runFrom sampleMinterId sampleInitArgs 0 sampleCreation = some config ∧
      (burnBlockIndices sampleCreation).Nodup ∧ SupplyFits config.canister.log ∧
      config.creatingBatches.length = 1 ∧
      config.CreationSafe sampleCreation ∧ config.OrderIndependent sampleCreation := by
  obtain ⟨config, hconfig, hfits, hbatches⟩ : ∃ config,
      runFrom sampleMinterId sampleInitArgs 0 sampleCreation = some config ∧
      SupplyFits config.canister.log ∧ config.creatingBatches.length = 1 :=
    exists_of_any (by decide +kernel)
  exact ⟨config, hconfig, by decide +kernel, hfits, hbatches, creationSafe_of_run hconfig⟩

end Sample

end Cksol
