import Cksol.Minter.Emissions
import Cksol.Minter.Parameters
import Cksol.Minter.Payouts

/-! # What follows a burn

A `withdraw` call burns at least the minimum withdrawal amount, which the parameters keep above the
withdrawal fee and the rent exemption threshold together. That sum is computed in a `u64` and wraps, so
a fee close to the end of the range passes the check and lets the call trap after the burn.
-/

namespace Cksol

open Std Canister

/-- A request that the log knows was accepted under its index. -/
theorem mem_acceptedIndices_of_transfers {log : List Event} {i : LedgerBurnIndex} {amount : Lamport}
    (h : (withdrawalRecord log).transfers[i]? = some amount) : i ∈ acceptedIndices log := by
  induction log using List.reverseRecOn with
  | nil => simp [withdrawalRecord, WithdrawalRecord.empty] at h
  | append_singleton log event ih =>
      obtain ⟨timestamp, payload⟩ := event
      rw [Withdrawals.acceptedIndices_append]
      rw [withdrawalRecord_append] at h
      cases payload with
      | acceptedWithdrawalRequest request =>
          rw [WithdrawalRecord.apply, OrdMap.getElem?_insert_eq] at h
          split at h
          case isTrue heq =>
            rw [← heq]
            exact List.mem_append_right _ (List.mem_singleton_self _)
          case isFalse => exact List.mem_append_left _ (ih h)
      | _ => exact List.mem_append_left _ (ih h)

/-- The check of the parameters, as long as its sum does not wrap. -/
theorem State.withdrawalFee_add_le {state : State} (h : state.validate = .ok ⟨⟩)
    (hfits : state.withdrawalFee.toNat + rentExemptionThreshold.toNat < 2 ^ 64) :
    state.withdrawalFee.toNat + rentExemptionThreshold.toNat ≤ state.minimumWithdrawalAmount.toNat := by
  simp only [validate, bind_eq_ok, check_eq_ok] at h
  obtain ⟨⟨⟩, -, ⟨⟩, -, ⟨⟩, -, ⟨⟩, -, ⟨⟩, hmin, -⟩ := h
  have hsum : (state.withdrawalFee + rentExemptionThreshold).toNat =
      state.withdrawalFee.toNat + rentExemptionThreshold.toNat := toNat_add_of_lt hfits
  rw [← hsum]
  exact UInt64.le_iff_toNat_le.mp hmin

section Burns

variable [SolanaSdk]

namespace Config

variable {config config' : Config} {now : Timestamp} {action : Action}

/-- The calls that await a burn asked for the minimum withdrawal amount at least. -/
def BurnsMinimum (config : Config) : Prop :=
  ∀ call ∈ config.withdrawCalls,
    config.canister.state.minimumWithdrawalAmount ≤ call.amountToBurn

theorem BurnsMinimum.steps (h : config.BurnsMinimum) (hwellformed : config.Wellformed)
    (hsteps : config.Steps now action config') : config'.BurnsMinimum := by
  -- no upgrade: the minimum is the one the calls were checked against
  have hkeep (hupgrade : ∀ args, action ≠ .upgrade args) (call : WithdrawCall)
      (hcall : config.canister.state.minimumWithdrawalAmount ≤ call.amountToBurn) :
      config'.canister.state.minimumWithdrawalAmount ≤ call.amountToBurn := by
    have hsame := congrArg Parameters.minimumWithdrawalAmount
      (hsteps.parameters_eq hwellformed hupgrade)
    exact hsame.trans_le hcall
  cases hsteps with
  | withdrawStarted hwithdraw =>
      obtain ⟨hmin, hamount, -⟩ := withdraw_eq_ok hwithdraw
      intro call hcall
      refine hkeep (by simp) call ?_
      rcases List.mem_append.mp hcall with hold | hnew
      · exact h call hold
      · rw [List.mem_singleton.mp hnew, hamount]
        exact hmin
  | burned hcall hindex hamount hevent =>
      exact fun call hmem => hkeep (by simp) call (h call (List.mem_of_mem_eraseIdx hmem))
  | withdrawEnded => exact fun call hmem => h call (List.mem_of_mem_eraseIdx hmem)
  | unchanged | depositSolEnded => exact h
  | upgraded => exact fun call hcall => nomatch hcall
  | _ => exact fun call hcall => hkeep (by simp) call (h call hcall)

theorem burnsMinimum_of_run {minterId : Principal} {args : InitArgs}
    {actions : List (Timestamp × Action)} (h : runFrom minterId args now actions = some config) :
    config.BurnsMinimum := by
  refine (runFrom_invariant (fun _ config => config.BurnsMinimum) ?_ ?_ h).2
  · intro config hinit
    obtain ⟨canister, -, rfl⟩ := init_eq_ok.mp hinit
    intro call hcall
    cases hcall
  · exact fun done config t action config' hwellformed h hsteps => h.steps hwellformed hsteps

/-- A burn with a new block index is recorded as a request that pays the rent exemption threshold at
least, with the fee in force. -/
structure BurnRecorded (config : Config) (call : WithdrawCall) (blockIndex : LedgerBurnIndex)
    (now : Timestamp) (amountToTransfer : Lamport) (canister : Canister) : Prop where
  /-- The code after the burn does not trap. -/
  returns : withdrawBurned config.canister call (.blockIndex blockIndex) now =
    .ok (canister, .ok blockIndex)
  logged : canister.log = config.canister.log ++ [⟨now, .acceptedWithdrawalRequest
    ⟨call.account, call.solanaAddress, blockIndex, call.amountToBurn, amountToTransfer⟩⟩]
  pending : canister.state.pendingWithdrawalRequests[blockIndex]? = some
    ⟨⟨call.account, call.solanaAddress, blockIndex, call.amountToBurn, amountToTransfer⟩, now⟩
  fee : amountToTransfer.toNat + config.canister.state.withdrawalFee.toNat = call.amountToBurn.toNat
  payable : rentExemptionThreshold ≤ amountToTransfer

variable {minterId : Principal} {args : InitArgs} {start : Timestamp}
  {actions : List (Timestamp × Action)} {position : ℕ} {call : WithdrawCall}
  {blockIndex : LedgerBurnIndex}

/-- A recorded request leaves room for the threshold beside the fee: both fit the burned amount. -/
theorem BurnRecorded.fits {now : Timestamp} {amountToTransfer : Lamport} {canister : Canister}
    (h : config.BurnRecorded call blockIndex now amountToTransfer canister) :
    config.canister.state.withdrawalFee.toNat + rentExemptionThreshold.toNat < 2 ^ 64 := by
  have hfee := h.fee
  have hpayable := UInt64.le_iff_toNat_le.mp h.payable
  have hburned := call.amountToBurn.toNat_lt
  omega

/-- While the sum of the fee and the threshold does not wrap, the request is recorded. -/
theorem exists_burnRecorded_of_run (h : runFrom minterId args start actions = some config)
    (hcall : config.withdrawCalls[position]? = some call) (hindex : blockIndex < 2 ^ 64)
    (hunused : blockIndex ∉ burnBlockIndices actions)
    (hfee : config.canister.state.withdrawalFee.toNat + rentExemptionThreshold.toNat < 2 ^ 64)
    (now : Timestamp) :
    ∃ amountToTransfer canister, config.BurnRecorded call blockIndex now amountToTransfer canister := by
  have hparameters := State.withdrawalFee_add_le (validate_of_run h) hfee
  have hburns := UInt64.le_iff_toNat_le.mp (burnsMinimum_of_run h call (List.mem_of_getElem? hcall))
  -- the subtraction succeeds and leaves the threshold
  obtain ⟨amountToTransfer, hamount⟩ : ∃ amountToTransfer,
      checkedSub call.amountToBurn config.canister.state.withdrawalFee = some amountToTransfer := by
    refine ⟨call.amountToBurn - config.canister.state.withdrawalFee, if_pos ?_⟩
    rw [UInt64.le_iff_toNat_le]
    omega
  have hsum := checkedSub_eq_some.mp hamount
  -- no request is pending under the index
  have hnew : config.canister.state.pendingWithdrawalRequests[blockIndex]? = none := by
    refine Option.eq_none_iff_forall_ne_some.mpr fun pending hpending => hunused ?_
    have hrecorded := (emits_of_run h).1.pending.amount hpending
    exact (acceptedIndices_sublist h).subset (mem_acceptedIndices_of_transfers hrecorded)
  let request : WithdrawalRequest :=
    ⟨call.account, call.solanaAddress, blockIndex, call.amountToBurn, amountToTransfer⟩
  let state : State := { config.canister.state with
    pendingWithdrawalRequests :=
      config.canister.state.pendingWithdrawalRequests.insert blockIndex ⟨request, now⟩ }
  have hprocess : config.canister.processEvent (.acceptedWithdrawalRequest request) now =
      .ok ⟨state, config.canister.log ++ [⟨now, .acceptedWithdrawalRequest request⟩]⟩ := by
    simp only [Canister.processEvent, applyStateTransition, State.processAcceptedWithdrawal, check,
      request, if_pos hnew]
    rfl
  refine ⟨amountToTransfer, Canister.dropWithdrawalGuard
    ⟨state, config.canister.log ++ [⟨now, .acceptedWithdrawalRequest request⟩]⟩ call.account,
    ⟨?_, rfl, ?_, hsum, ?_⟩⟩
  · show ((burn (.blockIndex blockIndex)) >>= _) = _
    rw [burn, toU64, if_pos hindex]
    show (orPanic (checkedSub _ _) _ >>= _) = _
    rw [hamount]
    show ((config.canister.processEvent (.acceptedWithdrawalRequest request) now) >>= _) = _
    rw [hprocess]
    rfl
  · show state.pendingWithdrawalRequests[blockIndex]? = _
    rw [OrdMap.getElem?_insert_eq, if_pos rfl]
  · rw [UInt64.le_iff_toNat_le]
    omega

/-- In every reachable state, a call whose burn succeeds with a new block index has its request
recorded exactly when the fee in force leaves room for the threshold in a `u64`. -/
theorem burnRecorded_iff_of_run (h : runFrom minterId args start actions = some config)
    (hcall : config.withdrawCalls[position]? = some call) (hindex : blockIndex < 2 ^ 64)
    (hunused : blockIndex ∉ burnBlockIndices actions) (now : Timestamp) :
    (∃ amountToTransfer canister,
        config.BurnRecorded call blockIndex now amountToTransfer canister) ↔
      config.canister.state.withdrawalFee.toNat + rentExemptionThreshold.toNat < 2 ^ 64 := by
  constructor
  · rintro ⟨amountToTransfer, canister, hrecorded⟩
    exact hrecorded.fits
  · intro hfee
    exact exists_burnRecorded_of_run h hcall hindex hunused hfee now

end Config

end Burns

section Sample

attribute [local instance] Solana.sdk

theorem Config.burnRecorded_sampleWithdrawal :
    ∃ config call, runFrom sampleMinterId sampleInitArgs 0
        (sampleDeposit ++ sampleWithdrawal.take 1) = some config ∧
      config.withdrawCalls[0]? = some call ∧
      ∃ amountToTransfer canister, config.BurnRecorded call 3 21 amountToTransfer canister := by
  obtain ⟨config, hconfig, hcall, hfee⟩ : ∃ config,
      runFrom sampleMinterId sampleInitArgs 0 (sampleDeposit ++ sampleWithdrawal.take 1) =
        some config ∧
      config.withdrawCalls[0]?.isSome ∧
      config.canister.state.withdrawalFee.toNat + rentExemptionThreshold.toNat < 2 ^ 64 :=
    exists_of_any (by decide +kernel)
  obtain ⟨call, hcall⟩ := Option.isSome_iff_exists.mp hcall
  exact ⟨config, call, hconfig, hcall,
    (burnRecorded_iff_of_run hconfig hcall (by decide) (by decide) 21).mpr hfee⟩

/-- The sum of the fee and the threshold wraps to zero: the parameters are accepted, and the call traps
after its burn. -/
theorem Config.not_burnRecorded_sampleWithdrawal :
    ∃ config call, runFrom sampleMinterId { sampleInitArgs with withdrawalFee := 2 ^ 64 - 890_880 } 0
        (sampleDeposit ++ sampleWithdrawal.take 1) = some config ∧
      config.withdrawCalls[0]? = some call ∧
      3 ∉ burnBlockIndices (sampleDeposit ++ sampleWithdrawal.take 1) ∧
      withdrawBurned config.canister call (.blockIndex 3) 21 = .error .burnedBelowWithdrawalFee := by
  have hsome : ((runFrom sampleMinterId { sampleInitArgs with withdrawalFee := 2 ^ 64 - 890_880 } 0
      (sampleDeposit ++ sampleWithdrawal.take 1)).any fun config =>
        config.withdrawCalls[0]?.any fun call =>
          match withdrawBurned config.canister call (.blockIndex 3) 21 with
          | .error .burnedBelowWithdrawalFee => true
          | _ => false) = true := by decide +kernel
  obtain ⟨config, hconfig, htest⟩ := (Option.any_eq_true _ _).mp hsome
  obtain ⟨call, hcall, htrap⟩ := (Option.any_eq_true _ _).mp htest
  refine ⟨config, call, hconfig, hcall, by decide, ?_⟩
  split at htrap
  case h_1 htrapped => exact htrapped
  case h_2 => cases htrap

end Sample

end Cksol
