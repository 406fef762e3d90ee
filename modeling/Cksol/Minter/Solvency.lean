import Cksol.Minter.Accounting

/-! # Solvency

What the minter owes is the ckSOL it minted or may have minted, minus what was burned, plus the
withdrawals that are accepted and not created yet. A created transaction also costs a fee of its own.
The balance covers both when the withdrawal fee covers that fee, which `State::validate` does not ask
for.
-/

namespace Cksol

open Std Canister

/-- What an accepted withdrawal burned. -/
def EventType.burnedAmount : EventType → ℕ
  | acceptedWithdrawalRequest request => request.burnedAmount.toNat
  | _ => 0

/-- The ckSOL that accepted withdrawals burned. -/
def totalBurned (log : List Event) : ℕ :=
  (log.map fun event => event.payload.burnedAmount).sum

theorem totalBurned_append (log new : List Event) :
    totalBurned (log ++ new) = totalBurned log + totalBurned new := by
  simp [totalBurned]

@[simp] theorem totalBurned_singleton (event : Event) :
    totalBurned [event] = event.payload.burnedAmount := by
  simp [totalBurned]

/-- The ckSOL that may circulate, and the withdrawals still to be created. -/
def Canister.liabilities (canister : Canister) : ℤ :=
  canister.state.deposits.totalMints - totalBurned canister.log +
    canister.state.pendingWithdrawalRequests.sumBy State.transferAmount

/-- The balance covers the liabilities. -/
def Canister.Solvent (canister : Canister) : Prop :=
  canister.liabilities ≤ canister.state.balance.toNat

instance (canister : Canister) : Decidable canister.Solvent :=
  inferInstanceAs (Decidable (_ ≤ _))

/-! ## Burns cover debits -/

/-- Every accepted withdrawal burned a transaction fee beyond what it transfers. -/
def FeesBurned (log : List Event) : Prop :=
  ∀ timestamp request, ⟨timestamp, .acceptedWithdrawalRequest request⟩ ∈ log →
    request.amountToTransfer.toNat + batchWithdrawalTxFee.toNat ≤ request.burnedAmount.toNat

theorem FeesBurned.of_append {log new : List Event} (h : FeesBurned (log ++ new)) : FeesBurned log :=
  fun timestamp request hmem => h timestamp request (List.mem_append_left _ hmem)

/-- A pending request with the fee of a transaction of its own. -/
def State.transferWithFee (pending : PendingWithdrawalRequest) : ℕ :=
  transferAmount pending + batchWithdrawalTxFee.toNat

/-- What was burned pays for the created transactions and for a transaction of each pending request. -/
def Canister.BurnsCover (canister : Canister) : Prop :=
  canister.state.pendingWithdrawalRequests.sumBy State.transferWithFee +
    totalDebited canister.log ≤ totalBurned canister.log

/-- A batch pays one fee, its requests would pay one each. -/
theorem sum_transferAmount_le {requests : OrdMap LedgerBurnIndex PendingWithdrawalRequest}
    {burnIndices : List LedgerBurnIndex} (hne : burnIndices ≠ [])
    (hpresent : ∀ i ∈ burnIndices, ∃ pending, requests[i]? = some pending) :
    (burnIndices.map (requests.weightAt State.transferAmount)).sum + batchWithdrawalTxFee.toNat ≤
      (burnIndices.map (requests.weightAt State.transferWithFee)).sum := by
  have hweight : ∀ i ∈ burnIndices,
      requests.weightAt State.transferWithFee i =
        requests.weightAt State.transferAmount i + batchWithdrawalTxFee.toNat := by
    intro i hi
    obtain ⟨pending, hpending⟩ := hpresent i hi
    rw [OrdMap.weightAt, OrdMap.weightAt, hpending]
    rfl
  rw [List.map_congr_left hweight, List.sum_map_add, List.map_const', List.sum_replicate]
  have hlength : 1 ≤ burnIndices.length := List.length_pos_of_ne_nil hne
  exact Nat.add_le_add_left (Nat.le_mul_of_pos_left _ hlength) _

section Solvency

variable [SolanaSdk] {state state' : State} {log : List Event} {timestamp : Timestamp}
  {payload : EventType} {canister canister' : Canister}

theorem Canister.BurnsCover.effect (h : BurnsCover ⟨state, log⟩)
    (hemits : Emits state timestamp payload) (hpending : PendingRecorded log state)
    (heffect : state.Effect timestamp payload state')
    (hburned : FeesBurned (log ++ [⟨timestamp, payload⟩])) :
    BurnsCover ⟨state', log ++ [⟨timestamp, payload⟩]⟩ := by
  -- events other than the two below leave all three sums alone
  have hframe (hsame : state'.pendingWithdrawalRequests = state.pendingWithdrawalRequests)
      (hcreated : ∀ burnIndices account value,
        payload ≠ .createdWithdrawalTransaction burnIndices account value)
      (hnothing : payload.burnedAmount = 0) : BurnsCover ⟨state', log ++ [⟨timestamp, payload⟩]⟩ := by
    simp only [BurnsCover, totalDebited, createdDebits_append_of_not hcreated, totalBurned_append,
      totalBurned_singleton, hnothing, hsame]
    exact h
  cases heffect with
  | @acceptedWithdrawal request hnew =>
      have hfee := hburned timestamp request (List.mem_append_right _ (List.mem_singleton_self _))
      have hinsert := OrdMap.sumBy_insert (f := State.transferWithFee)
        (v := ⟨request, timestamp⟩) hnew
      have hweight : State.transferWithFee ⟨request, timestamp⟩ =
        request.amountToTransfer.toNat + batchWithdrawalTxFee.toNat := rfl
      simp only [BurnsCover, totalDebited, totalBurned_append, totalBurned_singleton,
        EventType.burnedAmount] at h ⊢
      rw [createdDebits_append_of_not (by simp), hinsert, hweight]
      omega
  | @createdWithdrawal burnIndices account value seen pending created total balance haccount hunseen
      hmoved htotal hbalance hnew =>
      have hsum := hmoved.source_sum State.transferWithFee
      have hbatch := sum_transferAmount_le (hemits.created rfl).1 hmoved.present
      have hcost := hpending.cost_eq hmoved.present
      have hnothing : (EventType.createdWithdrawalTransaction burnIndices account
        value).burnedAmount = 0 := rfl
      simp only [BurnsCover, totalDebited, totalBurned_append, totalBurned_singleton,
        createdDebits_append_created, List.map_append, List.sum_append, List.map_cons, List.map_nil,
        List.sum_cons, List.sum_nil, hnothing] at h ⊢
      omega
  | _ => exact hframe rfl (by simp) rfl

theorem Canister.BurnsCover.run (hpending : PendingRecorded canister.log canister.state)
    (h : canister.BurnsCover) (hrun : Run Emits canister canister')
    (hburned : FeesBurned canister'.log) : canister'.BurnsCover := by
  refine (hrun.invariant (fun canister => PendingRecorded canister.log canister.state ∧
    (FeesBurned canister.log → canister.BurnsCover)) ?_ ?_ ⟨hpending, fun _ => h⟩).2 hburned
  · exact fun canister transient ⟨hpending, h⟩ => ⟨⟨hpending.keyed, hpending.amount⟩, h⟩
  · intro state log now payload state' hemits ⟨hpending, h⟩ heffect
    exact ⟨hpending.effect heffect, fun hburned =>
      (h hburned.of_append).effect hemits hpending heffect hburned⟩

theorem Canister.BurnsCover.of_init {args : InitArgs} {now : Timestamp}
    (h : Canister.init args now = .ok canister) : canister.BurnsCover := by
  obtain ⟨_, pool, -, -, rfl⟩ := Canister.exists_of_init h
  simp [BurnsCover, totalDebited, createdDebits, withdrawalRecord, WithdrawalRecord.apply,
    WithdrawalRecord.empty]

omit [SolanaSdk] in
/-- The three accounts together: mints are covered by credits, credits by the balance and the debits,
and debits by burns. -/
theorem Canister.solvent_of_accounts (hmints : canister.MintsConserved)
    (hbalance : canister.BalanceAccounted) (hburns : canister.BurnsCover) : canister.Solvent := by
  have hpending : canister.state.pendingWithdrawalRequests.sumBy State.transferAmount ≤
      canister.state.pendingWithdrawalRequests.sumBy State.transferWithFee := by
    refine List.sum_le_sum fun entry _ => ?_
    exact Nat.le_add_right _ _
  unfold MintsConserved at hmints
  unfold BalanceAccounted at hbalance
  unfold BurnsCover at hburns
  unfold Solvent liabilities
  omega

/-! ## Runs -/

namespace Config

variable {config config' : Config} {now : Timestamp} {action : Action}

/-- A burn succeeds while the withdrawal fee pays for a transaction. -/
def FeeCovers (config : Config) : Action → Prop
  | .burned _ (.blockIndex _) => batchWithdrawalTxFee ≤ config.canister.state.withdrawalFee
  | _ => True

instance (config : Config) (action : Action) : Decidable (config.FeeCovers action) := by
  unfold FeeCovers
  split <;> infer_instance

/-- A message that accepts a withdrawal under such a fee. -/
theorem feesBurned_of_steps (h : FeesBurned config.canister.log) (hwellformed : config.Wellformed)
    (hcovers : config.FeeCovers action) (hsteps : config.Steps now action config') :
    FeesBurned config'.canister.log := by
  intro timestamp request hmem
  rcases (hsteps.run hwellformed.replayable).mem_log hmem with hold | ⟨_, hrecords⟩
  · exact h timestamp request hold
  obtain ⟨position, hburned⟩ := hrecords.recordedBy
  generalize request.burnBlockIndex = blockIndex at hburned
  subst hburned
  cases hsteps with
  | burned hcall hindex hamount hevent =>
      obtain ⟨state, -, rfl⟩ := processEvent_eq_ok.mp hevent
      rcases List.mem_append.mp hmem with hold | hnew
      · exact h timestamp request hold
      · have hpayload := congrArg Event.payload (List.mem_singleton.mp hnew)
        obtain rfl := EventType.acceptedWithdrawalRequest.inj hpayload
        have hfee := UInt64.le_iff_toNat_le.mp hcovers
        rw [checkedSub_eq_some] at hamount
        dsimp only
        omega
  | unchanged | withdrawEnded | depositSolEnded => exact h timestamp request hmem

/-- In every run that accepts withdrawals under a fee that pays for a transaction, the balance covers
the liabilities. -/
theorem solvent_of_run {minterId : Principal} {args : InitArgs} {actions : List (Timestamp × Action)}
    (h : runFrom minterId args now actions = some config)
    (hcovers : ∀ done t action rest reached, actions = done ++ (t, action) :: rest →
      runFrom minterId args now done = some reached → reached.FeeCovers action)
    (hfits : SumsFit config.canister.log) : config.canister.Solvent := by
  have hburned : FeesBurned config.canister.log := by
    refine runFrom_induction (fun taken config => (∀ done t action rest reached,
      taken = done ++ (t, action) :: rest → runFrom minterId args now done = some reached →
        reached.FeeCovers action) → FeesBurned config.canister.log) ?_ ?_ h hcovers
    · intro config hinit _
      obtain ⟨_, pool, -, -, rfl⟩ := Config.exists_of_init hinit
      simp [FeesBurned, idle]
    · intro taken config t action config' htaken ih hsteps hcovers
      have hwellformed := wellformed_of_run htaken
      refine feesBurned_of_steps (ih fun done t' action' rest reached heq hreached => ?_) hwellformed
        (hcovers taken t action [] config rfl htaken) hsteps
      refine hcovers done t' action' (rest ++ [(t, action)]) reached ?_ hreached
      rw [heq, List.append_assoc, List.cons_append]
  obtain ⟨-, initial, hinit, hrun⟩ := emits_of_run h
  have hsettled := hrun.mono fun _ _ _ hemits => hemits.settled
  exact solvent_of_accounts (MintsConserved.run (.of_init hinit) (.of_init hinit) hsettled hfits)
    (BalanceAccounted.run (.of_init hinit) (.of_init hinit) hrun hfits)
    (BurnsCover.run (.of_init hinit) (.of_init hinit) hrun hburned)

end Config

end Solvency

section Sample

attribute [local instance] Solana.sdk

theorem Config.solvent_sampleWithdrawal :
    ∃ config, runFrom sampleMinterId sampleInitArgs 0 (sampleDeposit ++ sampleWithdrawal) =
        some config ∧ SumsFit config.canister.log ∧
      config.canister.state.balance = 27_104_120 ∧ config.canister.Solvent := by
  obtain ⟨config, hconfig, hfits, hbalance⟩ : ∃ config,
      runFrom sampleMinterId sampleInitArgs 0 (sampleDeposit ++ sampleWithdrawal) = some config ∧
      SumsFit config.canister.log ∧ config.canister.state.balance = 27_104_120 :=
    exists_of_any (by decide +kernel)
  -- the fee of the installation is in force before each of the actions
  have hcovers : ((List.range 19).all fun i =>
      (runFrom sampleMinterId sampleInitArgs 0 ((sampleDeposit ++ sampleWithdrawal).take i)).all
        fun reached => (sampleDeposit ++ sampleWithdrawal)[i]?.all
          fun entry => reached.FeeCovers entry.2) = true := by
    decide +kernel
  refine ⟨config, hconfig, hfits, hbalance, solvent_of_run hconfig ?_ hfits⟩
  intro done t action rest reached hactions hreached
  have hlength : done.length < 19 := by
    have hsame := congrArg List.length hactions
    have htotal : (sampleDeposit ++ sampleWithdrawal).length = 19 := rfl
    rw [htotal, List.length_append, List.length_cons] at hsame
    omega
  have hentry := List.all_eq_true.mp hcovers done.length (List.mem_range.mpr hlength)
  rw [hactions, List.take_left, hreached, List.getElem?_append_right le_rfl, Nat.sub_self] at hentry
  exact of_decide_eq_true hentry

/-- An accepted fee of zero: the first created transaction costs more than its withdrawal burned. -/
theorem Config.not_solvent_sampleWithdrawal :
    ∃ config, runFrom sampleMinterId { sampleInitArgs with withdrawalFee := 0 } 0
        (sampleDeposit ++ sampleWithdrawal) = some config ∧
      SumsFit config.canister.log ∧ ¬ config.canister.Solvent := by
  obtain ⟨config, hconfig, htest⟩ : ∃ config,
      runFrom sampleMinterId { sampleInitArgs with withdrawalFee := 0 } 0 (sampleDeposit ++
        sampleWithdrawal) = some config ∧
      SumsFit config.canister.log ∧ ¬ config.canister.Solvent :=
    exists_of_any (by decide +kernel)
  exact ⟨config, hconfig, htest⟩

end Sample

end Cksol
