import Mathlib.Algebra.Order.BigOperators.Group.List
import Mathlib.Algebra.Order.Group.Nat
import Mathlib.Data.List.Perm.Subperm
import Cksol.State.DepositHistory

/-! # Mint conservation

What credited sweeps bring in is what pending, confirmed and unresolved mints stand for, plus the
automatic deposit fees. Every other stage of a deposit counts for nothing.
-/

namespace Cksol

open Std

/-- What a credited sweep brings in. -/
def EventType.amountReceived : EventType → ℕ
  | creditedSweep _ amountReceived _ => amountReceived.toNat
  | _ => 0

/-- The sum over all credited sweeps. -/
def totalReceived (log : List Event) : ℕ :=
  (log.map fun event => event.payload.amountReceived).sum

theorem totalReceived_append (log new : List Event) :
    totalReceived (log ++ new) = totalReceived log + totalReceived new := by
  simp [totalReceived]

@[simp] theorem totalReceived_singleton (event : Event) :
    totalReceived [event] = event.payload.amountReceived := by
  simp [totalReceived]

/-- The amount of an unresolved mint; an unreadable sweep has none. -/
def QuarantinedDeposit.unresolvedAmount (quarantined : QuarantinedDeposit) : ℕ :=
  match quarantined.cause with
  | .mintUnresolved amountToMint _ => amountToMint.toNat
  | .sweepUnreadable => 0

/-- The ckSOL that the deposits stand for: pending mints, confirmed ones and unresolved ones. -/
def Deposits.totalMints (deposits : Deposits) : ℕ :=
  deposits.pendingMints.sumBy (·.amountToMint.toNat) +
    deposits.minted.sumBy (·.mintedAmount.toNat) +
    deposits.quarantined.sumBy QuarantinedDeposit.unresolvedAmount

/-- The lamport sums that the minter computes over credits and over the deposits of a sweep fit a
`u64`, as they do while they are bounded by the supply of SOL. -/
structure SumsFit (log : List Event) : Prop where
  received : totalReceived log < 2 ^ 64
  swept : ∀ depositIds ∈ submittedSweeps log,
    (((queuedDeposits log).filter (·.1 ∈ depositIds)).map (·.2.balance.lamports.toNat)).sum < 2 ^ 64

instance (log : List Event) : Decidable (SumsFit log) :=
  decidable_of_iff (totalReceived log < 2 ^ 64 ∧ ∀ depositIds ∈ submittedSweeps log,
    (((queuedDeposits log).filter (·.1 ∈ depositIds)).map (·.2.balance.lamports.toNat)).sum < 2 ^ 64)
    ⟨fun h => ⟨h.1, h.2⟩, fun h => ⟨h.1, h.2⟩⟩

theorem SumsFit.of_append {log new : List Event} (h : SumsFit (log ++ new)) : SumsFit log := by
  refine ⟨?_, fun depositIds hmem => ?_⟩
  · have hreceived := h.received
    rw [totalReceived_append] at hreceived
    omega
  · have hswept := h.swept depositIds (by rw [submittedSweeps_append]; exact List.mem_append_left _ hmem)
    rw [queuedDeposits_append, List.filter_append, List.map_append, List.sum_append] at hswept
    omega

/-- The balances of the deposits of a recorded sweep fit together. -/
theorem SumsFit.totalBalance_lt {log : List Event} (h : SumsFit log) {sweep : Sweep}
    (hrecorded : sweep.RecordedIn log) : sweep.totalBalance < 2 ^ 64 := by
  obtain ⟨deposits, minterAddress, hplan, hsubmitted, hqueued⟩ := hrecorded
  obtain ⟨payer, payerAmount, hunique, -⟩ := Sweep.plan_eq_ok hplan
  obtain ⟨-, hget⟩ := Sweep.unique_eq_ok hunique
  -- the entries of the sweep are among the queued ones with the ids that were submitted
  have hsubset : sweep.deposits.toList ⊆
      (queuedDeposits log).filter (·.1 ∈ deposits.map Prod.fst) := by
    rintro ⟨id, deposit⟩ hentry
    have hmem := (hget id deposit).mp (OrdMap.mem_toList_iff.mp hentry)
    rw [List.mem_filter, decide_eq_true_eq]
    exact ⟨hqueued _ hmem, List.mem_map_of_mem hmem⟩
  obtain ⟨entries, hperm, hsublist⟩ :=
    List.subperm_of_subset (OrdMap.nodup_toList sweep.deposits) hsubset
  calc sweep.totalBalance
      = (entries.map (·.2.balance.lamports.toNat)).sum := (hperm.map _).sum_eq.symm
    _ ≤ (((queuedDeposits log).filter (·.1 ∈ deposits.map Prod.fst)).map
          (·.2.balance.lamports.toNat)).sum := (hsublist.map _).sum_le_sum (by simp)
    _ < 2 ^ 64 := h.swept _ hsubmitted

/-- Credits come from `Sweep::settle` on the recorded sweep. -/
def SettledCredits [SolanaSdk] (state : State) (_ : Timestamp) (payload : EventType) : Prop :=
  ∀ signature amountReceived mints, payload = .creditedSweep signature amountReceived mints →
    ∃ sweep fetched, state.deposits.finalized.get signature = some sweep ∧
      sweep.settle fetched = .ok ⟨amountReceived, mints⟩

/-- A settled sweep brings in what its mints and its deposit fees take. -/
theorem Sweep.amountReceived_eq [SolanaSdk] {sweep : Sweep} {log : List Event}
    (hrecorded : sweep.RecordedIn log) (hfits : SumsFit log) {fetched : FetchedTransaction}
    {settled : Settled} (h : sweep.settle fetched = .ok settled) :
    settled.amountReceived.toNat = (settled.mints.map (·.amountToMint.toNat)).sum +
      sweep.depositFees.toNat := by
  have hbalance := hfits.totalBalance_lt hrecorded
  obtain ⟨deposits, minterAddress, hplan, -⟩ := hrecorded
  obtain ⟨hreceived, hmints, -⟩ := settle_eq_ok h
  have hsum := sum_mints hmints
  have hexpected := toNat_expectedReceived hplan hbalance
  have htotal := sweep.totalBalance_eq
  rw [toNat_feeShare hplan hbalance] at hsum
  have hfees : sweep.depositFees.toNat = sweep.totalDepositFees := by
    rw [sweep.toNat_depositFees, Nat.mod_eq_of_lt (by omega)]
  rw [hreceived, hfees]
  omega

/-! ## Transitions -/

namespace Deposits

variable {deposits deposits' : Deposits} {view : View} {id : DepositSolId}

/-- A deposit with a pending mint has no other record. -/
theorem getElem?_of_pendingMint (htracks : Tracks deposits view) {pending : PendingMint}
    (h : deposits.pendingMints[id]? = some pending) :
    deposits.minted[id]? = none ∧ deposits.quarantined[id]? = none := by
  have hview := (htracks.pendingMints id pending).mp h
  constructor
  · refine Option.eq_none_iff_forall_ne_some.mpr fun minted hminted => ?_
    rw [htracks.minted, hview] at hminted
    cases hminted
  · refine Option.eq_none_iff_forall_ne_some.mpr fun quarantined hquarantined => ?_
    rw [htracks.quarantined, hview] at hquarantined
    cases hquarantined

/-- A confirmed mint has the amount that was pending. -/
theorem totalMints_mint (htracks : Tracks deposits view) {mintBlockIndex : LedgerMintIndex}
    (h : deposits.mint id mintBlockIndex = .ok deposits') :
    deposits'.totalMints = deposits.totalMints := by
  obtain ⟨pending, hpending, -, rfl⟩ := mint_eq_ok h
  have herase := OrdMap.sumBy_erase (f := fun pending : PendingMint => pending.amountToMint.toNat)
    hpending
  have hinsert := OrdMap.sumBy_insert (f := fun minted : MintedSweep => minted.mintedAmount.toNat)
    (v := ⟨pending.deposit, pending.amountToMint, mintBlockIndex⟩)
    (getElem?_of_pendingMint htracks hpending).1
  simp only [totalMints] at *
  omega

/-- An unresolved mint keeps the amount that was pending. -/
theorem totalMints_quarantinePendingMint (htracks : Tracks deposits view)
    (h : deposits.quarantinePendingMint id = .ok deposits') :
    deposits'.totalMints = deposits.totalMints := by
  obtain ⟨pending, hpending, rfl⟩ := quarantinePendingMint_eq_ok h
  have herase := OrdMap.sumBy_erase (f := fun pending : PendingMint => pending.amountToMint.toNat)
    hpending
  have hinsert := OrdMap.sumBy_insert (f := QuarantinedDeposit.unresolvedAmount)
    (v := ⟨pending.deposit, .mintUnresolved pending.amountToMint pending.createdAtTime⟩)
    (getElem?_of_pendingMint htracks hpending).2
  simp only [totalMints, QuarantinedDeposit.unresolvedAmount] at *
  omega

/-- A sweep whose outcome cannot be read mints nothing. -/
theorem totalMints_quarantineSweep (htracks : Tracks deposits view) {signature : Signature}
    (h : deposits.quarantineSweep signature = .ok deposits') :
    deposits'.totalMints = deposits.totalMints := by
  obtain ⟨sweep, hsweep, rfl⟩ := quarantineSweep_eq_ok h
  have hfresh : ∀ entry ∈ sweep.deposits.toList, deposits.quarantined[entry.1]? = none := by
    intro entry hentry
    have hview := (htracks.finalized_deposits hsweep entry.1 entry.2).mp
      (OrdMap.mem_toList_iff.mp hentry)
    refine Option.eq_none_iff_forall_ne_some.mpr fun quarantined hquarantined => ?_
    rw [htracks.quarantined, hview] at hquarantined
    cases hquarantined
  have hkeys : (sweep.deposits.toList.map Prod.fst).Nodup := by
    rw [ExtTreeMap.map_fst_toList_eq_keys]
    exact OrdMap.nodup_keys _
  simp only [totalMints]
  rw [OrdMap.sumBy_insertAll]
  · simp [Function.comp_def, QuarantinedDeposit.unresolvedAmount]
  · simpa [Function.comp_def] using hkeys
  · intro entry hentry
    obtain ⟨source, hsource, rfl⟩ := List.mem_map.mp hentry
    exact hfresh source hsource

theorem totalMints_creditSweep {signature : Signature} {mints : List CreditedDeposit}
    {timestamp : Timestamp} {sweep : Sweep}
    (h : deposits.creditSweep signature mints timestamp = .ok (deposits', sweep)) :
    deposits'.totalMints = deposits.totalMints + (mints.map (·.amountToMint.toNat)).sum := by
  obtain ⟨-, -, pendingMints, hcredited, rfl⟩ := creditSweep_eq_ok h
  have hsum := hcredited.sum
  simp only [totalMints]
  omega

end Deposits

/-! ## Runs -/

section Runs

variable [SolanaSdk]

/-- Mints and collected fees are what the credited sweeps brought in. -/
def Canister.MintsConserved (canister : Canister) : Prop :=
  canister.state.deposits.totalMints + canister.state.collectedAutomaticDepositFees.toNat =
    totalReceived canister.log

/-- A credit splits what it brings in; no other event changes either side. -/
theorem Canister.MintsConserved.effect {state state' : State} {log : List Event}
    {timestamp : Timestamp} {payload : EventType} {view : View}
    (hhistory : DepositHistory log state.deposits view)
    (h : MintsConserved ⟨state, log⟩) (hsettled : SettledCredits state timestamp payload)
    (heffect : state.Effect timestamp payload state')
    (hfits : SumsFit (log ++ [⟨timestamp, payload⟩])) :
    MintsConserved ⟨state', log ++ [⟨timestamp, payload⟩]⟩ := by
  have htracks := hhistory.tracks
  have hreceived := hfits.received
  simp only [MintsConserved, totalReceived_append, totalReceived_singleton] at *
  cases heffect with
  | @creditedSweep signature amountReceived covered mints deposits sweep hcredit _ _ =>
      obtain ⟨hsweep, -⟩ := Deposits.creditSweep_eq_ok hcredit
      obtain ⟨sweep', fetched, hget, hsettle⟩ := hsettled _ _ _ rfl
      obtain rfl : sweep = sweep' := Option.some.inj (hsweep.symm.trans hget)
      have hamount := Sweep.amountReceived_eq (hhistory.finalized hsweep) hfits.of_append hsettle
      have htotal := Deposits.totalMints_creditSweep hcredit
      simp only [EventType.amountReceived] at *
      rw [toNat_add_of_lt (by omega), htotal]
      omega
  -- a mint or a quarantine moves an amount from one stage to another
  | minted hmint =>
      rw [Deposits.totalMints_mint htracks hmint]
      exact h
  | quarantinedPendingMint hquarantine =>
      rw [Deposits.totalMints_quarantinePendingMint htracks hquarantine]
      exact h
  | quarantinedSweep hquarantine =>
      rw [Deposits.totalMints_quarantineSweep htracks hquarantine]
      exact h
  | sweptDeposits _ _ _ _ hsweep =>
      obtain ⟨_, _, -, -, -, -, -, -, rfl⟩ := Deposits.sweep_eq_ok hsweep
      exact h
  | succeededSweep _ _ _ hfinalize =>
      obtain ⟨_, -, -, rfl⟩ := Deposits.finalizeSwept_eq_ok hfinalize
      exact h
  | failedSweep _ _ _ hdrop =>
      obtain ⟨_, -, -, rfl⟩ := Deposits.dropSwept_eq_ok hdrop
      exact h
  | expiredSweep _ _ _ hdrop =>
      obtain ⟨_, -, -, rfl⟩ := Deposits.dropSwept_eq_ok hdrop
      exact h
  | queuedDeposit hqueue =>
      obtain ⟨-, -, _, -, rfl⟩ := Deposits.queue_eq_ok hqueue
      exact h
  | _ => exact h

/-- A run whose credits come from `Sweep::settle` conserves what its sweeps bring in. -/
theorem Canister.MintsConserved.run {canister canister' : Canister} {view : View}
    (hhistory : DepositHistory canister.log canister.state.deposits view)
    (h : canister.MintsConserved) (hrun : Run SettledCredits canister canister')
    (hfits : SumsFit canister'.log) : canister'.MintsConserved := by
  refine (hrun.invariant (fun canister =>
    (∃ view, DepositHistory canister.log canister.state.deposits view) ∧
      (SumsFit canister.log → canister.MintsConserved)) ?_ ?_ ⟨⟨view, hhistory⟩, fun _ => h⟩).2 hfits
  · rintro canister transient ⟨⟨view, hhistory⟩, hconserved⟩
    exact ⟨⟨view, hhistory.withWatchlist _⟩, hconserved⟩
  · rintro state log now payload state' hsettled ⟨⟨view, hhistory⟩, hconserved⟩ heffect
    refine ⟨hhistory.effect heffect, fun hfits => ?_⟩
    exact MintsConserved.effect hhistory (hconserved hfits.of_append) hsettled heffect hfits

/-- Nothing is credited at first. -/
theorem Canister.MintsConserved.of_init {args : InitArgs} {now : Timestamp} {canister : Canister}
    (h : Canister.init args now = .ok canister) : canister.MintsConserved := by
  obtain ⟨_, pool, -, -, rfl⟩ := Canister.exists_of_init h
  simp [MintsConserved, Deposits.totalMints, Deposits.default, EventType.amountReceived]

end Runs

end Cksol
