import Cksol.Solana.Transfer
import Cksol.State.DepositStages
import Cksol.State.Settlement

/-! # Plans that succeed

Distinct deposits that each cover the fee of a full sweep have a plan. The plan does not depend on the
order of the deposits, so a sweep is recovered as it was planned as long as its deposits are queued.
-/

namespace Cksol

open Std

namespace Sweep

variable {deposits : List (DepositSolId × QueuedDeposit)} {minterAddress : Address} {sweep : Sweep}

theorem exists_unique_eq_ok (h : (deposits.map Prod.fst).Nodup) :
    ∃ result, unique deposits = .ok result := by
  refine exists_foldlM_eq_ok (P := fun rest result =>
    (rest.map Prod.fst).Nodup ∧ ∀ entry ∈ rest, entry.1 ∉ result) ⟨h, by simp⟩ ?_
  rintro entry rest result ⟨hnodup, hfresh⟩
  obtain ⟨hentry, hrest⟩ := List.nodup_cons.mp hnodup
  refine ⟨result.insert entry.1 entry.2, ?_, hrest, fun entry' hentry' => ?_⟩
  · simp only [bind_eq_ok, check_eq_ok, pure_eq_ok]
    exact ⟨⟨⟩, hfresh entry List.mem_cons_self, trivial⟩
  · rw [OrdMap.mem_insert_iff, not_or]
    exact ⟨fun heq => hentry (heq ▸ List.mem_map_of_mem hentry'),
      hfresh entry' (List.mem_cons_of_mem _ hentry')⟩

theorem toList_perm_of_unique {result : OrdMap DepositSolId QueuedDeposit}
    (h : unique deposits = .ok result) : result.toList.Perm deposits := by
  obtain ⟨hnodup, hget⟩ := unique_eq_ok h
  refine (List.perm_ext_iff_of_nodup (OrdMap.nodup_toList result) hnodup.of_map).mpr ?_
  rintro ⟨depositId, deposit⟩
  rw [OrdMap.mem_toList_iff, hget]

theorem unique_toList (deposits : OrdMap DepositSolId QueuedDeposit) :
    unique deposits.toList = .ok deposits := by
  have hnodup : (deposits.toList.map Prod.fst).Nodup := by
    rw [ExtTreeMap.map_fst_toList_eq_keys]
    exact OrdMap.nodup_keys deposits
  obtain ⟨result, hresult⟩ := exists_unique_eq_ok hnodup
  have heq : result = deposits := by
    refine ExtTreeMap.ext_getElem? fun depositId => Option.ext fun deposit => ?_
    rw [(unique_eq_ok hresult).2, OrdMap.mem_toList_iff]
  rw [hresult, heq]

/-- The plan of a sweep is the plan of its deposits in id order. -/
theorem plan_toList_deposits (h : plan deposits minterAddress = .ok sweep) :
    plan sweep.deposits.toList minterAddress = .ok sweep := by
  obtain ⟨payer, payerAmount, hunique, -⟩ := plan_eq_ok h
  rw [plan, hunique] at h
  rw [plan, unique_toList]
  exact h

theorem payerKeyLe_iff {a b : DepositSolId × QueuedDeposit} : payerKeyLe a b ↔
    a.2.sweepableAmount.toNat < b.2.sweepableAmount.toNat ∨
      (a.2.sweepableAmount.toNat = b.2.sweepableAmount.toNat ∧ b.1 ≤ a.1) := by
  rw [payerKeyLe, decide_eq_true_eq, UInt64.lt_iff_toNat_lt, UInt64.toNat_inj]

theorem payerKeyLe_trans {a b c : DepositSolId × QueuedDeposit} (hab : payerKeyLe a b)
    (hbc : payerKeyLe b c) : payerKeyLe a c := by
  rw [payerKeyLe_iff]
  rcases payerKeyLe_iff.mp hab with hab | ⟨hab, hid⟩ <;>
    rcases payerKeyLe_iff.mp hbc with hbc | ⟨hbc, hid'⟩
  · exact .inl (hab.trans hbc)
  · exact .inl (hbc ▸ hab)
  · exact .inl (hab ▸ hbc)
  · exact .inr ⟨hab.trans hbc, Nat.le_trans hid' hid⟩

/-- Of two entries, the better one is kept. -/
theorem payerKeyLe_better (best next : DepositSolId × QueuedDeposit) :
    payerKeyLe best (if payerKeyLe best next then next else best) ∧
      payerKeyLe next (if payerKeyLe best next then next else best) := by
  split
  case isTrue hle => exact ⟨hle, payerKeyLe_iff.mpr (.inr ⟨rfl, Nat.le_refl _⟩)⟩
  case isFalse hnot =>
    refine ⟨payerKeyLe_iff.mpr (.inr ⟨rfl, Nat.le_refl _⟩), payerKeyLe_iff.mpr ?_⟩
    rw [payerKeyLe_iff] at hnot
    rcases Nat.lt_trichotomy next.2.sweepableAmount.toNat best.2.sweepableAmount.toNat with
      hlt | heq | hgt
    · exact .inl hlt
    · exact .inr ⟨heq, (Nat.le_total best.1 next.1).resolve_right fun hle => hnot (.inr ⟨heq.symm, hle⟩)⟩
    · exact absurd (.inl hgt) hnot

/-- The fee payer has the largest sweepable amount, and the lowest id among those that have it. -/
theorem payerKeyLe_of_maxByPayerKey {entries : List (DepositSolId × QueuedDeposit)}
    {payer : DepositSolId × QueuedDeposit} (h : maxByPayerKey entries = some payer) :
    ∀ entry ∈ entries, payerKeyLe entry payer := by
  cases entries with
  | nil => cases h
  | cons first rest =>
      obtain rfl := Option.some.inj h
      -- the best entry so far is at least those already passed
      suffices key : ∀ best, ∀ entry ∈ best :: rest, payerKeyLe entry
          (rest.foldl (fun best next => if payerKeyLe best next then next else best) best) from key first
      clear h
      induction rest with
      | nil =>
          intro best entry hentry
          obtain rfl := List.mem_singleton.mp hentry
          exact payerKeyLe_iff.mpr (.inr ⟨rfl, Nat.le_refl _⟩)
      | cons next rest ih =>
          intro best entry hentry
          rw [List.foldl_cons]
          have hrest := ih (if payerKeyLe best next then next else best)
          have hchosen := hrest _ List.mem_cons_self
          rcases List.mem_cons.mp hentry with rfl | hentry
          · exact payerKeyLe_trans (payerKeyLe_better entry next).1 hchosen
          rcases List.mem_cons.mp hentry with rfl | hentry
          · exact payerKeyLe_trans (payerKeyLe_better best entry).2 hchosen
          · exact hrest entry (List.mem_cons_of_mem _ hentry)

/-- Distinct deposits can be swept together when one of them covers the fee. -/
theorem exists_plan_of_covered (hnodup : (deposits.map Prod.fst).Nodup)
    {entry : DepositSolId × QueuedDeposit} (hentry : entry ∈ deposits)
    (hamount : feePerSignature.toNat * deposits.length ≤ entry.2.sweepableAmount.toNat)
    (minterAddress : Address) :
    ∃ sweep, plan deposits minterAddress = .ok sweep := by
  obtain ⟨result, hunique⟩ := exists_unique_eq_ok hnodup
  have hperm := toList_perm_of_unique hunique
  have hmem : entry ∈ result.toList := hperm.symm.subset hentry
  obtain ⟨payer, hpayer⟩ : ∃ payer, maxByPayerKey result.toList = some payer := by
    cases hlist : result.toList with
    | nil =>
        rw [hlist] at hmem
        cases hmem
    | cons first rest => exact ⟨_, rfl⟩
  have hlargest := payerKeyLe_iff.mp (payerKeyLe_of_maxByPayerKey hpayer entry hmem)
  have hsize : result.size = deposits.length := by
    rw [← ExtTreeMap.length_toList, hperm.length_eq]
  rw [toNat_feePerSignature] at hamount
  have hfee : (feePerSignature * UInt64.ofNat result.size).toNat = 5000 * result.size := by
    have hlt := entry.2.sweepableAmount.toNat_lt
    rw [UInt64.toNat_mul, UInt64.toNat_ofNat', toNat_feePerSignature, hsize]
    omega
  have hcovered : checkedSub payer.2.sweepableAmount (feePerSignature * UInt64.ofNat result.size) =
      some (payer.2.sweepableAmount - feePerSignature * UInt64.ofNat result.size) := by
    rw [checkedSub_eq_some, UInt64.toNat_sub_of_le _ _ (UInt64.le_iff_toNat_le.mpr (by omega))]
    omega
  simp only [plan, bind_eq_ok, orPanic_eq_ok, pure_eq_ok]
  exact ⟨_, result, hunique, payer, hpayer, _, hcovered, rfl⟩

/-- Distinct deposits that each cover the fee of a full sweep can be swept together. -/
theorem exists_plan_eq_ok (hnodup : (deposits.map Prod.fst).Nodup) (hne : deposits ≠ [])
    (hlength : deposits.length ≤ maxDepositsPerSweep)
    (hamount : ∀ entry ∈ deposits,
      feePerSignature.toNat * maxDepositsPerSweep ≤ entry.2.sweepableAmount.toNat)
    (minterAddress : Address) : ∃ sweep, plan deposits minterAddress = .ok sweep := by
  obtain ⟨entry, hentry⟩ := List.exists_mem_of_ne_nil _ hne
  refine exists_plan_of_covered hnodup hentry ?_ minterAddress
  exact (Nat.mul_le_mul_left _ hlength).trans (hamount entry hentry)

/-- Every transfer leaves the address of a deposit of the sweep. -/
theorem exists_deposit_of_mem_transfers (h : plan deposits minterAddress = .ok sweep)
    {transfer : Transfer} (htransfer : transfer ∈ sweep.transfers) :
    ∃ deposit ∈ sweep.deposits.values, deposit.address = transfer.source := by
  obtain ⟨payer, payerAmount, -, hpayer, -, -, -, -, htransfers, -⟩ := plan_eq_ok h
  have hvalue : ∀ entry ∈ sweep.deposits.toList, entry.2 ∈ sweep.deposits.values :=
    fun entry hentry => OrdMap.mem_values_iff.mpr ⟨entry.1, OrdMap.mem_toList_iff.mp hentry⟩
  rw [htransfers] at htransfer
  rcases List.mem_cons.mp htransfer with rfl | hother
  · exact ⟨payer.2, hvalue _ (mem_of_maxByPayerKey hpayer), rfl⟩
  · obtain ⟨entry, hentry, rfl⟩ := List.mem_map.mp hother
    have hmem := (List.mem_insertionSort _).mp hentry
    exact ⟨entry.2, hvalue _ (List.mem_of_mem_filter hmem), rfl⟩

/-- The plan of the deposits recovers the message that was built from it. -/
theorem recover_sweepMessage [SolanaSdk] [SolanaSdk.Lawful]
    (h : plan deposits minterAddress = .ok sweep) (blockhash : Hash) :
    recover deposits minterAddress (sweep.sweepMessage blockhash) = .ok (.ok sweep) := by
  have hblockhash : (sweep.sweepMessage blockhash).recentBlockhash = blockhash :=
    SolanaSdk.Lawful.recentBlockhash_new _ _ _
  simp [recover, h, hblockhash]

/-- Plans with one message bring in one amount. -/
theorem expectedReceived_of_sweepMessage [SolanaSdk] [SolanaSdk.Lawful]
    {deposits' : List (DepositSolId × QueuedDeposit)} {minterAddress' : Address} {sweep' : Sweep}
    (h : plan deposits minterAddress = .ok sweep) (h' : plan deposits' minterAddress' = .ok sweep')
    {blockhash blockhash' : Hash}
    (hmessage : sweep.sweepMessage blockhash = sweep'.sweepMessage blockhash') :
    sweep.expectedReceived = sweep'.expectedReceived := by
  obtain ⟨-, -, -, -, -, -, -, -, -, hreceived⟩ := plan_eq_ok h
  obtain ⟨-, -, -, -, -, -, -, -, -, hreceived'⟩ := plan_eq_ok h'
  have hdata := congrArg (·.instructions.map CompiledInstruction.data) hmessage
  dsimp only [sweepMessage] at hdata
  rw [map_data_newWithBlockhash, map_data_newWithBlockhash] at hdata
  rw [hreceived, hreceived', map_amount_of_map_data hdata]

end Sweep

namespace Deposits

variable {deposits : Deposits}

/-- Queued deposits are taken in the order of their ids. -/
theorem takeQueued_keys {queued taken : OrdMap DepositSolId QueuedDeposit}
    (h : ∀ (depositId : DepositSolId) (deposit : QueuedDeposit), taken[depositId]? = some deposit →
      queued[depositId]? = some deposit) :
    takeQueued queued taken.keys = .ok (queued.eraseAll taken.keys, taken.toList) := by
  obtain ⟨⟨queued', taken'⟩, htake⟩ : ∃ result, takeQueued queued taken.keys = .ok result := by
    refine exists_foldlM_eq_ok (P := fun rest
      (result : OrdMap DepositSolId QueuedDeposit × List (DepositSolId × QueuedDeposit)) =>
      rest.Nodup ∧ ∀ depositId ∈ rest, depositId ∈ result.1) ⟨OrdMap.nodup_keys taken, ?_⟩ ?_
    · intro depositId hmem
      obtain ⟨deposit, hdeposit⟩ := OrdMap.mem_iff_exists.mp (ExtTreeMap.mem_keys.mp hmem)
      exact OrdMap.mem_iff_exists.mpr ⟨deposit, h _ _ hdeposit⟩
    · rintro depositId rest ⟨queued₁, taken₁⟩ ⟨hnodup, hmem⟩
      obtain ⟨hnew, hrest⟩ := List.nodup_cons.mp hnodup
      obtain ⟨deposit, hdeposit⟩ := OrdMap.mem_iff_exists.mp (hmem depositId List.mem_cons_self)
      refine ⟨(queued₁.erase depositId, taken₁ ++ [(depositId, deposit)]), ?_, hrest, ?_⟩
      · simp only [bind_eq_ok, orPanic_eq_ok, pure_eq_ok]
        exact ⟨deposit, hdeposit, rfl⟩
      · intro other hother
        exact OrdMap.mem_erase_iff.mpr ⟨fun heq => hnew (heq ▸ hother),
          hmem other (List.mem_cons_of_mem _ hother)⟩
  obtain ⟨-, hids, hget, rfl⟩ := takeQueued_eq_ok htake
  -- both lists have the same ids, and the queue determines what stands under an id
  have hread : ∀ l : List (DepositSolId × QueuedDeposit),
      (∀ entry ∈ l, queued[entry.1]? = some entry.2) →
      l.map (fun entry => (entry.1, some entry.2)) =
        (l.map Prod.fst).map fun depositId => (depositId, queued[depositId]?) := by
    intro l hl
    rw [List.map_map]
    exact List.map_congr_left fun entry hentry => by simp [hl entry hentry]
  have hinjective : Function.Injective fun entry : DepositSolId × QueuedDeposit =>
      (entry.1, some entry.2) := by
    rintro ⟨depositId, deposit⟩ ⟨depositId', deposit'⟩ heq
    simpa using heq
  have hsame : taken' = taken.toList := by
    refine List.map_injective_iff.mpr hinjective ?_
    rw [hread _ hget, hread _ fun entry hentry => h _ _ (OrdMap.mem_toList_iff.mp hentry), hids,
      ExtTreeMap.map_fst_toList_eq_keys]
  rw [htake, hsame]

/-- A sweep whose deposits are queued as they were planned is recorded under a new signature. -/
theorem sweep_planned [SolanaSdk] [SolanaSdk.Lawful] {view : View} (h : Tracks deposits view)
    {sweep : Sweep} {minterAddress : Address} {signature : Signature}
    (hplan : Sweep.plan sweep.deposits.toList minterAddress = .ok sweep)
    (hqueued : ∀ (depositId : DepositSolId) (deposit : QueuedDeposit),
      sweep.deposits[depositId]? = some deposit → deposits.queued[depositId]? = some deposit)
    (hsignature : deposits.swept.bySignature[signature]? = none) (blockhash : Hash) :
    deposits.sweep sweep.deposits.keys minterAddress (sweep.sweepMessage blockhash) signature =
      .ok ({ deposits with
        queued := deposits.queued.eraseAll sweep.deposits.keys
        swept := ⟨deposits.swept.bySignature.insert signature sweep⟩ }, sweep.expectedReceived) := by
  have hkeys : sweep.deposits.keys ≠ [] := by
    rw [← List.length_pos_iff, ExtTreeMap.length_keys]
    exact Sweep.depositCount_pos hplan
  -- a queued deposit is in no sweep
  have hfree : ∀ depositId ∈ sweep.deposits, deposits.swept.deposit depositId = none := by
    intro depositId hmem
    obtain ⟨deposit, hdeposit⟩ := OrdMap.mem_iff_exists.mp hmem
    have hview := (h.queued _ _).mp (hqueued _ _ hdeposit)
    refine Sweeps.deposit_eq_none_iff.mpr fun signature' deposit' hholds => ?_
    rw [(h.swept _ _ _).mp hholds] at hview
    cases hview
  have hinsert := Sweeps.insert_of_fresh hsignature hfree
  simp only [Deposits.sweep, bind_eq_ok, check_eq_ok]
  refine ⟨⟨⟩, hkeys, _, takeQueued_keys hqueued, _, Sweep.recover_sweepMessage hplan blockhash, ?_⟩
  simp only [bind_eq_ok, pure_eq_ok]
  exact ⟨_, hinsert, rfl⟩

end Deposits

end Cksol
