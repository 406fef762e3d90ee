import Cksol.Deposit.Sweep
import Cksol.State.SweepKeys

/-! # Messages fit into a transaction

A sweep of ten deposits fills a Solana transaction to the byte, and a full batch of withdrawals stays
well below the limit. The number of account keys follows from which keys the instructions name, and
with it the size that is compared with the limit.
-/

namespace Cksol

open SolanaSdk

section MessageSize

variable [SolanaSdk] [LawfulLayout]

/-- The bytes of a transfer instruction. -/
theorem instructionLen_transfer (source target : Address) (amount : Lamport) :
    instructionLen (transfer source target amount).accounts.length
      (transfer source target amount).data.length = 17 := by
  have haccounts := congrArg List.length (map_pubkey_transfer source target amount)
  rw [List.length_map] at haccounts
  rw [haccounts, LawfulLayout.transfer_dataLength]
  rfl

/-- The bytes of an instruction that advances a nonce account. -/
theorem instructionLen_advanceNonceAccount (nonceAccount authority : Address) :
    instructionLen (advanceNonceAccount nonceAccount authority).accounts.length
      (advanceNonceAccount nonceAccount authority).data.length = 10 := by
  obtain ⟨sysvar, hsysvar⟩ := map_pubkey_advanceNonceAccount
  have haccounts := congrArg List.length (hsysvar nonceAccount authority)
  rw [List.length_map] at haccounts
  rw [haccounts, LawfulLayout.advanceNonceAccount_dataLength]
  rfl

theorem sum_instructionLen_transfers {α : Type} (source target : α → Address)
    (amount : α → Lamport) (transfers : List α) :
    ((transfers.map fun entry => transfer (source entry) (target entry) (amount entry)).map
      fun instruction => instructionLen instruction.accounts.length instruction.data.length).sum =
      17 * transfers.length := by
  rw [List.map_map]
  induction transfers with
  | nil => rfl
  | cons entry rest ih =>
      rw [List.map_cons, List.sum_cons, ih, Function.comp_apply, instructionLen_transfer,
        List.length_cons]
      omega

/-! ## Sweeps -/

namespace Sweep

variable {sweep : Sweep} {deposits : List (DepositSolId × QueuedDeposit)} {minterAddress : Address}

variable (h : plan deposits minterAddress = .ok sweep)
  (hdistinct : (deposits.map (·.2.address)).Nodup)

include h hdistinct

/-- The size of a sweep by the number of its account keys. -/
theorem transactionSize_sweepMessage [Lawful] (hlength : deposits.length ≤ maxSignatures)
    (blockhash : Hash) :
    transactionSize (sweep.sweepMessage blockhash) = 38 + 81 * deposits.length +
      32 * (sweep.sweepMessage blockhash).accountKeys.length := by
  have hkeys := length_accountKeys_le h blockhash
  have htransfers := length_transfers h
  unfold maxSignatures at hlength
  have hinstructions : (sweep.transfers.map fun transfer =>
      SolanaSdk.transfer transfer.source sweep.minterAddress transfer.amount).length < 128 := by
    rw [List.length_map]
    omega
  have hserialized : serializedLen (sweep.sweepMessage blockhash) =
      37 + 32 * (sweep.sweepMessage blockhash).accountKeys.length + 17 * sweep.transfers.length := by
    rw [sweepMessage, serializedLen_new (Nat.lt_of_le_of_lt hkeys (by omega)) hinstructions,
      sum_instructionLen_transfers]
  rw [transactionSize, numRequiredSignatures_sweepMessage h hdistinct, hserialized, bytesPerSignature]
  omega

end Sweep

/-! ## Withdrawals -/

section Withdrawals

variable {minterAddress nonceAccount : Address} {transfers : List (Address × Lamport)}

/-- The minter alone signs a batch of withdrawals. -/
theorem signerKeys_batchWithdrawalMessage (nonceValue : Hash) :
    signerKeys (batchWithdrawalMessage minterAddress nonceAccount nonceValue transfers) =
      [minterAddress] := by
  refine List.perm_singleton.mp ((List.perm_ext_iff_of_nodup nodup_signerKeys
    (List.nodup_singleton _)).mpr fun key => ?_)
  rw [LawfulLayout.mem_signerKeys, List.mem_singleton]
  constructor
  · rintro (hpayer | ⟨instruction, hinstruction, hsigner⟩)
    · exact (Option.some.inj hpayer).symm
    · rcases List.mem_cons.mp hinstruction with rfl | htransfer
      · exact exists_signer_advanceNonceAccount.mp hsigner
      · obtain ⟨entry, -, rfl⟩ := List.mem_map.mp htransfer
        exact exists_signer_transfer.mp hsigner
  · rintro rfl
    exact .inl rfl

theorem numRequiredSignatures_batchWithdrawalMessage (nonceValue : Hash) :
    (batchWithdrawalMessage minterAddress nonceAccount nonceValue
      transfers).header.numRequiredSignatures = 1 := by
  have hlength : (signerKeys (batchWithdrawalMessage minterAddress nonceAccount nonceValue
      transfers)).length = 1 := by rw [signerKeys_batchWithdrawalMessage, List.length_singleton]
  rwa [batchWithdrawalMessage, length_signerKeys] at hlength

/-- The main address, the nonce account, the sysvar, the system program and the destinations. -/
theorem length_accountKeys_batchWithdrawalMessage [Lawful] (nonceValue : Hash) :
    (batchWithdrawalMessage minterAddress nonceAccount nonceValue transfers).accountKeys.length ≤
      transfers.length + 4 := by
  obtain ⟨sysvar, hsysvar⟩ := map_pubkey_advanceNonceAccount
  have hsubset : (batchWithdrawalMessage minterAddress nonceAccount nonceValue
      transfers).accountKeys ⊆
        transfers.map Prod.fst ++ [minterAddress, nonceAccount, sysvar, systemProgramId] := by
    intro key hkey
    rw [List.mem_append]
    rcases (LawfulLayout.mem_accountKeys _ _ _ _).mp hkey with hpayer | ⟨instruction, hmem, hkey⟩
    · exact .inr (by simp [Option.some.inj hpayer])
    · rcases List.mem_cons.mp hmem with rfl | htransfer
      · rw [Lawful.advanceNonceAccount_programId, hsysvar] at hkey
        right
        simp only [List.mem_cons] at hkey ⊢
        tauto
      · obtain ⟨entry, hentry, rfl⟩ := List.mem_map.mp htransfer
        rw [LawfulLayout.transfer_programId, map_pubkey_transfer] at hkey
        have htarget := List.mem_map_of_mem (f := Prod.fst) hentry
        simp only [List.mem_cons, List.not_mem_nil, or_false] at hkey ⊢
        rcases hkey with rfl | rfl | rfl
        · tauto
        · tauto
        · exact .inl htarget
  have hle := (List.subperm_of_subset (LawfulLayout.nodup_accountKeys _ _ _) hsubset).length_le
  rwa [List.length_append, List.length_map] at hle

theorem transactionSize_batchWithdrawalMessage_le [Lawful]
    (hlength : transfers.length ≤ maxWithdrawalsPerNonceTx) (nonceValue : Hash) :
    transactionSize (batchWithdrawalMessage minterAddress nonceAccount nonceValue transfers) ≤
      240 + 49 * transfers.length := by
  have hkeys : (batchWithdrawalMessage minterAddress nonceAccount nonceValue
      transfers).accountKeys.length ≤ transfers.length + 4 :=
    length_accountKeys_batchWithdrawalMessage nonceValue
  unfold maxWithdrawalsPerNonceTx at hlength
  have hinstructions : (batchWithdrawalInstructions minterAddress nonceAccount transfers).length <
      128 := by
    rw [batchWithdrawalInstructions, List.length_cons, List.length_map]
    omega
  have hsum : ((batchWithdrawalInstructions minterAddress nonceAccount transfers).map
      fun instruction => instructionLen instruction.accounts.length instruction.data.length).sum =
        10 + 17 * transfers.length := by
    rw [batchWithdrawalInstructions, List.map_cons, List.sum_cons, sum_instructionLen_transfers,
      instructionLen_advanceNonceAccount]
  have hserialized : serializedLen (batchWithdrawalMessage minterAddress nonceAccount nonceValue
      transfers) = 37 + 32 * (batchWithdrawalMessage minterAddress nonceAccount nonceValue
        transfers).accountKeys.length + (10 + 17 * transfers.length) := by
    rw [← hsum]
    exact serializedLen_new (Nat.lt_of_le_of_lt hkeys (by omega)) hinstructions
  rw [transactionSize, numRequiredSignatures_batchWithdrawalMessage, hserialized, bytesPerSignature]
  omega

end Withdrawals

/-! ## The limit -/

/-- A sweep of different deposit addresses fits into a transaction. -/
structure Sweep.Fits (sweep : Sweep) (deposits : List (DepositSolId × QueuedDeposit)) : Prop where
  within : ∀ blockhash, transactionSize (sweep.sweepMessage blockhash) ≤ maxTxSize
  checked : ∀ blockhash, ensureWithinTransactionSize (sweep.sweepMessage blockhash) = .ok ⟨⟩
  planned : ∀ block, planSweep deposits block sweep.minterAddress ≠ .ok none
  /-- Unless the minter had the key of the system program, the size is known to the byte, and ten
  deposits reach the limit. -/
  size_eq : sweep.minterAddress ≠ systemProgramId → ∀ blockhash,
    transactionSize (sweep.sweepMessage blockhash) = 102 + 113 * deposits.length ∧
      (transactionSize (sweep.sweepMessage blockhash) = maxTxSize ↔ deposits.length = 10)

omit [LawfulLayout] in
/-- The transaction of a sweep whose size is checked is planned. -/
theorem planSweep_ne_none {deposits : List (DepositSolId × QueuedDeposit)} {minterAddress : Address}
    {sweep : Sweep} (hplan : Sweep.plan deposits minterAddress = .ok sweep)
    (hchecked : ∀ blockhash, ensureWithinTransactionSize (sweep.sweepMessage blockhash) = .ok ⟨⟩)
    (block : Block) : planSweep deposits block minterAddress ≠ .ok none := by
  intro hnone
  simp only [planSweep, bind_eq_ok, hplan, Except.ok.injEq] at hnone
  obtain ⟨_, rfl, signers, -, hnone⟩ := hnone
  rw [hchecked] at hnone
  cases pure_eq_ok.mp hnone

/-- Neither the sweep of at most ten different deposit addresses nor a batch of at most ten withdrawals
is ever too large. -/
theorem messagesFit [Lawful] :
    (∀ deposits minterAddress sweep, Sweep.plan deposits minterAddress = .ok sweep →
      deposits.length ≤ maxSignatures → (deposits.map (·.2.address)).Nodup →
      minterAddress ∉ deposits.map (·.2.address) →
      systemProgramId ∉ deposits.map (·.2.address) → sweep.Fits deposits) ∧
    ∀ minterAddress nonceAccount nonceValue transfers,
      transfers.length ≤ maxWithdrawalsPerNonceTx →
      transactionSize (batchWithdrawalMessage minterAddress nonceAccount nonceValue transfers) ≤
          maxTxSize ∧
        buildBatchWithdrawalMessage minterAddress nonceAccount nonceValue transfers =
          .ok (batchWithdrawalMessage minterAddress nonceAccount nonceValue transfers) := by
  refine ⟨?_, ?_⟩
  · intro deposits minterAddress sweep hplan hlength hdistinct hminter hsystem
    have hsize := Sweep.transactionSize_sweepMessage hplan hdistinct hlength
    -- ten signatures and twelve keys leave room for the instructions
    have hwithin (blockhash : Hash) :
        transactionSize (sweep.sweepMessage blockhash) ≤ maxTxSize := by
      have hkeys := Sweep.length_accountKeys_le hplan blockhash
      rw [hsize]
      unfold maxSignatures at hlength
      unfold maxTxSize
      omega
    have hchecked (blockhash : Hash) := ensureWithinTransactionSize_eq_ok.mpr (hwithin blockhash)
    obtain ⟨-, -, -, -, -, -, hminterAddress, -⟩ := Sweep.plan_eq_ok hplan
    refine ⟨hwithin, hchecked, ?_, ?_⟩
    · intro block
      rw [hminterAddress]
      exact planSweep_ne_none hplan hchecked block
    · intro hother blockhash
      rw [hminterAddress] at hother
      have hkeys := Sweep.length_accountKeys_eq hplan hdistinct hminter hsystem hother blockhash
      rw [hsize, hkeys, maxTxSize]
      omega
  · intro minterAddress nonceAccount nonceValue transfers hlength
    have hwithin : transactionSize (batchWithdrawalMessage minterAddress nonceAccount nonceValue
        transfers) ≤ maxTxSize := by
      refine (transactionSize_batchWithdrawalMessage_le hlength nonceValue).trans ?_
      unfold maxWithdrawalsPerNonceTx at hlength
      unfold maxTxSize
      omega
    exact ⟨hwithin, buildBatchWithdrawalMessage_eq_ok.mpr ⟨hwithin, rfl⟩⟩

end MessageSize

section Sample

attribute [local instance] Solana.sdk

/-- A sweep of two deposits, and ten withdrawals to two destinations. -/
theorem messagesFit_sampleDeposits :
    (∃ sweep, Sweep.plan Sweep.sampleDeposits 7 = .ok sweep ∧ sweep.Fits Sweep.sampleDeposits ∧
      ∀ blockhash, transactionSize (sweep.sweepMessage blockhash) = 328) ∧
    ∃ message, buildBatchWithdrawalMessage 7 4 77
      (List.replicate 9 (5, 1_995_000) ++ [(6, 2_995_000)]) = .ok message := by
  have := Solana.lawful_sdk
  have := Solana.lawfulLayout_sdk
  obtain ⟨sweep, hplan⟩ : ∃ sweep, Sweep.plan Sweep.sampleDeposits 7 = .ok sweep :=
    Sweep.exists_plan_of_covered (by decide) List.mem_cons_self (by decide) 7
  have hfits := messagesFit.1 _ _ sweep hplan (by decide) (by decide) (by decide) (by decide)
  refine ⟨⟨sweep, hplan, hfits, fun blockhash => ?_⟩, _, (messagesFit.2 7 4 77 _ (by decide)).2⟩
  obtain ⟨-, -, -, -, -, -, hminterAddress, -⟩ := Sweep.plan_eq_ok hplan
  exact (hfits.size_eq (by rw [hminterAddress]; decide) blockhash).1

end Sample

end Cksol
