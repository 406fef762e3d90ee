import Cksol.Solana.Layout
import Cksol.State.PlanOrder

/-! # The account keys of a sweep

The sources of the transfers sign a sweep and come first among its account keys; the minter address
and the system program follow.
-/

namespace Cksol

namespace Sweep

open SolanaSdk

variable [SolanaSdk] [LawfulLayout] {sweep : Sweep} {deposits : List (DepositSolId × QueuedDeposit)}
  {minterAddress : Address} {blockhash : Hash} {key : Address}

omit [SolanaSdk] [LawfulLayout] in
/-- The payer of a sweep is the source of one of its transfers. -/
theorem mem_source_of_payer (h : sweep.transfers.head?.map Transfer.source = some key) :
    key ∈ sweep.transfers.map Transfer.source := by
  obtain ⟨first, hfirst, rfl⟩ := Option.map_eq_some_iff.mp h
  exact List.mem_map_of_mem (List.mem_of_head? hfirst)

/-- The keys that sign a sweep are the sources of its transfers. -/
theorem mem_signerKeys_sweepMessage :
    key ∈ signerKeys (sweep.sweepMessage blockhash) ↔ key ∈ sweep.transfers.map Transfer.source := by
  rw [sweepMessage, LawfulLayout.mem_signerKeys]
  constructor
  · rintro (hpayer | ⟨instruction, hinstruction, hsigner⟩)
    · exact mem_source_of_payer hpayer
    · obtain ⟨transfer, htransfer, rfl⟩ := List.mem_map.mp hinstruction
      rw [exists_signer_transfer.mp hsigner]
      exact List.mem_map_of_mem htransfer
  · intro hkey
    obtain ⟨transfer, htransfer, rfl⟩ := List.mem_map.mp hkey
    exact .inr ⟨_, List.mem_map_of_mem htransfer, exists_signer_transfer.mpr rfl⟩

/-- The account keys of a sweep are the sources, the minter address and the system program. -/
theorem mem_accountKeys_sweepMessage (hne : sweep.transfers ≠ []) :
    key ∈ (sweep.sweepMessage blockhash).accountKeys ↔
      key ∈ sweep.transfers.map Transfer.source ∨ key = sweep.minterAddress ∨
        key = systemProgramId := by
  have hnamed (transfer : Transfer) : key = (SolanaSdk.transfer transfer.source sweep.minterAddress
        transfer.amount).programId ∨ key ∈ (SolanaSdk.transfer transfer.source sweep.minterAddress
        transfer.amount).accounts.map AccountMeta.pubkey ↔
      key = systemProgramId ∨ key = transfer.source ∨ key = sweep.minterAddress := by
    rw [LawfulLayout.transfer_programId, map_pubkey_transfer]
    simp
  rw [sweepMessage, LawfulLayout.mem_accountKeys]
  constructor
  · rintro (hpayer | ⟨instruction, hinstruction, hkey⟩)
    · exact .inl (mem_source_of_payer hpayer)
    · obtain ⟨transfer, htransfer, rfl⟩ := List.mem_map.mp hinstruction
      rcases (hnamed transfer).mp hkey with rfl | rfl | rfl
      · exact .inr (.inr rfl)
      · exact .inl (List.mem_map_of_mem htransfer)
      · exact .inr (.inl rfl)
  · intro hkey
    obtain ⟨transfer, htransfer, hcases⟩ : ∃ transfer ∈ sweep.transfers,
        key = systemProgramId ∨ key = transfer.source ∨ key = sweep.minterAddress := by
      rcases hkey with hsource | hother
      · obtain ⟨transfer, htransfer, rfl⟩ := List.mem_map.mp hsource
        exact ⟨transfer, htransfer, .inr (.inl rfl)⟩
      · obtain ⟨first, hfirst⟩ := List.exists_mem_of_ne_nil _ hne
        exact ⟨first, hfirst, hother.symm.imp_right .inr⟩
    exact .inr ⟨_, List.mem_map_of_mem htransfer, (hnamed transfer).mpr hcases⟩

section Plan

variable (h : plan deposits minterAddress = .ok sweep)
  (hdistinct : (deposits.map (·.2.address)).Nodup)

include h

/-- At most the minter address and the system program join the deposit addresses. -/
theorem length_accountKeys_le (blockhash : Hash) :
    (sweep.sweepMessage blockhash).accountKeys.length ≤ deposits.length + 2 := by
  have hsubset : (sweep.sweepMessage blockhash).accountKeys ⊆
      sweep.transfers.map Transfer.source ++ [sweep.minterAddress, systemProgramId] := by
    intro key hkey
    simpa using (mem_accountKeys_sweepMessage (transfers_ne_nil h)).mp hkey
  have hle := (List.subperm_of_subset (LawfulLayout.nodup_accountKeys _ _ _) hsubset).length_le
  rwa [List.length_append, List.length_map, length_transfers h] at hle

include hdistinct

theorem signerKeys_perm (blockhash : Hash) :
    (signerKeys (sweep.sweepMessage blockhash)).Perm (sweep.transfers.map Transfer.source) :=
  (List.perm_ext_iff_of_nodup nodup_signerKeys (nodup_source h hdistinct)).mpr
    fun _ => mem_signerKeys_sweepMessage

/-- One signature is required for each deposit. -/
theorem numRequiredSignatures_sweepMessage (blockhash : Hash) :
    (sweep.sweepMessage blockhash).header.numRequiredSignatures = deposits.length := by
  have hlength := (signerKeys_perm h hdistinct blockhash).length_eq
  rw [List.length_map, length_transfers h] at hlength
  rw [← hlength]
  exact length_signerKeys.symm

/-- Both do, where they differ from the deposit addresses and from each other. -/
theorem length_accountKeys_eq (hminter : minterAddress ∉ deposits.map (·.2.address))
    (hsystem : systemProgramId ∉ deposits.map (·.2.address))
    (hother : minterAddress ≠ systemProgramId) (blockhash : Hash) :
    (sweep.sweepMessage blockhash).accountKeys.length = deposits.length + 2 := by
  have hminterAddress : sweep.minterAddress = minterAddress := by
    obtain ⟨-, -, -, -, -, -, hminterAddress, -⟩ := plan_eq_ok h
    exact hminterAddress
  have hmem (key : Address) : key ∈ sweep.transfers.map Transfer.source ↔
      key ∈ deposits.map (·.2.address) := (map_source_perm h).mem_iff
  have hnodup : (sweep.transfers.map Transfer.source ++ [minterAddress, systemProgramId]).Nodup := by
    rw [List.nodup_append']
    refine ⟨nodup_source h hdistinct, by simpa using hother, ?_⟩
    intro key hsource hkey
    rw [hmem] at hsource
    rcases List.mem_pair.mp hkey with rfl | rfl
    · exact hminter hsource
    · exact hsystem hsource
  have hperm : (sweep.sweepMessage blockhash).accountKeys.Perm
      (sweep.transfers.map Transfer.source ++ [minterAddress, systemProgramId]) := by
    refine (List.perm_ext_iff_of_nodup (LawfulLayout.nodup_accountKeys _ _ _) hnodup).mpr fun key => ?_
    refine (mem_accountKeys_sweepMessage (transfers_ne_nil h)).trans ?_
    rw [hminterAddress]
    simp
  rw [hperm.length_eq, List.length_append, List.length_map, length_transfers h]
  rfl

end Plan

end Sweep

end Cksol
