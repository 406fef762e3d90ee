import Cksol.Solana.Compile

/-! # The layout of a compiled message

The account keys of a message are its payer and the keys of its instructions, once each, with the keys
that sign in front. How many there are follows from which they are, and so does the length of the
serialized message.
-/

namespace Cksol

open SolanaSdk

/-- Short lengths take one byte. -/
theorem Solana.compactLen_of_lt {n : ℕ} (h : n < 128) : Solana.compactLen n = 1 :=
  if_pos h

/-- The bytes of a compiled instruction with the given numbers of accounts and data bytes. -/
def instructionLen (accounts data : ℕ) : ℕ :=
  1 + Solana.compactLen accounts + accounts + Solana.compactLen data + data

/-- What `solana-message` and `solana-system-interface` document on account keys, signers and sizes. -/
class SolanaSdk.LawfulLayout [SolanaSdk] : Prop where
  nodup_accountKeys : ∀ instructions payer blockhash,
    (newWithBlockhash instructions payer blockhash).accountKeys.Nodup
  mem_accountKeys : ∀ instructions payer blockhash key,
    key ∈ (newWithBlockhash instructions payer blockhash).accountKeys ↔
      payer = some key ∨ ∃ instruction ∈ instructions, key = instruction.programId ∨
        key ∈ instruction.accounts.map AccountMeta.pubkey
  signerKeys_eq : ∀ message,
    signerKeys message = message.accountKeys.take message.header.numRequiredSignatures
  numRequiredSignatures_le : ∀ instructions payer blockhash,
    (newWithBlockhash instructions payer blockhash).header.numRequiredSignatures ≤
      (newWithBlockhash instructions payer blockhash).accountKeys.length
  mem_signerKeys : ∀ instructions payer blockhash key,
    key ∈ signerKeys (newWithBlockhash instructions payer blockhash) ↔
      payer = some key ∨ ∃ instruction ∈ instructions, ∃ account ∈ instruction.accounts,
        account.isSigner ∧ account.pubkey = key
  transfer_programId : ∀ source target amount,
    (transfer source target amount).programId = systemProgramId
  transfer_metas : ∀ source target amount,
    (transfer source target amount).accounts.map (fun account => (account.pubkey, account.isSigner)) =
      [(source, true), (target, false)]
  transfer_dataLength : ∀ source target amount, (transfer source target amount).data.length = 12
  advanceNonceAccount_metas : ∃ sysvar, ∀ nonceAccount authority,
    (advanceNonceAccount nonceAccount authority).accounts.map
        (fun account => (account.pubkey, account.isSigner)) =
      [(nonceAccount, false), (sysvar, false), (authority, true)]
  advanceNonceAccount_dataLength : ∀ nonceAccount authority,
    (advanceNonceAccount nonceAccount authority).data.length = 4
  serializedLen_eq : ∀ message, serializedLen message =
    3 + Solana.compactLen message.accountKeys.length + 32 * message.accountKeys.length + 32 +
      Solana.compactLen message.instructions.length +
      (message.instructions.map fun instruction =>
        instructionLen instruction.accounts.length instruction.data.length).sum

section Lawful

variable [SolanaSdk] [LawfulLayout]

theorem map_pubkey_transfer (source target : Address) (amount : Lamport) :
    (transfer source target amount).accounts.map AccountMeta.pubkey = [source, target] := by
  have hmetas := congrArg (List.map Prod.fst) (LawfulLayout.transfer_metas source target amount)
  rwa [List.map_map] at hmetas

theorem map_pubkey_advanceNonceAccount : ∃ sysvar : Address, ∀ nonceAccount authority : Address,
    (advanceNonceAccount nonceAccount authority).accounts.map AccountMeta.pubkey =
      [nonceAccount, sysvar, authority] := by
  obtain ⟨sysvar, hsysvar⟩ := LawfulLayout.advanceNonceAccount_metas
  refine ⟨sysvar, fun nonceAccount authority => ?_⟩
  have hmetas := congrArg (List.map Prod.fst) (hsysvar nonceAccount authority)
  rwa [List.map_map] at hmetas

omit [SolanaSdk] [LawfulLayout] in
theorem exists_signer_iff {accounts : List AccountMeta} {key : Address} :
    (∃ account ∈ accounts, account.isSigner ∧ account.pubkey = key) ↔
      (key, true) ∈ accounts.map fun account => (account.pubkey, account.isSigner) := by
  simp only [List.mem_map, Prod.mk.injEq, and_comm]

variable {instructions : List Instruction} {payer : Option Address} {blockhash : Hash}

/-- The source signs a transfer. -/
theorem exists_signer_transfer {source target key : Address} {amount : Lamport} :
    (∃ account ∈ (transfer source target amount).accounts,
      account.isSigner ∧ account.pubkey = key) ↔ key = source := by
  rw [exists_signer_iff, LawfulLayout.transfer_metas]
  simp

/-- The authority signs an advance of a nonce account. -/
theorem exists_signer_advanceNonceAccount {nonceAccount authority key : Address} :
    (∃ account ∈ (advanceNonceAccount nonceAccount authority).accounts,
      account.isSigner ∧ account.pubkey = key) ↔ key = authority := by
  obtain ⟨sysvar, hsysvar⟩ := LawfulLayout.advanceNonceAccount_metas
  rw [exists_signer_iff, hsysvar]
  simp

theorem nodup_signerKeys : (signerKeys (newWithBlockhash instructions payer blockhash)).Nodup := by
  rw [LawfulLayout.signerKeys_eq]
  exact (List.take_sublist _ _).nodup (LawfulLayout.nodup_accountKeys _ _ _)

/-- One signature is required of each signer. -/
theorem length_signerKeys :
    (signerKeys (newWithBlockhash instructions payer blockhash)).length =
      (newWithBlockhash instructions payer blockhash).header.numRequiredSignatures := by
  rw [LawfulLayout.signerKeys_eq, List.length_take]
  exact Nat.min_eq_left (LawfulLayout.numRequiredSignatures_le _ _ _)

omit [LawfulLayout] in
/-- Compilation keeps the numbers of accounts and data bytes of every instruction. -/
theorem map_instructionLen_new [Lawful] :
    (newWithBlockhash instructions payer blockhash).instructions.map (fun compiled =>
        instructionLen compiled.accounts.length compiled.data.length) =
      instructions.map fun instruction =>
        instructionLen instruction.accounts.length instruction.data.length := by
  have hresolves := Lawful.resolves_new instructions payer blockhash
  generalize (newWithBlockhash instructions payer blockhash).accountKeys = keys at hresolves
  generalize (newWithBlockhash instructions payer blockhash).instructions = compiled at hresolves ⊢
  induction hresolves with
  | nil => rfl
  | cons hfirst _ ih =>
      have haccounts := congrArg List.length hfirst.accounts
      rw [List.length_map, List.length_map] at haccounts
      rw [List.map_cons, List.map_cons, ih, haccounts, hfirst.data]

/-- The length of a message of fewer than 128 keys and instructions. -/
theorem serializedLen_new [Lawful]
    (hkeys : (newWithBlockhash instructions payer blockhash).accountKeys.length < 128)
    (hinstructions : instructions.length < 128) :
    serializedLen (newWithBlockhash instructions payer blockhash) =
      37 + 32 * (newWithBlockhash instructions payer blockhash).accountKeys.length +
        (instructions.map fun instruction =>
          instructionLen instruction.accounts.length instruction.data.length).sum := by
  have hlength := (Lawful.resolves_new instructions payer blockhash).length_eq
  rw [LawfulLayout.serializedLen_eq, map_instructionLen_new, ← hlength, Solana.compactLen_of_lt hkeys,
    Solana.compactLen_of_lt hinstructions]
  omega

end Lawful

/-! ## The concrete library -/

namespace Solana

theorem nodup_keysWith (keys : OrdMap Address KeyMeta) (payer : Option Address) (flags : KeyMeta) :
    (keysWith keys payer flags).Nodup := by
  have hsublist := (List.filter_sublist (l := keys.toList)
    (p := fun entry => entry.2 = flags ∧ some entry.1 ≠ payer)).map Prod.fst
  refine hsublist.nodup ?_
  rw [Std.ExtTreeMap.map_fst_toList_eq_keys]
  exact OrdMap.nodup_keys keys

theorem disjoint_keysWith (keys : OrdMap Address KeyMeta) (payer : Option Address)
    {flags flags' : KeyMeta} (h : flags ≠ flags') :
    List.Disjoint (keysWith keys payer flags) (keysWith keys payer flags') := by
  intro key hkey hkey'
  have hflags := (mem_keysWith.mp hkey).1
  rw [(mem_keysWith.mp hkey').1] at hflags
  exact h (Option.some.inj hflags).symm

theorem disjoint_payer (keys : OrdMap Address KeyMeta) (payer : Option Address) (flags : KeyMeta) :
    List.Disjoint payer.toList (keysWith keys payer flags) := by
  intro key hpayer hkey
  exact (mem_keysWith.mp hkey).2 (Option.mem_toList.mp hpayer).symm

theorem nodup_accountKeys (instructions : List Instruction) (payer : Option Address)
    (blockhash : Hash) : (newWithBlockhash instructions payer blockhash).accountKeys.Nodup := by
  have hpayer : payer.toList.Nodup := by cases payer <;> simp
  simp only [newWithBlockhash, List.nodup_append', List.disjoint_append_left, nodup_keysWith, hpayer,
    disjoint_payer, and_true, true_and]
  refine ⟨⟨?_, ?_, ?_⟩, ⟨?_, ?_⟩, ?_⟩ <;> exact disjoint_keysWith _ _ (by decide)

theorem mem_accountKeys_iff {instructions : List Instruction} {payer : Option Address}
    {blockhash : Hash} {key : Address} :
    key ∈ (newWithBlockhash instructions payer blockhash).accountKeys ↔
      payer = some key ∨ ∃ instruction ∈ instructions, key = instruction.programId ∨
        key ∈ instruction.accounts.map AccountMeta.pubkey := by
  have hcompiled : key ∈ compileKeys instructions ↔ ∃ instruction ∈ instructions,
      key = instruction.programId ∨ key ∈ instruction.accounts.map AccountMeta.pubkey := by
    rw [compileKeys, mem_foldl_addInstruction, or_iff_left]
    simp
  rw [← hcompiled]
  constructor
  · intro hkey
    have hflags : ∀ flags, key ∈ keysWith (compileKeys instructions) payer flags →
        key ∈ compileKeys instructions :=
      fun flags hmem => OrdMap.mem_iff_exists.mpr ⟨flags, (mem_keysWith.mp hmem).1⟩
    simp only [newWithBlockhash, List.mem_append, Option.mem_toList] at hkey
    rcases hkey with (((hpayer | hkey) | hkey) | hkey) | hkey
    · exact .inl hpayer
    all_goals exact .inr (hflags _ hkey)
  · rintro (rfl | hkey)
    · simp [newWithBlockhash]
    · exact mem_accountKeys hkey

theorem lawfulLayout_sdk : @SolanaSdk.LawfulLayout sdk :=
  letI := sdk
  { nodup_accountKeys := nodup_accountKeys
    mem_accountKeys := fun _ _ _ _ => mem_accountKeys_iff
    signerKeys_eq := fun _ => rfl
    numRequiredSignatures_le := by
      intro instructions payer blockhash
      simp only [SolanaSdk.newWithBlockhash, newWithBlockhash, List.length_append]
      omega
    mem_signerKeys := by
      intro instructions payer blockhash key
      have htake : SolanaSdk.signerKeys (SolanaSdk.newWithBlockhash instructions payer blockhash) =
          _ := take_accountKeys instructions payer blockhash
      rw [htake, mem_signers_iff]
    transfer_programId := fun _ _ _ => rfl
    transfer_metas := fun _ _ _ => rfl
    transfer_dataLength := fun _ _ _ => by
      simp [SolanaSdk.transfer, transfer, length_littleEndian]
    advanceNonceAccount_metas := ⟨recentBlockhashesSysvar, fun _ _ => rfl⟩
    advanceNonceAccount_dataLength := fun _ _ => rfl
    serializedLen_eq := fun _ => rfl }

end Solana

end Cksol
