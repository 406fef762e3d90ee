import Cksol.Common.Bytes
import Cksol.Deposit.MessageSize

/-! # The signatures of a transaction

`sign_sweep_transaction` and `sign_batch_withdrawal_message` request one signature per signer key of
the compiled message, all of them at once, and take the signatures in the order of the keys. Solana
checks the signatures against the first account keys and charges the fee per required signature; for
a sweep both agree with its plan.
-/

namespace Cksol

open SolanaSdk

section Signatures

variable [SolanaSdk] {ε : Type} {deposits : List (DepositSolId × QueuedDeposit)}
  {minterAddress : Address} {transaction : Transaction} {message : Message} {sweep : Sweep}

/-- `VersionedMessage::transaction_fee`. -/
def Message.transactionFee (message : Message) : Lamport :=
  feePerSignature * UInt64.ofNat message.header.numRequiredSignatures

/-! ## Signing -/

/-- `CreateTransferError`. -/
inductive CreateTransferError (ε : Type) where
  | messageTooLarge (error : MessageTooLarge)
  | signingFailed (error : ε)

/-- A transaction with its signatures. -/
structure Transaction where
  message : Message
  signatures : List Signature

/-- What the signer replies to the requests of one transaction: the position of the request, the
message and the derivation path determine the reply. -/
abbrev SchnorrSigner (ε : Type) := ℕ → Message → DerivationPath → Except ε (List UInt8)

def signatureFromBytes (bytes : List UInt8) : Except Panic Signature := do
  check (bytes.length = 64) (.unexpectedSignatureLength bytes.length)
  return BitVec.ofNat 512 (ofBigEndian bytes)

/-- `sign_bytes`: all requests are made, and all must be answered. -/
def signBytes (derivationPaths : List DerivationPath) (signer : SchnorrSigner ε) (message : Message) :
    Except Panic (Except ε (List Signature)) :=
  match derivationPaths.zipIdx.mapM fun entry => signer entry.2 message entry.1 with
  | .error error => return .error error
  | .ok replies => do
      let signatures ← replies.mapM signatureFromBytes
      return .ok signatures

/-- `sol_transfer::sign_transaction`. -/
def signMessage (message : Message) (derivationPaths : List DerivationPath)
    (signer : SchnorrSigner ε) : Except Panic (Except (CreateTransferError ε) Transaction) :=
  match ensureWithinTransactionSize message with
  | .error error => return .error (.messageTooLarge error)
  | .ok _ => do
      match ← signBytes derivationPaths signer message with
      | .error error => return .error (.signingFailed error)
      | .ok signatures => return .ok ⟨message, signatures⟩

def signSweepTransaction (sweep : Sweep) (recentBlockhash : Hash) (signer : SchnorrSigner ε) :
    Except Panic (Except (CreateTransferError ε) (Transaction × List Signer)) := do
  let message := sweep.sweepMessage recentBlockhash
  let signers ← sweepSigners sweep message
  let signed ← signMessage message (signers.map Signer.derivationPath) signer
  return signed.map fun transaction => (transaction, signers)

def signBatchWithdrawalMessage (message : Message) (signer : SchnorrSigner ε) :
    Except Panic (Except (CreateTransferError ε) Transaction) :=
  signMessage message [minterDerivationPath] signer

/-- The signatures are the replies to the requests, in the order of the paths. -/
theorem signMessage_eq_ok {derivationPaths : List DerivationPath} {signer : SchnorrSigner ε}
    (h : signMessage message derivationPaths signer = .ok (.ok transaction)) :
    transaction.message = message ∧ transaction.signatures.length = derivationPaths.length ∧
      ∀ i path, derivationPaths[i]? = some path → ∃ reply signature,
        signer i message path = .ok reply ∧ signatureFromBytes reply = .ok signature ∧
          transaction.signatures[i]? = some signature := by
  unfold signMessage at h
  split at h
  · cases pure_eq_ok.mp h
  · obtain ⟨signed, hsigned, h⟩ := bind_eq_ok.mp h
    split at h
    · cases pure_eq_ok.mp h
    case h_2 signatures =>
      obtain rfl := Except.ok.inj (pure_eq_ok.mp h)
      unfold signBytes at hsigned
      split at hsigned
      · cases pure_eq_ok.mp hsigned
      case h_2 replies hreplies =>
        simp only [bind_eq_ok, pure_eq_ok, Except.ok.injEq, exists_eq_right] at hsigned
        have hlength := (forall₂_of_mapM_eq_ok hreplies).length_eq
        rw [List.length_zipIdx, (forall₂_of_mapM_eq_ok hsigned).length_eq] at hlength
        refine ⟨rfl, hlength.symm, fun i path hpath => ?_⟩
        obtain ⟨reply, hreply, hsign⟩ : ∃ reply, replies[i]? = some reply ∧
            signer i message path = .ok reply := by
          refine getElem?_of_mapM_eq_ok hreplies (a := (path, i)) ?_
          rw [List.getElem?_zipIdx, hpath, Option.map_some, Nat.zero_add]
        obtain ⟨signature, hsignature, hbytes⟩ := getElem?_of_mapM_eq_ok hsigned hreply
        exact ⟨reply, signature, hsign, hbytes, hsignature⟩

/-- What a round of `sweep_queued_deposits` plans is what `sign_sweep_transaction` signs: the round keeps
its message and its signers, and drops the sweeps that are too large. -/
theorem signSweepTransaction_of_planSweep {block : Block} {destination : Address}
    {planned : PlannedSweep} (h : planSweep deposits block destination = .ok (some planned))
    (signer : SchnorrSigner ε) :
    signSweepTransaction planned.sweep block.blockhash signer =
      (signMessage planned.message (planned.signers.map Signer.derivationPath) signer).map
        (·.map (·, planned.signers)) := by
  simp only [planSweep, bind_eq_ok] at h
  obtain ⟨sweep, -, signers, hsigners, h⟩ := h
  split at h
  · cases pure_eq_ok.mp h
  · obtain rfl := Option.some.inj (pure_eq_ok.mp h)
    rw [signSweepTransaction, hsigners]
    rfl

/-- The one signature of a withdrawal, with which a round records its transaction, is the reply for the
key of the minter. -/
theorem signBatchWithdrawalMessage_eq_ok {signer : SchnorrSigner ε}
    (h : signBatchWithdrawalMessage message signer = .ok (.ok transaction)) :
    transaction.message = message ∧ ∃ reply signature,
      signer 0 message minterDerivationPath = .ok reply ∧ signatureFromBytes reply = .ok signature ∧
        transaction.signatures = [signature] := by
  obtain ⟨hmessage, hlength, hrequested⟩ := signMessage_eq_ok h
  obtain ⟨reply, signature, hreply, hbytes, hsignature⟩ := hrequested 0 minterDerivationPath rfl
  obtain ⟨signature', hsignatures⟩ := List.length_eq_one_iff.mp hlength
  rw [hsignatures] at hsignature
  obtain rfl := Option.some.inj hsignature
  exact ⟨hmessage, reply, signature', hreply, hbytes, hsignatures⟩

/-- Signing panics only if a signature has the wrong length. -/
theorem signMessage_eq_error {derivationPaths : List DerivationPath} {signer : SchnorrSigner ε}
    {panic : Panic} (h : signMessage message derivationPaths signer = .error panic) :
    ∃ got, panic = .unexpectedSignatureLength got := by
  unfold signMessage at h
  split at h
  · cases h
  · rcases bind_eq_error.mp h with hsigned | ⟨signed, -, hrest⟩
    · unfold signBytes at hsigned
      split at hsigned
      · cases hsigned
      · rcases bind_eq_error.mp hsigned with hbytes | ⟨_, -, hpure⟩
        · obtain ⟨bytes, -, hbytes⟩ := mem_of_mapM_eq_error hbytes
          rcases bind_eq_error.mp hbytes with hcheck | ⟨_, -, hpure⟩
          · exact ⟨bytes.length, (check_eq_error.mp hcheck).2.symm⟩
          · cases hpure
        · cases hpure
    · split at hrest <;> cases hrest

/-! ## Sweeps -/

variable [LawfulLayout]

/-- The signers of a sweep are the accounts of its deposits, in the order of the account keys. -/
theorem exists_signing_order [Lawful] (h : Sweep.plan deposits minterAddress = .ok sweep)
    (hdistinct : (deposits.map (·.2.address)).Nodup) (blockhash : Hash) :
    ∃ ordered : List (DepositSolId × QueuedDeposit), ordered.Perm deposits ∧
      signerKeys (sweep.sweepMessage blockhash) = ordered.map (·.2.address) ∧
      sweepSigners sweep (sweep.sweepMessage blockhash) =
        .ok (ordered.map fun entry => .account entry.2.account) ∧
      ordered.head?.map Prod.fst = some sweep.feePayer := by
  have hkeys := (Sweep.signerKeys_perm h hdistinct blockhash).trans (Sweep.map_source_perm h)
  -- the signer keys are a permutation of the addresses, so they order the deposits
  obtain ⟨ordered, hordered, hperm⟩ : ∃ ordered : List (DepositSolId × QueuedDeposit),
      signerKeys (sweep.sweepMessage blockhash) = ordered.map (·.2.address) ∧
        ordered.Perm deposits := by
    have hcomp := List.eq_map_comp_perm fun entry : DepositSolId × QueuedDeposit => entry.2.address
    exact (congrFun (congrFun hcomp _) _).mpr hkeys
  refine ⟨ordered, hperm, hordered, ?_, ?_⟩
  · -- every signer key is found among the deposit addresses
    obtain ⟨-, -, hunique, -⟩ := Sweep.plan_eq_ok h
    have hvalues : sweep.deposits.values.Perm (deposits.map Prod.snd) :=
      (Sweep.toList_perm_of_unique hunique).map Prod.snd
    have hnodup : ((sweep.deposits.values.map fun deposit =>
        (deposit.address, deposit.account)).map Prod.fst).Nodup := by
      rw [List.map_map, (hvalues.map _).nodup_iff, List.map_map]
      exact hdistinct
    rw [sweepSigners, hordered, List.mapM_map]
    refine mapM_eq_ok_map fun entry hentry => ?_
    have hmem : (entry.2.address, entry.2.account) ∈ sweep.deposits.values.map fun deposit =>
        (deposit.address, deposit.account) :=
      List.mem_map_of_mem (hvalues.symm.subset (List.mem_map_of_mem (hperm.subset hentry)))
    simp only [Function.comp_apply, bind_eq_ok, orPanic_eq_ok, pure_eq_ok]
    exact ⟨_, OrdMap.getElem?_insertAll_of_mem _ hnodup hmem, rfl⟩
  · -- the payer comes first among the account keys, and is the address of one deposit only
    obtain ⟨payer, payerAmount, others, hperm', horders⟩ := Sweep.exists_orders h
    have hfirst : (sweep.sweepMessage blockhash).accountKeys.head? = some payer.2.address := by
      rw [Sweep.sweepMessage, horders.head?_transfers]
      exact Lawful.payer_first _ _ _
    have hlength : (sweep.sweepMessage blockhash).header.numRequiredSignatures ≠ 0 := by
      rw [Sweep.numRequiredSignatures_sweepMessage h hdistinct, ← hperm'.length_eq]
      exact Nat.succ_ne_zero _
    have hhead : (ordered.map (·.2.address)).head? = some payer.2.address := by
      rw [← hordered, LawfulLayout.signerKeys_eq, List.head?_take, if_neg hlength, hfirst]
    obtain ⟨entry, hentry, haddress⟩ := Option.map_eq_some_iff.mp (List.head?_map.symm.trans hhead)
    have hmem := hperm.subset (List.mem_of_head? hentry)
    have heq := List.inj_on_of_nodup_map hdistinct hmem (hperm'.subset List.mem_cons_self) haddress
    rw [hentry, Option.map_some, heq, horders.feePayer]

/-- The fee of a sweep is the one its plan accounts for. -/
theorem transactionFee_sweepMessage (h : Sweep.plan deposits minterAddress = .ok sweep)
    (hdistinct : (deposits.map (·.2.address)).Nodup) (blockhash : Hash) :
    (sweep.sweepMessage blockhash).transactionFee = sweep.fee := by
  obtain ⟨-, -, -, -, -, hfee, -⟩ := Sweep.plan_eq_ok h
  have hcount : sweep.deposits.size = deposits.length := Sweep.depositCount_eq_length h
  rw [Message.transactionFee, Sweep.numRequiredSignatures_sweepMessage h hdistinct, hfee, hcount]

/-- A signed sweep: the signatures are those of the deposit addresses, and the fee is as planned. -/
structure Sweep.SignedWith (sweep : Sweep) (deposits : List (DepositSolId × QueuedDeposit))
    (signer : SchnorrSigner ε) (transaction : Transaction) (signers : List Signer) : Prop where
  /-- One signer for each deposit. -/
  signers_perm : signers.Perm (deposits.map fun entry => .account entry.2.account)
  /-- The fee payer comes first. -/
  payer_first : ∃ deposit, (sweep.feePayer, deposit) ∈ deposits ∧
    signers.head? = some (.account deposit.account) ∧
    transaction.message.accountKeys.head? = some deposit.address
  required : transaction.message.header.numRequiredSignatures = deposits.length
  signatures_length : transaction.signatures.length = deposits.length
  /-- Each signature was requested for the account that the account key at its position belongs to. -/
  requested : ∀ i signature, transaction.signatures[i]? = some signature →
    ∃ entry ∈ deposits, transaction.message.accountKeys[i]? = some entry.2.address ∧
      signers[i]? = some (.account entry.2.account) ∧
      ∃ reply, signer i transaction.message (derivationPath entry.2.account) = .ok reply ∧
        signatureFromBytes reply = .ok signature
  fee_eq : transaction.message.transactionFee = sweep.fee

/-- What a batch of withdrawals is signed with and costs. -/
structure Message.SignedByMinter (message : Message) (minterAddress : Address) : Prop where
  signerKeys_eq : signerKeys message = [minterAddress]
  payer_first : message.accountKeys.head? = some minterAddress
  required : message.header.numRequiredSignatures = 1
  fee_eq : message.transactionFee = batchWithdrawalTxFee

theorem signSweepTransaction_ne_error [Lawful] {blockhash : Hash} {signer : SchnorrSigner ε}
    (hplan : Sweep.plan deposits minterAddress = .ok sweep)
    (hdistinct : (deposits.map (·.2.address)).Nodup) (key : Address) :
    signSweepTransaction sweep blockhash signer ≠ .error (.unknownSweepSigner key) := by
  obtain ⟨ordered, -, -, hsigners, -⟩ := exists_signing_order hplan hdistinct blockhash
  intro hpanic
  rw [signSweepTransaction, bind_eq_error] at hpanic
  rcases hpanic with hsigners' | ⟨signers, -, hrest⟩
  · rw [hsigners] at hsigners'
    cases hsigners'
  · rcases bind_eq_error.mp hrest with hsign | ⟨_, -, hpure⟩
    · obtain ⟨got, hgot⟩ := signMessage_eq_error hsign
      cases hgot
    · cases hpure

theorem signedWith_of_sign [Lawful] {blockhash : Hash} {signer : SchnorrSigner ε}
    (hplan : Sweep.plan deposits minterAddress = .ok sweep)
    (hdistinct : (deposits.map (·.2.address)).Nodup) {signers : List Signer}
    (h : signSweepTransaction sweep blockhash signer = .ok (.ok (transaction, signers))) :
    transaction.message = sweep.sweepMessage blockhash ∧
      sweep.SignedWith deposits signer transaction signers := by
  obtain ⟨ordered, hperm, hkeys, hsigners, hpayer⟩ := exists_signing_order hplan hdistinct blockhash
  have hrequired := Sweep.numRequiredSignatures_sweepMessage hplan hdistinct blockhash
  -- the parts of the signed transaction
  simp only [signSweepTransaction, hsigners, bind_eq_ok, pure_eq_ok, Except.ok.injEq] at h
  obtain ⟨_, rfl, signed, hsigned, hmap⟩ := h
  obtain ⟨signedTransaction, rfl, heq⟩ := map_eq_ok.mp hmap
  obtain ⟨rfl, rfl⟩ := Prod.mk.inj heq
  obtain ⟨hmessage, hlength, hrequested⟩ := signMessage_eq_ok hsigned
  rw [List.length_map, List.length_map, hperm.length_eq] at hlength
  -- the keys that sign are the first account keys
  have hkey {i : ℕ} {entry : DepositSolId × QueuedDeposit} (hentry : ordered[i]? = some entry) :
      (sweep.sweepMessage blockhash).accountKeys[i]? = some entry.2.address := by
    have hi : (signerKeys (sweep.sweepMessage blockhash))[i]? = some entry.2.address := by
      rw [hkeys, List.getElem?_map, hentry, Option.map_some]
    rw [LawfulLayout.signerKeys_eq, List.getElem?_take] at hi
    exact (Option.ite_none_right_eq_some.mp hi).2
  refine ⟨hmessage, hperm.map _, ?_, ?_, hlength, ?_, ?_⟩
  · obtain ⟨entry, hhead, hid⟩ := Option.map_eq_some_iff.mp hpayer
    refine ⟨entry.2, ?_, ?_, ?_⟩
    · rw [← hid]
      exact hperm.subset (List.mem_of_head? hhead)
    · rw [List.head?_map, hhead, Option.map_some]
    · rw [List.head?_eq_getElem?] at hhead ⊢
      rw [hmessage]
      exact hkey hhead
  · rw [hmessage, hrequired]
  · intro i signature hsignature
    have hi : i < ordered.length := by
      have hlt := (List.getElem?_eq_some_iff.mp hsignature).1
      rwa [hlength, ← hperm.length_eq] at hlt
    obtain ⟨entry, hentry⟩ : ∃ entry, ordered[i]? = some entry := ⟨_, List.getElem?_eq_getElem hi⟩
    obtain ⟨reply, signature', hreply, hbytes, hsignature'⟩ :=
      hrequested i (derivationPath entry.2.account) (by simp [hentry, Signer.derivationPath])
    obtain rfl := Option.some.inj (hsignature'.symm.trans hsignature)
    rw [hmessage]
    exact ⟨entry, hperm.subset (List.mem_of_getElem? hentry), hkey hentry, by simp [hentry], reply,
      hreply, hbytes⟩
  · rw [hmessage]
    exact transactionFee_sweepMessage hplan hdistinct blockhash

theorem signedByMinter_of_build [Lawful] {minterAddress nonceAccount : Address} {nonceValue : Hash}
    {transfers : List (Address × Lamport)}
    (h : buildBatchWithdrawalMessage minterAddress nonceAccount nonceValue transfers = .ok message) :
    message.SignedByMinter minterAddress := by
  obtain ⟨-, rfl⟩ := buildBatchWithdrawalMessage_eq_ok.mp h
  have hrequired : (batchWithdrawalMessage minterAddress nonceAccount nonceValue
      transfers).header.numRequiredSignatures = 1 :=
    numRequiredSignatures_batchWithdrawalMessage nonceValue
  refine ⟨signerKeys_batchWithdrawalMessage nonceValue, Lawful.payer_first _ _ _, hrequired, ?_⟩
  rw [Message.transactionFee, hrequired]
  rfl

/-- The signatures of a sweep of different deposit addresses line up with its account keys and with
its planned fee, and a batch of withdrawals is signed by the minter alone. -/
theorem signaturesLineUp [Lawful] :
    (∀ deposits minterAddress sweep blockhash (signer : SchnorrSigner ε),
      Sweep.plan deposits minterAddress = .ok sweep → (deposits.map (·.2.address)).Nodup →
      (∀ key, signSweepTransaction sweep blockhash signer ≠ .error (.unknownSweepSigner key)) ∧
      ∀ transaction signers,
        signSweepTransaction sweep blockhash signer = .ok (.ok (transaction, signers)) →
        transaction.message = sweep.sweepMessage blockhash ∧
          sweep.SignedWith deposits signer transaction signers) ∧
    ∀ minterAddress nonceAccount nonceValue transfers message,
      buildBatchWithdrawalMessage minterAddress nonceAccount nonceValue transfers = .ok message →
      message.SignedByMinter minterAddress := by
  refine ⟨?_, fun _ _ _ _ _ hbuild => signedByMinter_of_build hbuild⟩
  intro deposits minterAddress sweep blockhash signer hplan hdistinct
  exact ⟨signSweepTransaction_ne_error hplan hdistinct,
    fun transaction signers hsign => signedWith_of_sign hplan hdistinct hsign⟩

end Signatures

section Sample

attribute [local instance] Solana.sdk

/-- A signer that replies with the position of the request in every byte. -/
def sampleSigner : SchnorrSigner Unit := fun i _ _ => .ok (List.replicate 64 (UInt8.ofNat i))

theorem signaturesLineUp_sampleDeposits :
    (∃ sweep transaction signers, Sweep.plan Sweep.sampleDeposits 7 = .ok sweep ∧
      signSweepTransaction sweep 100 sampleSigner = .ok (.ok (transaction, signers)) ∧
      sweep.SignedWith Sweep.sampleDeposits sampleSigner transaction signers) ∧
    ∃ message, buildBatchWithdrawalMessage 7 4 77 [(5, 1_995_000), (5, 2_995_000)] = .ok message ∧
      message.SignedByMinter 7 := by
  have := Solana.lawful_sdk
  have := Solana.lawfulLayout_sdk
  refine ⟨?_, ?_⟩
  · have hsome : ((Sweep.plan Sweep.sampleDeposits 7).toOption.any fun sweep =>
        (signSweepTransaction sweep 100 sampleSigner).toOption.any fun signed =>
          signed.toOption.isSome) = true := by decide +kernel
    obtain ⟨sweep, hplan, hsigned⟩ := (Option.any_eq_true _ _).mp hsome
    obtain ⟨signed, hsigned, hsuccess⟩ := (Option.any_eq_true _ _).mp hsigned
    obtain ⟨⟨transaction, signers⟩, hresult⟩ := Option.isSome_iff_exists.mp hsuccess
    rw [toOption_eq_some] at hplan hsigned hresult
    rw [hresult] at hsigned
    exact ⟨sweep, transaction, signers, hplan, hsigned,
      ((signaturesLineUp.1 _ _ _ _ _ hplan (by decide)).2 _ _ hsigned).2⟩
  · have hsome : (buildBatchWithdrawalMessage 7 4 77
        [(5, 1_995_000), (5, 2_995_000)]).toOption.isSome = true := by decide +kernel
    obtain ⟨message, hmessage⟩ := Option.isSome_iff_exists.mp hsome
    rw [toOption_eq_some] at hmessage
    exact ⟨message, hmessage, (signaturesLineUp (ε := Unit)).2 _ _ _ _ _ hmessage⟩

end Sample

end Cksol
