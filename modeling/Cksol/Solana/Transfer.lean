import Cksol.Common.Fallible
import Cksol.Constants

/-! # `sol_transfer`

The unsigned message of a batch withdrawal transaction and its size check.
-/

namespace Cksol

open SolanaSdk

variable {minterAddress nonceAccount : Address} {transfers : List (Address × Lamport)}
  {nonceValue : Hash}

/-- `CreateTransferError::TransactionTooLarge`. -/
inductive MessageTooLarge where
  | transactionTooLarge (max got : ℕ)

variable [SolanaSdk]

/-- The size of a transaction: the number of signatures, the message and the signatures. -/
def transactionSize (message : Message) : ℕ :=
  1 + serializedLen message + message.header.numRequiredSignatures * bytesPerSignature

/-- The error shows the limit and the size. -/
def ensureWithinTransactionSize (message : Message) : Except MessageTooLarge PUnit :=
  let txSize := transactionSize message
  check (txSize ≤ maxTxSize) (.transactionTooLarge maxTxSize txSize)

theorem ensureWithinTransactionSize_eq_ok {message : Message} :
    ensureWithinTransactionSize message = .ok ⟨⟩ ↔ transactionSize message ≤ maxTxSize :=
  check_eq_ok

/-- The instructions of a batch withdrawal: the nonce account advances first, then the main address
pays every transfer. -/
def batchWithdrawalInstructions (minterAddress nonceAccount : Address)
    (transfers : List (Address × Lamport)) : List Instruction :=
  advanceNonceAccount nonceAccount minterAddress ::
    transfers.map fun entry => transfer minterAddress entry.1 entry.2

/-- The unsigned message of a batch withdrawal, carrying the nonce value in place of a recent
blockhash. -/
def batchWithdrawalMessage (minterAddress nonceAccount : Address) (nonceValue : Hash)
    (transfers : List (Address × Lamport)) : Message :=
  newWithBlockhash (batchWithdrawalInstructions minterAddress nonceAccount transfers)
    (some minterAddress) nonceValue

/-- Builds the message of a batch withdrawal and checks its size. -/
def buildBatchWithdrawalMessage (minterAddress nonceAccount : Address) (nonceValue : Hash)
    (transfers : List (Address × Lamport)) : Except MessageTooLarge Message := do
  let message := batchWithdrawalMessage minterAddress nonceAccount nonceValue transfers
  ensureWithinTransactionSize message
  return message

theorem buildBatchWithdrawalMessage_eq_ok {message : Message} :
    buildBatchWithdrawalMessage minterAddress nonceAccount nonceValue transfers = .ok message ↔
      transactionSize message ≤ maxTxSize ∧
        message = batchWithdrawalMessage minterAddress nonceAccount nonceValue transfers := by
  simp only [buildBatchWithdrawalMessage, bind_eq_ok, pure_eq_ok]
  constructor
  · rintro ⟨⟨⟩, hsize, rfl⟩
    exact ⟨ensureWithinTransactionSize_eq_ok.mp hsize, rfl⟩
  · rintro ⟨hsize, rfl⟩
    exact ⟨⟨⟩, ensureWithinTransactionSize_eq_ok.mpr hsize, rfl⟩

section Lawful

variable [Lawful] {message : Message}

theorem recentBlockhash_of_build
    (h : buildBatchWithdrawalMessage minterAddress nonceAccount nonceValue transfers = .ok message) :
    message.recentBlockhash = nonceValue := by
  obtain ⟨-, rfl⟩ := buildBatchWithdrawalMessage_eq_ok.mp h
  exact Lawful.recentBlockhash_new _ _ _

/-- The built message advances the nonce account it was built for. -/
theorem advancedNonceAccount_of_build
    (h : buildBatchWithdrawalMessage minterAddress nonceAccount nonceValue transfers = .ok message) :
    message.advancedNonceAccount = some nonceAccount := by
  have hresolves : List.Forall₂ (Resolves message.accountKeys)
      (batchWithdrawalInstructions minterAddress nonceAccount transfers) message.instructions :=
    (buildBatchWithdrawalMessage_eq_ok.mp h).2 ▸ Lawful.resolves_new _ _ _
  obtain ⟨compiled, rest, hfirst, -, hinstructions⟩ := List.forall₂_cons_left_iff.mp hresolves
  have hprogram := hfirst.programId
  rw [Lawful.advanceNonceAccount_programId] at hprogram
  have hdata : isAdvanceNonceAccount compiled.data = true := by
    rw [hfirst.data]
    exact Lawful.advanceNonceAccount_data _ _
  -- the first account of the instruction is the nonce account
  obtain ⟨index, hindex, hkey⟩ : ∃ index, compiled.accounts.head? = some index ∧
      message.accountKeys[index]? = some nonceAccount := by
    have haccounts := congrArg List.head? hfirst.accounts
    have hhead := Lawful.advanceNonceAccount_head nonceAccount minterAddress
    rw [List.head?_map, List.head?_map] at haccounts
    obtain ⟨account, haccount, hpubkey⟩ := Option.map_eq_some_iff.mp hhead
    rw [haccount, Option.map_some, hpubkey] at haccounts
    exact Option.map_eq_some_iff.mp haccounts
  simp [Message.advancedNonceAccount, hinstructions, hprogram, hdata, hindex, hkey]

/-- Compilation keeps the data of every instruction. -/
theorem map_data_newWithBlockhash (instructions : List Instruction) (payer : Option Address)
    (blockhash : Hash) :
    (newWithBlockhash instructions payer blockhash).instructions.map CompiledInstruction.data =
      instructions.map Instruction.data := by
  have hresolves := Lawful.resolves_new instructions payer blockhash
  generalize (newWithBlockhash instructions payer blockhash).accountKeys = accountKeys at hresolves
  generalize (newWithBlockhash instructions payer blockhash).instructions = compiled at hresolves ⊢
  induction hresolves with
  | nil => rfl
  | cons hfirst _ ih => rw [List.map_cons, List.map_cons, hfirst.data, ih]

/-- The amounts of transfers can be read from their data. -/
theorem map_amount_of_map_data {α β : Type} {source target : α → Address} {amount : α → Lamport}
    {source' target' : β → Address} {amount' : β → Lamport} {l : List α} {l' : List β}
    (h : (l.map fun a => transfer (source a) (target a) (amount a)).map Instruction.data =
      (l'.map fun b => transfer (source' b) (target' b) (amount' b)).map Instruction.data) :
    l.map amount = l'.map amount' := by
  induction l generalizing l' with
  | nil =>
      cases l' with
      | nil => rfl
      | cons => cases h
  | cons a l ih =>
      cases l' with
      | nil => cases h
      | cons b l' =>
          obtain ⟨hhead, htail⟩ := List.cons.inj h
          rw [List.map_cons, List.map_cons, ih htail,
            Lawful.transfer_data_injective _ _ _ _ _ _ hhead]

/-- A message determines the amounts that it transfers. -/
theorem map_amount_of_build {minterAddress minterAddress' nonceAccount nonceAccount' : Address}
    {nonceValue nonceValue' : Hash} {transfers transfers' : List (Address × Lamport)}
    (h : buildBatchWithdrawalMessage minterAddress nonceAccount nonceValue transfers = .ok message)
    (h' : buildBatchWithdrawalMessage minterAddress' nonceAccount' nonceValue' transfers' =
      .ok message) : transfers.map Prod.snd = transfers'.map Prod.snd := by
  have hdata : message.instructions.map CompiledInstruction.data =
      (batchWithdrawalInstructions minterAddress nonceAccount transfers).map Instruction.data :=
    (buildBatchWithdrawalMessage_eq_ok.mp h).2 ▸ map_data_newWithBlockhash _ _ _
  have hdata' : message.instructions.map CompiledInstruction.data =
      (batchWithdrawalInstructions minterAddress' nonceAccount' transfers').map Instruction.data :=
    (buildBatchWithdrawalMessage_eq_ok.mp h').2 ▸ map_data_newWithBlockhash _ _ _
  -- the first instruction of each advances the nonce account
  exact map_amount_of_map_data (List.cons.inj (hdata.symm.trans hdata')).2

end Lawful

end Cksol
