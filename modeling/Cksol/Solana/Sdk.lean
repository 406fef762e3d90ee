import Mathlib.Algebra.GroupWithZero.Nat
import Mathlib.Data.List.Forall2

/-! # The Solana libraries the minter calls

The crates `solana-message`, `solana-system-interface`, `solana-address`, `bincode` and `ic-ed25519`
are not part of the repository. Their data types are transcribed; their functions are the fields of
`SolanaSdk`, and `SolanaSdk.Lawful` states the documented behaviour that proofs may rely on.
-/

namespace Cksol

abbrev Lamport := UInt64

/-- The 32 bytes of a Solana address. -/
abbrev Address := BitVec 256

/-- The 32 bytes of a blockhash or of a durable nonce value. -/
abbrev Hash := BitVec 256

/-- The 64 bytes of an Ed25519 signature. -/
abbrev Signature := BitVec 512

/-- The 32 raw bytes of an Ed25519 public key. -/
abbrev PublicKey := BitVec 256

abbrev ChainCode := BitVec 256

instance : LawfulBEq Address := inferInstance

instance : Std.TransOrd Address := inferInstance

instance : Std.TransOrd Signature := inferInstance

abbrev DerivationPath := List (List UInt8)

/-- An account of an instruction, and what the instruction may do with it. -/
structure AccountMeta where
  pubkey : Address
  isSigner : Bool
  isWritable : Bool
deriving DecidableEq

/-- A call of a program, before compilation. -/
structure Instruction where
  programId : Address
  accounts : List AccountMeta
  data : List UInt8
deriving DecidableEq

/-- An instruction whose program and accounts are indices into the account keys of its message. -/
structure CompiledInstruction where
  programIdIndex : ℕ
  accounts : List ℕ
  data : List UInt8
deriving DecidableEq

/-- How many of the account keys sign, and how many are only read. -/
structure MessageHeader where
  numRequiredSignatures : ℕ
  numReadonlySignedAccounts : ℕ
  numReadonlyUnsignedAccounts : ℕ
deriving DecidableEq

/-- A legacy transaction message. -/
structure Message where
  header : MessageHeader
  accountKeys : List Address
  recentBlockhash : Hash
  instructions : List CompiledInstruction
deriving DecidableEq

/-- The functions of the Solana crates that the minter calls. -/
class SolanaSdk where
  /-- `Message::new_with_blockhash`. -/
  newWithBlockhash : List Instruction → Option Address → Hash → Message
  /-- `Message::serialize(..).len()`. -/
  serializedLen : Message → ℕ
  /-- `Message::signer_keys`. -/
  signerKeys : Message → List Address
  /-- `system_instruction::transfer`. -/
  transfer : Address → Address → Lamport → Instruction
  /-- `system_instruction::advance_nonce_account`. -/
  advanceNonceAccount : Address → Address → Instruction
  /-- `system_program::ID`. -/
  systemProgramId : Address
  /-- Whether `bincode` reads the data as `SystemInstruction::AdvanceNonceAccount`. -/
  isAdvanceNonceAccount : List UInt8 → Bool
  /-- The keys of `solana_sdk_ids` that the minter lists as reserved. -/
  reservedAccountKeys : List Address
  /-- `Address::from_str`, with the text of its error. -/
  addressFromStr : String → Except String Address
  /-- The base58 text of an address. -/
  addressToString : Address → String
  /-- `PublicKey::derive_subkey_with_chain_code`, without the derived chain code. -/
  deriveSubkey : PublicKey → ChainCode → DerivationPath → PublicKey

/-- A compiled instruction stands for an instruction under the given account keys. -/
structure Resolves (accountKeys : List Address) (instruction : Instruction)
    (compiled : CompiledInstruction) : Prop where
  programId : accountKeys[compiled.programIdIndex]? = some instruction.programId
  accounts : compiled.accounts.map (accountKeys[·]?) = instruction.accounts.map (some ·.pubkey)
  data : compiled.data = instruction.data

/-- What the minter relies on: compilation keeps the blockhash and every instruction, with indices
that resolve to its program and accounts, and the system instructions are built as documented. -/
class SolanaSdk.Lawful [SolanaSdk] : Prop where
  recentBlockhash_new : ∀ instructions payer blockhash,
    (newWithBlockhash instructions payer blockhash).recentBlockhash = blockhash
  resolves_new : ∀ instructions payer blockhash,
    List.Forall₂ (Resolves (newWithBlockhash instructions payer blockhash).accountKeys)
      instructions (newWithBlockhash instructions payer blockhash).instructions
  payer_first : ∀ instructions payer blockhash,
    (newWithBlockhash instructions (some payer) blockhash).accountKeys.head? = some payer
  advanceNonceAccount_programId : ∀ nonceAccount authority,
    (advanceNonceAccount nonceAccount authority).programId = systemProgramId
  advanceNonceAccount_head : ∀ nonceAccount authority,
    (advanceNonceAccount nonceAccount authority).accounts.head?.map (·.pubkey) = some nonceAccount
  advanceNonceAccount_data : ∀ nonceAccount authority,
    isAdvanceNonceAccount (advanceNonceAccount nonceAccount authority).data
  transfer_accounts : ∀ source target amount,
    (transfer source target amount).accounts.map (·.pubkey) = [source, target]
  transfer_data_injective : ∀ source target amount source' target' amount',
    (transfer source target amount).data = (transfer source' target' amount').data →
      amount = amount'

/-- A message is signed by its payer and the accounts that its instructions mark as signers; of a
transfer, that is the source. -/
class SolanaSdk.LawfulSigners [SolanaSdk] : Prop where
  mem_signerKeys_new : ∀ instructions payer blockhash,
    ∀ key ∈ signerKeys (newWithBlockhash instructions payer blockhash), payer = some key ∨
      ∃ instruction ∈ instructions, ∃ account ∈ instruction.accounts,
        account.isSigner ∧ account.pubkey = key
  transfer_signers : ∀ source target amount,
    ∀ account ∈ (transfer source target amount).accounts, account.isSigner → account.pubkey = source

/-! ## Lookups in a compiled message -/

namespace Message

variable [SolanaSdk]

open SolanaSdk

/-- `VersionedMessage::advanced_nonce_account`: the nonce account advanced by the first instruction,
if that is an `AdvanceNonceAccount` instruction of the system program. -/
def advancedNonceAccount (message : Message) : Option Address := do
  let instruction ← message.instructions.head?
  let programId ← message.accountKeys[instruction.programIdIndex]?
  if programId ≠ systemProgramId ∨ ¬ isAdvanceNonceAccount instruction.data then
    none
  else
    let nonceAccountIndex ← instruction.accounts.head?
    message.accountKeys[nonceAccountIndex]?

end Message

end Cksol
