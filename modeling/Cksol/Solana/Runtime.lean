import Cksol.Common.Payments
import Cksol.Solana.Compile
import Cksol.Solana.NonceAccount
import Cksol.Solana.Transfer

/-! # The Solana runtime

What a validator does with a message is not part of the repository. It is the field of `SolanaRuntime`,
and `SolanaRuntime.Lawful` states what the design document says about messages of transfers: the payer
is charged for every signature and a durable nonce advances in any case, the transfers take effect
together or not at all, and one destination that cannot receive lamports fails them all. An instance
shows that the laws can be met.
-/

namespace Cksol

open SolanaSdk

/-! ## Accounts -/

/-- What an account holds beside its lamports. -/
inductive AccountKind where
  /-- No data, under the system program. -/
  | wallet
  /-- The state of a durable nonce. -/
  | nonce (data : NonceAccountData)
  /-- An executable program. -/
  | program
  /-- Other data, with the balance at which the account is rent exempt. -/
  | other (minimum : ℕ)
deriving DecidableEq

/-- Minimum balance that keeps the 80 bytes of a nonce account rent exempt. -/
def nonceRentExemption : ℕ := 1_447_680

/-- The balance at which an account is rent exempt; that of a program never changes. -/
def AccountKind.rentExemption : AccountKind → ℕ
  | wallet => rentExemptionThreshold.toNat
  | nonce _ => nonceRentExemption
  | program => 0
  | other minimum => minimum

/-- The accounts, and the blockhashes that a message may still carry. -/
structure Bank where
  lamports : Address → ℕ
  kind : Address → AccountKind
  recentBlockhashes : List Hash

namespace Bank

/-- Every change leaves the account rent exempt. -/
def RentKept (bank : Bank) (lamports : Address → ℕ) (address : Address) : Prop :=
  lamports address = bank.lamports address ∨ (bank.kind address).rentExemption ≤ lamports address

variable [SolanaSdk]

/-- Accounts without data pay, and reserved keys are never written. -/
def Pays (bank : Bank) (address : Address) : Prop :=
  bank.kind address = .wallet ∧ address ∉ reservedAccountKeys

/-- Neither programs nor reserved keys receive lamports. -/
def Receives (bank : Bank) (address : Address) : Prop :=
  bank.kind address ≠ .program ∧ address ∉ reservedAccountKeys

end Bank

/-! ## Messages of transfers -/

/-- The arguments of `system_instruction::transfer`. -/
structure SystemTransfer where
  source : Address
  target : Address
  amount : Lamport
deriving DecidableEq

namespace SystemTransfer

def payment (entry : SystemTransfer) : Payment Address :=
  ⟨entry.source, entry.target, entry.amount.toNat⟩

def instruction [SolanaSdk] (entry : SystemTransfer) : Instruction :=
  transfer entry.source entry.target entry.amount

end SystemTransfer

/-- A message of transfers. With a nonce account, whose authority is the payer, it carries the value of
that account in place of a recent blockhash and advances the account first. -/
structure TransferMessage where
  payer : Address
  nonceAccount : Option Address
  blockhash : Hash
  transfers : List SystemTransfer
deriving DecidableEq

namespace TransferMessage

variable [SolanaSdk]

def instructions (content : TransferMessage) : List Instruction :=
  (content.nonceAccount.toList.map (advanceNonceAccount · content.payer)) ++
    content.transfers.map SystemTransfer.instruction

def message (content : TransferMessage) : Message :=
  newWithBlockhash content.instructions (some content.payer) content.blockhash

def payments (content : TransferMessage) : List (Payment Address) :=
  content.transfers.map SystemTransfer.payment

/-- The fee only depends on the number of signatures. -/
def fee (content : TransferMessage) : ℕ :=
  feePerSignature.toNat * content.message.header.numRequiredSignatures

end TransferMessage

namespace Bank

variable [SolanaSdk]

/-- A block includes the message: it has the size of a transaction, the payer covers the fee and stays
rent exempt, and the blockhash is recent or the value that the nonce account stores. -/
structure Includes (bank : Bank) (content : TransferMessage) (next : Hash) : Prop where
  size : transactionSize content.message ≤ maxTxSize
  payer : bank.Pays content.payer
  covers : content.fee + rentExemptionThreshold.toNat ≤ bank.lamports content.payer
  recent : content.nonceAccount = none → content.blockhash ∈ bank.recentBlockhashes
  stored : ∀ account, content.nonceAccount = some account →
    bank.kind account = .nonce ⟨content.payer, content.blockhash⟩ ∧ content.blockhash ≠ next

/-- What is left of an included message in any case: the fee is charged and the nonce has advanced. -/
def charged (bank : Bank) (content : TransferMessage) (next : Hash) : Bank where
  lamports := Function.update bank.lamports content.payer (bank.lamports content.payer - content.fee)
  kind := match content.nonceAccount with
    | some account => Function.update bank.kind account (.nonce ⟨content.payer, next⟩)
    | none => bank.kind
  recentBlockhashes := bank.recentBlockhashes

end Bank

/-! ## The runtime -/

/-- The runtime of the validators. -/
class SolanaRuntime where
  /-- The bank after a message that it has not executed before, and whether the message succeeded; `none`
  if no block includes the message. A nonce account that is advanced takes the given value. -/
  execute : Bank → Message → Hash → Option (Bank × Bool)

/-- What the design document says about the runtime (sections 3.1.3, 3.2.1 and 3.2.4). -/
class SolanaRuntime.Lawful [SolanaSdk] [SolanaRuntime] : Prop where
  /-- The transfers take effect when all accounts can be written, every payment is covered and every
  account that changes is left rent exempt. -/
  succeeds : ∀ {bank : Bank} {content : TransferMessage} {next : Hash} {lamports : Address → ℕ},
    bank.Includes content next →
    (∀ entry ∈ content.transfers, bank.Pays entry.source ∧ bank.Receives entry.target) →
    payAll (bank.charged content next).lamports content.payments = some lamports →
    (∀ address, bank.RentKept lamports address) →
    execute bank content.message next = some ({ bank.charged content next with lamports }, true)
  /-- Transactions are atomic: a single destination that cannot receive lamports fails all transfers. -/
  fails : ∀ {bank : Bank} {content : TransferMessage} {next : Hash} {entry : SystemTransfer},
    bank.Includes content next → entry ∈ content.transfers → 0 < entry.amount →
    ¬ bank.Receives entry.target →
    execute bank content.message next = some (bank.charged content next, false)

/-! ## An instance -/

namespace Solana

attribute [local instance] sdk

/-- The transfer that a compiled instruction stands for. -/
def readTransfer (accountKeys : List Address) (instruction : CompiledInstruction) :
    Option SystemTransfer :=
  match instruction.accounts.map (accountKeys[·]?), instruction.data with
  | [some source, some target], 2 :: 0 :: 0 :: 0 :: amount =>
      some ⟨source, target, UInt64.ofNat (ofLittleEndian amount)⟩
  | _, _ => none

/-- The nonce account that the first instruction advances, and the instructions after it. -/
def readNonceAccount (accountKeys : List Address) :
    List CompiledInstruction → Option Address × List CompiledInstruction
  | [] => (none, [])
  | first :: rest =>
      if first.data = [4, 0, 0, 0] then
        ((first.accounts.map (accountKeys[·]?)).head?.join, rest)
      else (none, first :: rest)

/-- The content of a message of transfers. -/
def readTransfers (message : Message) : Option TransferMessage := do
  let payer ← message.accountKeys.head?
  let (nonceAccount, rest) := readNonceAccount message.accountKeys message.instructions
  let transfers ← rest.mapM (readTransfer message.accountKeys)
  return ⟨payer, nonceAccount, message.recentBlockhash, transfers⟩

open Classical in
/-- The runtime that does what the laws say and fails otherwise. -/
@[reducible] noncomputable def runtime : SolanaRuntime where
  execute bank message next := do
    let content ← readTransfers message
    if bank.Includes content next then
      match payAll (bank.charged content next).lamports content.payments with
      | some lamports =>
          if (∀ entry ∈ content.transfers, bank.Pays entry.source ∧ bank.Receives entry.target) ∧
              ∀ address, bank.RentKept lamports address then
            some ({ bank.charged content next with lamports }, true)
          else some (bank.charged content next, false)
      | none => some (bank.charged content next, false)
    else none

theorem readTransfer_of_resolves {accountKeys : List Address} {entry : SystemTransfer}
    {compiled : CompiledInstruction} (h : Resolves accountKeys entry.instruction compiled) :
    readTransfer accountKeys compiled = some entry := by
  have haccounts : compiled.accounts.map (accountKeys[·]?) = [some entry.source, some entry.target] :=
    h.accounts
  have hdata : compiled.data = [2, 0, 0, 0] ++ littleEndian 8 entry.amount.toNat := h.data
  have hamount : ofLittleEndian (littleEndian 8 entry.amount.toNat) = entry.amount.toNat :=
    ofLittleEndian_littleEndian entry.amount.toNat_lt
  rw [readTransfer, haccounts, hdata]
  simp [hamount]

theorem mapM_readTransfer {accountKeys : List Address} {transfers : List SystemTransfer}
    {compiled : List CompiledInstruction}
    (h : List.Forall₂ (Resolves accountKeys) (transfers.map SystemTransfer.instruction) compiled) :
    compiled.mapM (readTransfer accountKeys) = some transfers := by
  induction transfers generalizing compiled with
  | nil =>
      cases h
      rfl
  | cons entry transfers ih =>
      obtain ⟨first, rest, hfirst, hrest, rfl⟩ := List.forall₂_cons_left_iff.mp h
      rw [List.mapM_cons, readTransfer_of_resolves hfirst, ih hrest]
      rfl

/-- A compiled message still tells what it was compiled from. -/
theorem readTransfers_message (content : TransferMessage) :
    readTransfers content.message = some content := by
  have hpayer : content.message.accountKeys.head? = some content.payer :=
    lawful_sdk.payer_first _ _ _
  have hblockhash : content.message.recentBlockhash = content.blockhash :=
    lawful_sdk.recentBlockhash_new _ _ _
  have hresolves : List.Forall₂ (Resolves content.message.accountKeys) content.instructions
      content.message.instructions := lawful_sdk.resolves_new _ _ _
  generalize content.message = message at hpayer hblockhash hresolves
  obtain ⟨rest, hread, hrest⟩ : ∃ rest,
      readNonceAccount message.accountKeys message.instructions = (content.nonceAccount, rest) ∧
        List.Forall₂ (Resolves message.accountKeys)
          (content.transfers.map SystemTransfer.instruction) rest := by
    rw [TransferMessage.instructions] at hresolves
    cases hnonce : content.nonceAccount with
    | none =>
        rw [hnonce] at hresolves
        refine ⟨message.instructions, ?_, hresolves⟩
        cases hinstructions : message.instructions with
        | nil => rfl
        | cons first rest =>
            -- the first instruction is a transfer
            rw [hinstructions] at hresolves
            obtain ⟨instruction, _, hfirst, -, heq⟩ := List.forall₂_cons_right_iff.mp hresolves
            obtain ⟨entry, -, rfl⟩ := List.mem_map.mp (heq ▸ List.mem_cons_self)
            have hdata : first.data = [2, 0, 0, 0] ++ littleEndian 8 entry.amount.toNat := hfirst.data
            rw [readNonceAccount, if_neg]
            rw [hdata]
            exact fun heq => absurd (List.cons.inj heq).1 (by decide)
    | some account =>
        rw [hnonce] at hresolves
        obtain ⟨first, rest, hfirst, hrest, heq⟩ := List.forall₂_cons_left_iff.mp hresolves
        have hdata : first.data = [4, 0, 0, 0] := hfirst.data
        refine ⟨rest, ?_, hrest⟩
        rw [heq, readNonceAccount, if_pos hdata, hfirst.accounts]
        rfl
  rw [readTransfers, hpayer, hread, Option.bind_eq_bind, Option.bind_some]
  simp only [mapM_readTransfer hrest, hblockhash, Option.bind_eq_bind, Option.bind_some]
  rfl

attribute [local instance] runtime

theorem lawful_runtime : SolanaRuntime.Lawful where
  succeeds {bank content next lamports} hincludes hwritten hpayAll hrent := by
    simp only [SolanaRuntime.execute, readTransfers_message, Option.bind_eq_bind, Option.bind_some,
      if_pos hincludes, hpayAll]
    exact if_pos ⟨hwritten, hrent⟩
  fails {bank content next entry} hincludes hmem _ hreceives := by
    simp only [SolanaRuntime.execute, readTransfers_message, Option.bind_eq_bind, Option.bind_some,
      if_pos hincludes]
    cases payAll (bank.charged content next).lamports content.payments with
    | none => rfl
    | some lamports => exact if_neg fun h => hreceives (h.1 entry hmem).2

end Solana

end Cksol
