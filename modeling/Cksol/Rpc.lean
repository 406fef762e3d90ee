import Cksol.Deposit.Sweep
import Cksol.Monitor
import Cksol.Solana.Compile

/-! # `rpc`

What the functions of the module make of the replies of the SOL RPC canister. The canister asks several
providers, and a reply is only used when they agree; a transaction is only used when it can be
attributed to the signature that was queried.
-/

namespace Cksol

/-- The error of a call to the SOL RPC canister, of which only the text is used. -/
abbrev IcError := String

/-- The error on which the providers agree, of which only the text is used. -/
abbrev RpcError := String

/-- What the providers answered. -/
inductive MultiRpcResult (α : Type) where
  | consistent (result : Except RpcError α)
  | inconsistent

abbrev RpcReply (α : Type) := Except IcError (MultiRpcResult α)

/-- The errors that every function of the module has. -/
inductive RpcFailure where
  | icError (error : IcError)
  | rpcError (error : RpcError)
  | inconsistentRpcResults
deriving DecidableEq

/-- The value on which the providers agree. -/
def RpcReply.read {α : Type} : RpcReply α → Except RpcFailure α
  | .ok (.consistent (.ok value)) => .ok value
  | .ok (.consistent (.error error)) => .error (.rpcError error)
  | .ok .inconsistent => .error .inconsistentRpcResults
  | .error error => .error (.icError error)

theorem RpcReply.read_eq_ok {α : Type} {reply : RpcReply α} {value : α} :
    reply.read = .ok value ↔ reply = .ok (.consistent (.ok value)) := by
  unfold RpcReply.read
  split <;> simp

/-! ## `get_transaction` -/

/-- The base64 text of a transaction. -/
abbrev EncodedTransaction := String

/-- The message of a transaction of any version; of one with version 0, the keys it lists itself and
the other bytes. -/
inductive TransactionMessage where
  | legacy (message : Message)
  | v0 (staticAccountKeys : List Address) (content : List UInt8)
deriving DecidableEq

namespace TransactionMessage

def staticAccountKeys : TransactionMessage → List Address
  | legacy message => message.accountKeys
  | v0 staticAccountKeys _ => staticAccountKeys

/-- What the minter looks at. -/
def fetched : TransactionMessage → Sweep.FetchedMessage
  | legacy message => .legacy message
  | v0 .. => .v0

theorem eq_legacy_of_fetched {message : TransactionMessage} {legacy : Message}
    (h : message.fetched = .legacy legacy) : message = .legacy legacy := by
  cases message with
  | legacy message =>
      cases h
      rfl
  | v0 => cases h

end TransactionMessage

/-- A decoded transaction, with its signatures in the order of the signers. -/
structure VersionedTransaction where
  signatures : List Signature
  message : TransactionMessage
deriving DecidableEq

/-- The functions of `solana-transaction`, `solana-signature` and `solana-hash` that read replies. -/
class TransactionSdk where
  /-- `EncodedTransaction::decode`. -/
  decode : EncodedTransaction → Option VersionedTransaction
  /-- `Signature::verify` on the bytes of a message. -/
  verify : Signature → Address → TransactionMessage → Bool
  /-- `VersionedTransaction::verify_with_results`. -/
  verifyWithResults : VersionedTransaction → List Bool
  /-- `Hash::from_str`, with the text of its error. -/
  hashFromStr : String → Except String Hash

/-- Every signature is checked for the account key at its position. -/
class TransactionSdk.Lawful [TransactionSdk] : Prop where
  verifyWithResults_eq : ∀ transaction : VersionedTransaction,
    verifyWithResults transaction = List.zipWith
      (fun signature key => verify signature key transaction.message)
      transaction.signatures transaction.message.staticAccountKeys

/-- The reply to `getTransaction`. -/
structure EncodedConfirmedTransaction where
  transaction : EncodedTransaction
  status : Option Sweep.TransactionStatusMeta

/-- Why a reply to `getTransaction` is not used. -/
inductive GetTransactionError where
  | failure (failure : RpcFailure)
  | undecodableTransaction (queried : Signature)
  | signatureMismatch (queried : Signature) (returned : Option Signature)
  | invalidSignature (queried : Signature)
deriving DecidableEq

section GetTransaction

variable [TransactionSdk]

/-- The transaction of the reply, if its first signature is the queried one and signs the message. -/
def ensureSignedWith (outcome : EncodedConfirmedTransaction) (queried : Signature) :
    Except GetTransactionError VersionedTransaction := do
  let decoded ← orPanic (TransactionSdk.decode outcome.transaction) (.undecodableTransaction queried)
  check (decoded.signatures.head? = some queried)
    (.signatureMismatch queried decoded.signatures.head?)
  check ((TransactionSdk.verifyWithResults decoded).head? = some true) (.invalidSignature queried)
  return decoded

/-- A reply is only used if the queried signature signs its transaction. -/
def getTransaction (signature : Signature) (reply : RpcReply (Option EncodedConfirmedTransaction)) :
    Except GetTransactionError (Option Sweep.FetchedTransaction) := do
  match ← reply.read.mapError .failure with
  | some outcome =>
      let transaction ← ensureSignedWith outcome signature
      return some ⟨transaction.message.fetched, outcome.status⟩
  | none => return none

/-- A transaction of a reply is named by the queried signature, and signed by its fee payer. -/
theorem ensureSignedWith_eq_ok [TransactionSdk.Lawful] {outcome : EncodedConfirmedTransaction}
    {queried : Signature} {transaction : VersionedTransaction}
    (h : ensureSignedWith outcome queried = .ok transaction) :
    TransactionSdk.decode outcome.transaction = some transaction ∧
      transaction.signatures.head? = some queried ∧
      ∃ payer, transaction.message.staticAccountKeys.head? = some payer ∧
        TransactionSdk.verify queried payer transaction.message = true := by
  simp only [ensureSignedWith, bind_eq_ok, orPanic_eq_ok, check_eq_ok, pure_eq_ok] at h
  obtain ⟨decoded, hdecode, ⟨⟩, hfirst, ⟨⟩, hverified, rfl⟩ := h
  refine ⟨hdecode, hfirst, ?_⟩
  rw [TransactionSdk.Lawful.verifyWithResults_eq, List.head?_zipWith, hfirst] at hverified
  cases hpayer : decoded.message.staticAccountKeys.head? with
  | none =>
      rw [hpayer] at hverified
      cases hverified
  | some payer =>
      rw [hpayer] at hverified
      exact ⟨payer, rfl, Option.some.inj hverified⟩

/-- A fetched transaction comes from a reply on which the providers agree and that the queried
signature names and signs. -/
theorem getTransaction_eq_some {signature : Signature}
    {reply : RpcReply (Option EncodedConfirmedTransaction)} {fetched : Sweep.FetchedTransaction}
    (h : getTransaction signature reply = .ok (some fetched)) :
    ∃ outcome transaction, reply = .ok (.consistent (.ok (some outcome))) ∧
      ensureSignedWith outcome signature = .ok transaction ∧
      fetched = ⟨transaction.message.fetched, outcome.status⟩ := by
  simp only [getTransaction, bind_eq_ok, mapError_eq_ok, RpcReply.read_eq_ok] at h
  obtain ⟨value, rfl, h⟩ := h
  cases value with
  | none => cases pure_eq_ok.mp h
  | some outcome =>
      simp only [bind_eq_ok, pure_eq_ok, Option.some.injEq] at h
      obtain ⟨transaction, hsigned, rfl⟩ := h
      exact ⟨outcome, transaction, rfl, hsigned, rfl⟩

end GetTransaction

/-! ## `get_balance` -/

/-- `GetBalanceError`, with the text that a `deposit_sol` call returns. -/
def getBalanceErrorText : RpcFailure → String
  | .icError error => s!"Error while calling SOL RPC canister: {error}"
  | .rpcError error => s!"RPC error while fetching balance: {error}"
  | .inconsistentRpcResults => "Inconsistent RPC results for balance"

def getBalance (reply : RpcReply Lamport) : BalanceReply :=
  match reply.read with
  | .ok balance => .balance balance
  | .error error => .error (getBalanceErrorText error)

/-! ## `get_nonce_account` -/

/-- The fields of `UiAccount` that the minter reads, with the bytes that its data decode to. -/
structure UiAccount where
  owner : String
  executable : Bool
  data : Option (List UInt8)

/-- Why a reply to `getAccountInfo` is not a nonce account. -/
inductive GetNonceAccountError where
  | failure (failure : RpcFailure)
  | accountNotFound
  | unexpectedAccountMetadata (owner : String) (executable : Bool)
  | notAnInitializedNonceAccount (reason : String)
  | legacyNonceAccount
deriving DecidableEq

section GetNonceAccount

open Solana (NonceCodec)

variable [SolanaSdk] [NonceCodec]

/-- `NonceAccount::try_from`. -/
def NonceAccountData.tryFrom (account : UiAccount) :
    Except GetNonceAccountError NonceAccountData := do
  check (account.owner = SolanaSdk.addressToString SolanaSdk.systemProgramId ∧
      account.executable = false)
    (.unexpectedAccountMetadata account.owner account.executable)
  let data ← orPanic account.data (.notAnInitializedNonceAccount "undecodable account data")
  let (versions, _) ← (NonceCodec.deserialize data).mapError .notAnInitializedNonceAccount
  match versions with
  | .legacy _ => throw .legacyNonceAccount
  | .current .uninitialized =>
      throw (.notAnInitializedNonceAccount "the nonce account is uninitialized")
  | .current (.initialized data) => return ⟨data.authority, data.nonce⟩

/-- The authority and the value of an initialized nonce account. -/
def getNonceAccount (reply : RpcReply (Option UiAccount)) :
    Except GetNonceAccountError NonceAccountData := do
  match ← reply.read.mapError .failure with
  | some account => NonceAccountData.tryFrom account
  | none => throw .accountNotFound

/-- The account is a non-executable one of the system program, and its data are those of an
initialized nonce account of the current version. -/
def UiAccount.Stores (account : UiAccount) (nonce : NonceAccountData) : Prop :=
  account.owner = SolanaSdk.addressToString SolanaSdk.systemProgramId ∧
    account.executable = false ∧ ∃ lamportsPerSignature rest, account.data = some
      (NonceCodec.serialize (.current (.initialized ⟨nonce, lamportsPerSignature⟩)) ++ rest)

variable [NonceCodec.Lawful]

/-- A nonce account is read exactly from a consistent reply with a nonce account. -/
theorem getNonceAccount_eq_ok_iff {reply : RpcReply (Option UiAccount)} {nonce : NonceAccountData} :
    getNonceAccount reply = .ok nonce ↔
      ∃ account, reply = .ok (.consistent (.ok (some account))) ∧ account.Stores nonce := by
  simp only [getNonceAccount, bind_eq_ok, mapError_eq_ok, RpcReply.read_eq_ok]
  constructor
  · rintro ⟨value, rfl, h⟩
    cases value with
    | none => cases h
    | some account =>
        refine ⟨account, rfl, ?_⟩
        simp only [NonceAccountData.tryFrom, bind_eq_ok, check_eq_ok, orPanic_eq_ok, mapError_eq_ok,
          Prod.exists, NonceCodec.Lawful.deserialize_eq_ok] at h
        obtain ⟨⟨⟩, ⟨howner, hexecutable⟩, data, hdata, versions, rest, rfl, h⟩ := h
        refine ⟨howner, hexecutable, ?_⟩
        split at h
        · cases h
        · cases h
        · obtain rfl := pure_eq_ok.mp h
          exact ⟨_, rest, hdata⟩
  · rintro ⟨account, rfl, howner, hexecutable, lamportsPerSignature, rest, hdata⟩
    refine ⟨some account, rfl, ?_⟩
    simp only [NonceAccountData.tryFrom, bind_eq_ok, check_eq_ok, orPanic_eq_ok, mapError_eq_ok,
      Prod.exists, NonceCodec.Lawful.deserialize_eq_ok]
    exact ⟨⟨⟩, ⟨howner, hexecutable⟩, _, hdata, _, rest, rfl, rfl⟩

/-- A nonce value is taken exactly from a consistent reply with a nonce account of the minter. -/
theorem readVerifiedNonce_eq_some_iff {reply : RpcReply (Option UiAccount)} {minterAddress : Address}
    {value : Hash} : readVerifiedNonce (getNonceAccount reply).toOption minterAddress = some value ↔
      ∃ account, reply = .ok (.consistent (.ok (some account))) ∧
        account.Stores ⟨minterAddress, value⟩ := by
  rw [← getNonceAccount_eq_ok_iff]
  cases getNonceAccount reply with
  | error => simp [readVerifiedNonce, Except.toOption]
  | ok nonce =>
      obtain ⟨authority, nonceValue⟩ := nonce
      simp [readVerifiedNonce, Except.toOption]

end GetNonceAccount

section Sample

attribute [local instance] Solana.sdk Solana.nonceCodec Solana.lawful_nonceCodec

/-- The reply with an initialized nonce account whose authority is the address 7. -/
def sampleNonceReply : RpcReply (Option UiAccount) :=
  .ok (.consistent (.ok (some ⟨SolanaSdk.addressToString SolanaSdk.systemProgramId, false,
    some (Solana.writeNonceVersions (.current (.initialized ⟨⟨7, 9⟩, 5000⟩)))⟩)))

theorem readVerifiedNonce_sampleNonceReply :
    readVerifiedNonce (getNonceAccount sampleNonceReply).toOption 7 = some 9 ∧
      readVerifiedNonce (getNonceAccount sampleNonceReply).toOption 8 ≠ some 9 := by
  refine ⟨readVerifiedNonce_eq_some_iff.mpr ⟨_, rfl, rfl, rfl, 5000, [], ?_⟩, by decide +kernel⟩
  rw [List.append_nil]
  rfl

end Sample

/-! ## `get_recent_block` -/

/-- The block that `getBlock` returned for a recent slot. -/
structure ConfirmedBlock where
  blockhash : String
  blockHeight : Option BlockHeight

/-- Why there is no recent block. -/
inductive GetRecentBlockError where
  | failed (errors : List String)
  | missingBlockHeight (slot : ℕ)
deriving DecidableEq

/-- The client retries on its own; a block without a height is an error. -/
def getRecentBlock [TransactionSdk] (reply : Except (List String) (ℕ × ConfirmedBlock)) :
    Except GetRecentBlockError Block := do
  let (slot, block) ← reply.mapError .failed
  let blockhash ← (TransactionSdk.hashFromStr block.blockhash).mapError fun error => .failed [error]
  let blockHeight ← orPanic block.blockHeight (.missingBlockHeight slot)
  return ⟨blockhash, blockHeight⟩

/-! ## `get_signature_statuses` -/

def getSignatureStatuses (reply : RpcReply (List (Option SignatureStatus))) :
    Except RpcFailure (List (Option SignatureStatus)) :=
  reply.read

end Cksol
