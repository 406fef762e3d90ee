import Cksol.Minter.Companion
import Cksol.Rpc

/-! # The minter on the responses of the SOL RPC canister

The rounds only see what the functions of `rpc` make of the responses of the SOL RPC canister. Here the
minter runs on the responses themselves.
-/

namespace Cksol

open Std

open Solana (NonceCodec)

/-! ## Responses -/

/-- A response of the SOL RPC canister, with what was queried. -/
inductive RpcResponse where
  | transaction (queried : Signature) (reply : RpcReply (Option EncodedConfirmedTransaction))
  | nonceAccount (queried : Address) (reply : RpcReply (Option UiAccount))
  | signatureStatuses (queried : List Signature) (reply : RpcReply (List (Option SignatureStatus)))
  | recentBlock (reply : Except (List String) (ℕ × ConfirmedBlock))
  | balance (queried : Address) (reply : RpcReply Lamport)

namespace RpcResponse

/-- What a round sees of the transaction that it queried; every failed fetch is `none`. -/
def transaction? [TransactionSdk] (signature : Signature) :
    RpcResponse → Option (Option Sweep.FetchedTransaction)
  | transaction queried reply =>
      if queried = signature then some (getTransaction signature reply).toOption.join else none
  | _ => none

def nonceAccount? [SolanaSdk] [NonceCodec] (address : Address) :
    RpcResponse → Option (Option NonceAccountData)
  | nonceAccount queried reply =>
      if queried = address then some (getNonceAccount reply).toOption else none
  | _ => none

def signatureStatuses? (signatures : List Signature) :
    RpcResponse → Option (Option (List (Option SignatureStatus)))
  | signatureStatuses queried reply =>
      if queried = signatures then some (getSignatureStatuses reply).toOption else none
  | _ => none

def recentBlock? [TransactionSdk] : RpcResponse → Option (Option Block)
  | recentBlock reply => some (getRecentBlock reply).toOption
  | _ => none

def balance? (address : Address) : RpcResponse → Option BalanceReply
  | balance queried reply => if queried = address then some (getBalance reply) else none
  | _ => none

end RpcResponse

/-- The responses received so far. -/
abbrev Responses := List RpcResponse

namespace Responses

/-- One of the responses is read as the value. -/
def yields {α : Type} [DecidableEq α] (responses : Responses) (read : RpcResponse → Option α)
    (value : α) : Bool :=
  responses.any fun response => read response = some value

theorem yields_iff {α : Type} [DecidableEq α] {responses : Responses}
    {read : RpcResponse → Option α} {value : α} :
    responses.yields read value = true ↔ ∃ response ∈ responses, read response = some value := by
  simp [yields]

/-- Calls awaited together are all answered. -/
def yieldsAll {α β : Type} [DecidableEq α] (responses : Responses)
    (read : β → RpcResponse → Option α) (queries : List β) (values : List α) : Bool :=
  queries.length = values.length &&
    (queries.zip values).all fun entry => responses.yields (read entry.1) entry.2

variable [SolanaSdk] [TransactionSdk] [NonceCodec]

/-- A message that handles replies of the SOL RPC canister handles what was made of responses to the
queries of its call or its round. A response may be used from the moment it is received. -/
def admits (config : Config) (responses : Responses) : Action → Bool
  | .balance position reply _ _ =>
      config.depositSolCalls[position]?.all fun call =>
        responses.yields (RpcResponse.balance? call.address) reply
  | .withdrawals (.nonceRead position reply) =>
      match config.withdrawals with
      | some (.creating _ batches) => batches[position]?.all fun batch =>
          responses.yields (RpcResponse.nonceAccount? batch.nonceAccount) reply
      | _ => true
  | .finalization (.block reply) =>
      responses.yields (fun response => response.recentBlock?.map (Option.map Block.blockHeight)) reply
  | .finalization (.statuses replies) =>
      match config.finalization with
      | some (.checkingStatuses transactions _) =>
          responses.yieldsAll RpcResponse.signatureStatuses? (statusBatches transactions) replies
      | _ => true
  | .finalization (.nonceRead position reply) =>
      match config.finalization with
      | some (.readingNonces _ withdrawals _ _) => withdrawals[position]?.all fun withdrawal =>
          responses.yields (RpcResponse.nonceAccount? withdrawal.nonceAccount) reply
      | _ => true
  | .finalization (.landed position reply) =>
      match config.finalization with
      | some (.finalizing withdrawals) => withdrawals[position]?.all fun withdrawal =>
          responses.yields (RpcResponse.transaction? withdrawal.signature) reply
      | _ => true
  | .finalization (.finalized replies) =>
      match config.finalization with
      | some (.crediting sweeps) =>
          responses.yieldsAll RpcResponse.transaction? (sweeps.map Prod.fst) replies
      | _ => true
  | .sweeps (.block reply) => responses.yields RpcResponse.recentBlock? reply
  | _ => true

/-- Responses come at any time and in any number. -/
def companion : Companion Responses RpcResponse where
  admits := admits
  follow := fun _ _ _ _ responses => responses
  move := fun _ _ responses response => some (responses ++ [response])

/-! ## Attributed transactions -/

/-- The providers agree on a transaction for the signature, and it is the first signature of that
transaction and signs its message for the payer. -/
def Attests (responses : Responses) (signature : Signature) (message : TransactionMessage)
    (status : Option Sweep.TransactionStatusMeta) : Prop :=
  ∃ (outcome : EncodedConfirmedTransaction) (transaction : VersionedTransaction) (payer : Address),
    .transaction signature (.ok (.consistent (.ok (some outcome)))) ∈ responses ∧
    TransactionSdk.decode outcome.transaction = some transaction ∧
    transaction.signatures.head? = some signature ∧ transaction.message = message ∧
    message.staticAccountKeys.head? = some payer ∧
    TransactionSdk.verify signature payer message = true ∧ outcome.status = status

/-- The providers agree on a nonce account with that authority and value. -/
def Reads (responses : Responses) (account : Address) (nonce : NonceAccountData) : Prop :=
  ∃ stored : UiAccount, .nonceAccount account (.ok (.consistent (.ok (some stored)))) ∈ responses ∧
    stored.Stores nonce

variable {responses responses' : Responses} {signature : Signature}

omit [SolanaSdk] [NonceCodec] in
theorem attests_of_yields [TransactionSdk.Lawful] {fetched : Sweep.FetchedTransaction}
    (h : responses.yields (RpcResponse.transaction? signature) (some fetched) = true) :
    ∃ message, fetched.message = message.fetched ∧
      responses.Attests signature message fetched.status := by
  obtain ⟨response, hmem, hread⟩ := yields_iff.mp h
  unfold RpcResponse.transaction? at hread
  split at hread
  case h_2 => cases hread
  case h_1 queried reply =>
    obtain ⟨rfl, hsome⟩ := Option.ite_none_right_eq_some.mp hread
    have hfetched := toOption_eq_some.mp (Option.join_eq_some_iff.mp (Option.some.inj hsome))
    obtain ⟨outcome, transaction, rfl, hsigned, rfl⟩ := getTransaction_eq_some hfetched
    obtain ⟨hdecode, hfirst, payer, hpayer, hverify⟩ := ensureSignedWith_eq_ok hsigned
    exact ⟨_, rfl, outcome, transaction, payer, hmem, hdecode, hfirst, rfl, hpayer, hverify, rfl⟩

omit [TransactionSdk] in
theorem reads_of_yields [NonceCodec.Lawful] {account : Address} {nonce : NonceAccountData}
    (h : responses.yields (RpcResponse.nonceAccount? account) (some nonce) = true) :
    responses.Reads account nonce := by
  obtain ⟨response, hmem, hread⟩ := yields_iff.mp h
  unfold RpcResponse.nonceAccount? at hread
  split at hread
  case h_2 => cases hread
  case h_1 queried reply =>
    obtain ⟨rfl, hsome⟩ := Option.ite_none_right_eq_some.mp hread
    obtain ⟨stored, rfl, hstores⟩ :=
      getNonceAccount_eq_ok_iff.mp (toOption_eq_some.mp (Option.some.inj hsome))
    exact ⟨stored, hmem, hstores⟩

omit [SolanaSdk] [NonceCodec] in
theorem Attests.mono {message : TransactionMessage} {status : Option Sweep.TransactionStatusMeta}
    (h : responses.Attests signature message status) (hsubset : responses ⊆ responses') :
    responses'.Attests signature message status := by
  obtain ⟨outcome, transaction, payer, hmem, hrest⟩ := h
  exact ⟨outcome, transaction, payer, hsubset hmem, hrest⟩

omit [SolanaSdk] [NonceCodec] in
/-- The payer of the message signed it. -/
theorem Attests.verify {message : TransactionMessage} {status : Option Sweep.TransactionStatusMeta}
    (h : responses.Attests signature message status) {payer : Address}
    (hpayer : message.staticAccountKeys.head? = some payer) :
    TransactionSdk.verify signature payer message = true := by
  obtain ⟨-, -, payer', -, -, -, -, hpayer', hverify, -⟩ := h
  obtain rfl := Option.some.inj (hpayer.symm.trans hpayer')
  exact hverify

omit [TransactionSdk] in
theorem Reads.mono {account : Address} {nonce : NonceAccountData}
    (h : responses.Reads account nonce) (hsubset : responses ⊆ responses') :
    responses'.Reads account nonce := by
  obtain ⟨stored, hmem, hstores⟩ := h
  exact ⟨stored, hsubset hmem, hstores⟩

end Responses

end Cksol
