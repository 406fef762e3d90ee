import Cksol.Guard
import Cksol.Memo

/-! # `deposit/sweep/mint`

The rounds of `process_pending_mints`: the pending mints of a round are handled one after the other,
each with one `icrc1_transfer` call to the ledger. Each function is the code between two awaits.
-/

namespace Cksol

open Std

/-- The arguments of `icrc1_transfer`. -/
structure TransferArg where
  fromSubaccount : Option Subaccount
  toAccount : Account
  fee : Option ℕ
  createdAtTime : Option Timestamp
  memo : Option (List UInt8)
  amount : ℕ
deriving DecidableEq

/-- The errors of `icrc1_transfer`. -/
inductive TransferError where
  | badFee (expectedFee : ℕ)
  | badBurn (minBurnAmount : ℕ)
  | insufficientFunds (balance : ℕ)
  | tooOld
  | createdInFuture (ledgerTime : Timestamp)
  | temporarilyUnavailable
  | duplicate (duplicateOf : ℕ)
  | genericError (errorCode : ℕ) (message : String)
deriving DecidableEq

/-- The reply to `icrc1_transfer`; after a call error the transfer may or may not have executed. -/
inductive TransferReply where
  | blockIndex (blockIndex : ℕ)
  | error (error : TransferError)
  | callError
deriving DecidableEq

/-- `to_ledger_mint_index`. -/
def toLedgerMintIndex (blockIndex : ℕ) : Except Panic LedgerMintIndex :=
  if blockIndex < 2 ^ 64 then .ok blockIndex else .error (.blockIndexBeyondU64 blockIndex)

/-- `MintRound::next`: the pending mints of a round. -/
def mintRoundNext (state : State) : List (DepositSolId × PendingMint) :=
  state.deposits.pendingMints.toList.take maxPendingMintsPerRound

/-- Past the window, the ledger no longer recognises a repeated transfer. -/
def isBeyondDeduplicationWindow (pending : PendingMint) (now : Timestamp) : Bool :=
  ledgerDeduplicationWindow < now - pending.createdAtTime

/-- The arguments only depend on the pending mint, so that a retry repeats the transfer. -/
def mintTransferArg (depositId : DepositSolId) (pending : PendingMint) : TransferArg where
  fromSubaccount := none
  toAccount := pending.account
  fee := none
  createdAtTime := some pending.createdAtTime
  memo := some (Memo.encode (.mint (.sweep pending.sweepSignature depositId)))
  amount := pending.amountToMint.toNat

section

variable [SolanaSdk]

def recordMintedSweptDeposit (canister : Canister) (depositId : DepositSolId)
    (mintBlockIndex : LedgerMintIndex) (now : Timestamp) : Except Panic Canister :=
  canister.processEvent (.mintedSweptDeposit depositId mintBlockIndex) now

def recordQuarantinedPendingMint (canister : Canister) (depositId : DepositSolId)
    (now : Timestamp) : Except Panic Canister :=
  canister.processEvent (.quarantinedPendingMint depositId) now

/-- How `process_pending_mint` starts on one deposit: it quarantines it, or calls the ledger. -/
def startPendingMint (canister : Canister) (depositId : DepositSolId) (pending : PendingMint)
    (now : Timestamp) : Except Panic (Canister × Option TransferArg) :=
  if isBeyondDeduplicationWindow pending now then do
    let canister ← recordQuarantinedPendingMint canister depositId now
    return (canister, none)
  else .ok (canister, some (mintTransferArg depositId pending))

/-- `process_pending_mint` after the reply of the ledger. -/
def finishPendingMint (canister : Canister) (depositId : DepositSolId) (reply : TransferReply)
    (now : Timestamp) : Except Panic Canister :=
  match reply with
  | .blockIndex blockIndex | .error (.duplicate blockIndex) => do
      let mintBlockIndex ← toLedgerMintIndex blockIndex
      recordMintedSweptDeposit canister depositId mintBlockIndex now
  | .error .tooOld | .error (.badFee _) | .error (.badBurn _) | .error (.insufficientFunds _) =>
      recordQuarantinedPendingMint canister depositId now
  | .error .temporarilyUnavailable | .error (.genericError ..) | .error (.createdInFuture _)
  | .callError => .ok canister

end

end Cksol
