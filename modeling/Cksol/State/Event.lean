import Cksol.State.Sweeps

/-! # `state/event`

The events that record every change of the persistent state, and the arguments of init and upgrade.
A versioned message has the single variant of a legacy message, so it is that message.
-/

namespace Cksol

/-- The networks of `SolanaNetwork`. -/
inductive SolanaNetwork where
  | mainnet
  | devnet
  | testnet
deriving DecidableEq

/-- The master keys of the Internet Computer. -/
inductive Ed25519KeyName where
  | localDevelopment
  | mainnetTestKey1
  | mainnetProdKey1
deriving DecidableEq

/-- The parameters that the canister is installed with. -/
structure InitArgs where
  solRpcCanisterId : Principal
  ledgerCanisterId : Principal
  masterKeyName : Ed25519KeyName
  minimumWithdrawalAmount : Lamport
  minimumDepositAmount : Lamport
  withdrawalFee : Lamport
  depositSolRequiredCycles : UInt64
  solanaNetwork : SolanaNetwork
  depositSolFee : UInt64
  nonceAccounts : List String
  automaticDepositFee : Option Lamport
deriving DecidableEq

/-- Arguments that pass every check of `init`, with one nonce account. -/
def sampleInitArgs : InitArgs where
  solRpcCanisterId := .single 1
  ledgerCanisterId := .single 2
  masterKeyName := .mainnetProdKey1
  minimumWithdrawalAmount := 1_000_000
  minimumDepositAmount := 2_000_000
  withdrawalFee := 5_000
  depositSolRequiredCycles := 20_000_000_000
  solanaNetwork := .mainnet
  depositSolFee := 1_000_000_000
  nonceAccounts := ["11111111111111111111111111111115"]
  automaticDepositFee := none

/-- The parameters that an upgrade changes. -/
structure UpgradeArgs where
  solRpcCanisterId : Option Principal := none
  minimumWithdrawalAmount : Option Lamport := none
  minimumDepositAmount : Option Lamport := none
  withdrawalFee : Option Lamport := none
  depositSolRequiredCycles : Option UInt64 := none
  depositSolFee : Option UInt64 := none
  nonceAccountsToAdd : Option (List String) := none
  automaticDepositFee : Option Lamport := none
deriving DecidableEq

abbrev BlockHeight := ℕ

/-- Payload of the `AcceptedWithdrawalRequest` event. -/
structure WithdrawalRequest where
  account : Account
  solanaAddress : Address
  burnBlockIndex : LedgerBurnIndex
  burnedAmount : Lamport
  amountToTransfer : Lamport
deriving DecidableEq

/-- The key that produced one signature of a submitted Solana transaction. -/
inductive Signer where
  | minter
  | account (account : Account)
deriving DecidableEq

def Signer.derivationPath : Signer → DerivationPath
  | .minter => minterDerivationPath
  | .account owner => Cksol.derivationPath owner

/-- The purpose of a submitted transaction. -/
inductive TransactionPurpose where
  | sweepDeposit (depositIds : List DepositSolId) (blockHeight : BlockHeight)
  | withdrawal (burnIndices : List LedgerBurnIndex)
deriving DecidableEq

/-- What the log records; the state is a function of it. -/
inductive EventType where
  | init (args : InitArgs)
  | upgrade (args : UpgradeArgs)
  | acceptedWithdrawalRequest (request : WithdrawalRequest)
  | submittedTransaction (signature : Signature) (message : Message) (signers : List Signer)
      (purpose : TransactionPurpose)
  | succeededTransaction (signature : Signature)
  | failedTransaction (signature : Signature)
  | expiredTransaction (signature : Signature)
  | queuedDeposit (depositId : DepositSolId) (deposit : QueuedDeposit)
  | creditedSweep (signature : Signature) (amountReceived : Lamport) (mints : List CreditedDeposit)
  | quarantinedSweep (signature : Signature)
  | minterPublicKeyFetched (key : SchnorrPublicKey)
  | mintedSweptDeposit (depositId : DepositSolId) (mintBlockIndex : LedgerMintIndex)
  | quarantinedPendingMint (depositId : DepositSolId)
  | createdWithdrawalTransaction (burnIndices : List LedgerBurnIndex) (nonceAccount : Address)
      (nonceValue : Hash)
deriving DecidableEq

/-- A recorded change, with the time of the message that made it. -/
structure Event where
  timestamp : Timestamp
  payload : EventType
deriving DecidableEq

end Cksol
