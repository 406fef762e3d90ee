import Cksol.Address

/-! # Panics of the state transitions

The assertions and expectations of the crate, one constructor for each message, with the data the
message shows. A panic traps the canister, which undoes everything the current message did.
-/

namespace Cksol

abbrev DepositSolId := ℕ

abbrev LedgerBurnIndex := ℕ

abbrev LedgerMintIndex := ℕ

/-- One constructor for each message. -/
inductive Panic where
  /- `state/nonce_pool` -/
  | nonceAccountNotInPool (address : Address)
  | nonceAccountAlreadyBound (address : Address)
  | nonceValueAlreadySeen (address : Address) (nonceValue : Hash)
  | nonceAccountNotBound (address : Address)
  /- `state/deposits/sweeps` -/
  | depositHeldByAnotherSweep (depositId : DepositSolId) (signature : Signature)
  | sweepRecordedTwice (signature : Signature)
  | sweepWithDepositTwice (depositId : DepositSolId)
  | sweepWithoutDeposits
  | minimumDepositBelowSweepFee
  | unexpectedSweepMessage (signature : Signature) (planned submitted : Message)
  /- `state/deposits` -/
  | queuedOutOfSequence (depositId expected : DepositSolId)
  | accountAlreadyInFlight (account : Account)
  | sweepOfNoDeposits (signature : Signature)
  | sweepOfUnknownDeposit (depositId : DepositSolId)
  | dropOfSweepNotSwept (signature : Signature)
  | quarantineOfSweepNotFinalized (signature : Signature)
  | notTheInFlightDeposit (depositId : DepositSolId) (account : Account)
  | finalizeOfSweepNotSwept (signature : Signature)
  | creditOfSweepNotFinalized (signature : Signature)
  | creditWithWrongMintCount (signature : Signature) (mints deposits : ℕ)
  | creditOfForeignDeposit (depositId : DepositSolId) (signature : Signature)
  | mintBeyondSweepableAmount (amountToMint : Lamport) (depositId : DepositSolId)
      (sweepableAmount : Lamport)
  | creditOfDepositTwice (depositId : DepositSolId) (signature : Signature)
  | mintWithoutPendingMint (depositId : DepositSolId)
  | quarantineWithoutPendingMint (depositId : DepositSolId)
  | inFlightDepositReleased (depositId : DepositSolId) (account : Account)
  /- `state/watchlist` and the map it is kept in -/
  | watchlistInconsistent (cause : TimedSizedMap.Inconsistent)
  | registrationNotLive
  /- `state` -/
  | publicKeyOverwritten
  | publicKeyNotRecorded
  | expiredAlreadySucceeded (signature : Signature)
  | expiredAlreadyFailed (signature : Signature)
  | expiredNotSubmitted (signature : Signature)
  | withdrawalCannotExpire (signature : Signature)
  | creditExceedsReceived (signature : Signature) (amountToMint depositFees amountReceived : Lamport)
  | withdrawalAlreadyAccepted (burnIndex : LedgerBurnIndex)
  | submittedAlreadySucceeded (signature : Signature)
  | submittedAlreadyFailed (signature : Signature)
  | submittedTwice (signature : Signature)
  | createdForUnknownRequest (burnIndex : LedgerBurnIndex)
  | createdAmountOverflows
  | createdForCreatedRequest (burnIndex : LedgerBurnIndex)
  | insufficientBalance
  | nonceAccountAlreadyCreated (nonceAccount : Address)
  | noAdvanceNonceInstruction (signature : Signature)
  | noTransactionCreated (nonceAccount : Address)
  | servesOtherRequests (signature : Signature) (nonceAccount : Address)
  | carriesOtherMessage (signature : Signature) (nonceAccount : Address)
  | notSignedByMinterOnly (signature : Signature)
  | requestNotInCreatedBucket (burnIndex : LedgerBurnIndex)
  | sentAlreadySentRequest (burnIndex : LedgerBurnIndex)
  | cannotRebuildMessage (nonceAccount : Address)
  | succeededAlreadyFailed (signature : Signature)
  | succeededUnknown (signature : Signature)
  | succeededTwice (signature : Signature)
  | failedAlreadySucceeded (signature : Signature)
  | failedUnknown (signature : Signature)
  | failedTwice (signature : Signature)
  /- `state/audit` and `lifecycle` -/
  | stateReinitialized
  | upgradeRejected
  | initRejected
  | emptyEventLog
  | firstEventNotInit
  /- `withdraw`, `ledger` and `deposit` -/
  | burnedBelowWithdrawalFee
  | blockIndexBeyondU64 (blockIndex : ℕ)
  | unexpectedBurnError
  | amountBeyondU64 (amount : ℕ)
  | unknownSweepSigner (key : Address)
  | unexpectedSignatureLength (got : ℕ)
  | depositBalanceBelowRent
  | cyclesNotReceived (amount received : ℕ)
  | invalidDepositOwner (account : Account)

end Cksol
