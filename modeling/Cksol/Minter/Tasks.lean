import Cksol.Deposit.Mint
import Cksol.Deposit.Sweep
import Cksol.Monitor

/-! # The timer tasks

A round of a timer task is a sequence of messages: the code from one `await` to the next is atomic,
and between two messages of a round any other message of the canister may run. A task is given by
what a round keeps across an `await` and by what each of its messages does. Calls awaited together by
`join_all` are answered in any order; the code that follows the last answer is a message of its own
here, which adds interleavings and removes none.

A message that panics traps: what it did is undone, its round is dropped and the guard of the task is
released. A round may also trap for reasons outside the model, at any of its awaits.
-/

namespace Cksol

/-- The outcome of a message: its result, or what a trap leaves. -/
def orTrap {α β : Type} (result : Except Panic α) (trapped : β) (continue_ : α → β) : β :=
  match result with
  | .ok a => continue_ a
  | .error _ => trapped

/-- The result of a message or its trap. -/
theorem orTrap_cases {α β : Type} {result : Except Panic α} {trapped outcome : β}
    {continue_ : α → β} (h : orTrap result trapped continue_ = outcome) :
    (∃ a, result = .ok a ∧ continue_ a = outcome) ∨ outcome = trapped := by
  cases result with
  | error => exact .inr h.symm
  | ok a => exact .inl ⟨a, rfl, h⟩

variable [SolanaSdk]

/-! ## `process_pending_withdrawals` -/

/-- What a round keeps: the batches whose nonce accounts are being read, or the withdrawals whose
signatures were requested. -/
inductive WithdrawalRound where
  | creating (minterAddress : Address) (batches : List ReservedBatch)
  | signing (withdrawals : List BoundWithdrawal)

/-- The messages of a round of `process_pending_withdrawals`. -/
inductive WithdrawalAction where
  | start
  | nonceRead (position : ℕ) (reply : Option NonceAccountData)
  | requestSignatures
  | signed (position : ℕ) (reply : Option Signature)
  | finish
  | trap

/-- What a message of the round leaves: the canister, the round, and the withdrawals whose messages
it passed to the signer. -/
abbrev WithdrawalStep := Canister × Option WithdrawalRound × List BoundWithdrawal

namespace WithdrawalRound

/-- The guard of the task is released and the round is over. -/
def ended (canister : Canister) : WithdrawalStep :=
  (canister.endTask .withdrawalProcessing, none, [])

def step (canister : Canister) (round : Option WithdrawalRound) (now : Timestamp)
    (action : WithdrawalAction) : Option WithdrawalStep :=
  match action, round with
  | .start, none => do
      let canister ← canister.startTask .withdrawalProcessing
      let key ← canister.state.minterPublicKey
      return (canister, some (.creating (minterAddress key) canister.state.reservedBatches), [])
  | .nonceRead position reply, some (.creating minterAddress batches) => do
      let batch ← batches[position]?
      return orTrap (createTransaction canister minterAddress batch reply now) (ended canister)
        fun created => (created.1, some (.creating minterAddress (batches.eraseIdx position)), [])
  | .requestSignatures, some (.creating minterAddress []) =>
      some (orTrap (boundWithdrawals canister.state minterAddress) (ended canister)
        fun withdrawals => (canister, some (.signing withdrawals), withdrawals))
  | .signed position reply, some (.signing withdrawals) => do
      let withdrawal ← withdrawals[position]?
      return orTrap (signTransaction canister withdrawal reply now) (ended canister)
        fun canister => (canister, some (.signing (withdrawals.eraseIdx position)), [])
  | .finish, some (.signing []) => some (ended canister)
  | .trap, some _ => some (ended canister)
  | _, _ => none

end WithdrawalRound

/-! ## `finalize_transactions` -/

/-- What a round keeps: the sweeps it checks, the withdrawals whose nonce accounts are being read,
those whose transactions are being fetched, or the sweeps being fetched for their credit. -/
inductive FinalizeRound where
  | fetchingBlock (transactions : OrdMap Signature BlockHeight)
  | checkingStatuses (transactions : OrdMap Signature BlockHeight)
      (currentBlockHeight : Option BlockHeight)
  | readingNonces (minterAddress : Address) (withdrawals unchanged advanced : List InFlightWithdrawal)
  | finalizing (withdrawals : List InFlightWithdrawal)
  | crediting (sweeps : List (Signature × Sweep))

/-- The messages of a round of `finalize_transactions`. -/
inductive FinalizeAction where
  | start
  | block (reply : Option BlockHeight)
  | statuses (replies : List (Option (List (Option SignatureStatus))))
  | nonceRead (position : ℕ) (reply : Option NonceAccountData)
  | fetchLanded
  | landed (position : ℕ) (reply : Option Sweep.FetchedTransaction)
  | fetchFinalized
  | finalized (replies : List (Option Sweep.FetchedTransaction))
  | trap

abbrev FinalizeStep := Canister × Option FinalizeRound

/-- Events recorded one after the other by the same message. -/
def Canister.processEvents (canister : Canister) (payloads : List EventType) (now : Timestamp) :
    Except Panic Canister :=
  payloads.foldlM (fun canister payload => canister.processEvent payload now) canister

namespace FinalizeRound

def ended (canister : Canister) : FinalizeStep :=
  (canister.endTask .finalizeTransactions, none)

/-- `read_in_flight_nonces` up to its first await. -/
def readInFlightNonces (state : State) : FinalizeRound :=
  match state.minterPublicKey with
  | none => .finalizing []
  | some key => .readingNonces (minterAddress key) state.inFlightWithdrawals [] []

/-- The nonce read of one withdrawal joins the lists of the round. -/
def noteNonceRead (minterAddress : Address) (withdrawals unchanged advanced : List InFlightWithdrawal)
    (withdrawal : InFlightWithdrawal) : Option NonceRead → FinalizeRound
  | some .unchanged =>
      .readingNonces minterAddress withdrawals (unchanged ++ [withdrawal]) advanced
  | some .advanced => .readingNonces minterAddress withdrawals unchanged (advanced ++ [withdrawal])
  | some .stale | none => .readingNonces minterAddress withdrawals unchanged advanced

def step (canister : Canister) (round : Option FinalizeRound) (now : Timestamp)
    (action : FinalizeAction) : Option FinalizeStep :=
  match action, round with
  | .start, none => do
      let canister ← canister.startTask .finalizeTransactions
      let transactions := canister.state.blockhashTransactions
      if transactions.isEmpty then return (canister, some (readInFlightNonces canister.state))
      else return (canister, some (.fetchingBlock transactions))
  | .block reply, some (.fetchingBlock transactions) =>
      some (canister, some (.checkingStatuses transactions reply))
  | .statuses replies, some (.checkingStatuses transactions currentBlockHeight) =>
      some (orTrap
        (canister.processEvents (sweepStatusEvents transactions currentBlockHeight replies) now)
        (ended canister) fun canister => (canister, some (readInFlightNonces canister.state)))
  | .nonceRead position reply, some (.readingNonces minterAddress withdrawals unchanged advanced) => do
      let withdrawal ← withdrawals[position]?
      let read := readNonce canister.state withdrawal reply minterAddress
      return (canister, some (noteNonceRead minterAddress (withdrawals.eraseIdx position) unchanged
        advanced withdrawal read))
  -- the withdrawals in `unchanged` are only sent again
  | .fetchLanded, some (.readingNonces _ [] _ advanced) =>
      some (canister, some (.finalizing advanced))
  | .landed position reply, some (.finalizing withdrawals) => do
      let withdrawal ← withdrawals[position]?
      return orTrap
        (canister.processEvents (landedWithdrawalEvent withdrawal reply).toList now)
        (ended canister) fun canister => (canister, some (.finalizing (withdrawals.eraseIdx position)))
  | .fetchFinalized, some (.finalizing []) =>
      some (canister, some (.crediting canister.state.sweepsToCredit))
  | .finalized replies, some (.crediting sweeps) =>
      some (orTrap (canister.processEvents (creditEvents sweeps replies) now) (ended canister) ended)
  | .trap, some _ => some (ended canister)
  | _, _ => none

end FinalizeRound

/-! ## `sweep_queued_deposits` -/

/-- Where a round of `sweep_queued_deposits` waits. -/
inductive SweepRound where
  | fetchingBlock (batches : List (List (DepositSolId × QueuedDeposit))) (sweepDestination : Address)
  | signing (planned : List PlannedSweep)

/-- The messages of a round of `sweep_queued_deposits`. -/
inductive SweepAction where
  | start
  | block (reply : Option Block)
  | signed (position : ℕ) (reply : Option Signature)
  | finish
  | trap

/-- What a message of the round leaves: the canister, the round, and the sweeps whose messages it
passed to the signer. -/
abbrev SweepStep := Canister × Option SweepRound × List PlannedSweep

namespace SweepRound

def ended (canister : Canister) : SweepStep :=
  (canister.endTask .sweepDeposits, none, [])

def step (canister : Canister) (round : Option SweepRound) (now : Timestamp) (action : SweepAction) :
    Option SweepStep :=
  match action, round with
  | .start, none => do
      let canister ← canister.startTask .sweepDeposits
      let key ← canister.state.minterPublicKey
      match sweepBatches canister.state with
      | [] => none
      | batches => return (canister, some (.fetchingBlock batches (minterAddress key)), [])
  | .block none, some (.fetchingBlock _ _) => some (ended canister)
  | .block (some block), some (.fetchingBlock batches sweepDestination) =>
      some (orTrap (planSweeps batches block sweepDestination) (ended canister)
        fun planned => (canister, some (.signing planned), planned))
  | .signed position reply, some (.signing planned) => do
      let sweep ← planned[position]?
      return orTrap (recordSweep canister sweep reply now) (ended canister)
        fun canister => (canister, some (.signing (planned.eraseIdx position)), [])
  | .finish, some (.signing []) => some (ended canister)
  | .trap, some _ => some (ended canister)
  | _, _ => none

end SweepRound

/-! ## `process_pending_mints` -/

/-- A call to the ledger that a round awaits; `call` is its position among all the calls made. -/
structure MintCall where
  depositId : DepositSolId
  pending : PendingMint
  call : ℕ

/-- A round of `process_pending_mints` handles one mint after the other. -/
structure MintRound where
  remaining : List (DepositSolId × PendingMint)
  inFlight : Option MintCall

/-- The messages of a round of `process_pending_mints`. -/
inductive MintAction where
  | start
  | next
  | reply (reply : TransferReply)
  | finish
  | trap

/-- What a message of the round leaves: the canister, the round, and the transfers it requested. -/
abbrev MintStep := Canister × Option MintRound × List TransferArg

namespace MintRound

def ended (canister : Canister) : MintStep :=
  (canister.endTask .mint, none, [])

/-- What a trap leaves: the scope guard of the deposit in flight quarantines it. Should that panic
too, nothing is changed and the task stays active. -/
def trapped (canister : Canister) (inFlight : Option MintCall) (now : Timestamp) : MintStep :=
  match inFlight with
  | none => ended canister
  | some call => orTrap (recordQuarantinedPendingMint canister call.depositId now)
      (canister, none, []) ended

/-- `calls` is the number of transfers requested so far. -/
def step (canister : Canister) (round : Option MintRound) (calls : ℕ) (now : Timestamp)
    (action : MintAction) : Option MintStep :=
  match action, round with
  | .start, none => do
      let canister ← canister.startTask .mint
      match mintRoundNext canister.state with
      | [] => none
      | pendingMints => return (canister, some ⟨pendingMints, none⟩, [])
  | .next, some ⟨(depositId, pending) :: remaining, none⟩ =>
      some (orTrap (startPendingMint canister depositId pending now) (trapped canister none now)
        fun started =>
          (started.1, some ⟨remaining, started.2.map fun _ => ⟨depositId, pending, calls⟩⟩,
            started.2.toList))
  | .reply reply, some ⟨remaining, some call⟩ =>
      some (orTrap (finishPendingMint canister call.depositId reply now)
        (trapped canister (some call) now) fun canister => (canister, some ⟨remaining, none⟩, []))
  | .finish, some ⟨[], none⟩ => some (ended canister)
  | .trap, some ⟨_, inFlight⟩ => some (trapped canister inFlight now)
  | _, _ => none

end MintRound

end Cksol
