import Cksol.Common.OrdMap
import Cksol.Common.Fallible
import Cksol.Common.CheckedArith
import Cksol.Utils.InsertionOrderedMap
import Cksol.Utils.TimedSizedMap
import Cksol.Solana.Sdk
import Cksol.Constants
import Cksol.Address
import Cksol.State.Panic
import Cksol.State.NoncePool
import Cksol.State.Sweeps
import Cksol.State.Watchlist
import Cksol.State.Deposits
import Cksol.State.DepositPartition
import Cksol.Solana.Compile
import Cksol.Solana.Transfer
import Cksol.State.Basic
import Cksol.State.Transitions
import Cksol.State.Audit
import Cksol.Common.Moves
import Cksol.State.Effects
import Cksol.State.Replay
import Cksol.State.Tables
import Cksol.Guard
import Cksol.Withdraw
import Cksol.Monitor
import Cksol.Deposit.Sweep
import Cksol.Deposit.Mint
import Cksol.Minter.Tasks
import Cksol.Minter.System
import Cksol.Minter.Steps
import Cksol.Minter.Runs
import Cksol.State.WithdrawalStages
import Cksol.State.Bindings
import Cksol.Minter.Signing
import Cksol.Minter.Payouts
import Cksol.Minter.Finalizing
import Cksol.Minter.NonceOracle
import Cksol.State.Settlement
import Cksol.State.DepositHistory
import Cksol.State.Conservation
import Cksol.State.Debits
import Cksol.State.Credits
import Cksol.Minter.Reservations
import Cksol.Minter.Emissions
import Cksol.Minter.Accounting
import Cksol.Minter.RentFloor
import Cksol.Minter.Solvency
import Cksol.Minter.Burns
import Cksol.Minter.LiveRuns
import Cksol.Minter.Destinations
import Cksol.Minter.Statuses
import Cksol.Minter.Watching
import Cksol.Minter.DepositCalls
import Cksol.State.Creation
import Cksol.State.CreationOrder
import Cksol.Minter.TaskGuards
import Cksol.Minter.CreationRounds
import Cksol.State.SweepPlans
import Cksol.State.Submissions
import Cksol.Minter.SweepRounds
import Cksol.State.Conclusions
import Cksol.Minter.FinalizationRounds
import Cksol.Minter.SweepExpiry
import Cksol.Common.Sums
import Cksol.Minter.MainAddress
import Cksol.Common.Packing
import Cksol.Minter.WithdrawalBatches
import Cksol.Common.Payments
import Cksol.State.PlanOrder
import Cksol.Solana.Layout
import Cksol.State.SettlementExact
import Cksol.State.SweepMessages
import Cksol.Minter.Admission
import Cksol.Minter.Rebuilding
import Cksol.Deposit.MessageSize
import Cksol.Deposit.Signatures
import Cksol.Common.Cbor
import Cksol.Common.CborCodec
import Cksol.Common.ShortVec
import Cksol.Solana.Bincode
import Cksol.State.EventCbor
import Cksol.State.EventCandid
import Cksol.State.MintHistory
import Cksol.Minter.MintLedger
import Cksol.Utils.InsertionOrder
import Cksol.Common.StableSort
import Cksol.Utils.TimedRuns
import Cksol.State.ScanSchedule
import Cksol.MemoCodec
import Cksol.State.EventPages
import Cksol.State.CreditOverflow
import Cksol.Common.Registry
import Cksol.State.DepositSteps
import Cksol.State.Duplicates
import Cksol.Minter.Rescheduling
import Cksol.Minter.Backing
import Cksol.Minter.Broadcast
import Cksol.Rpc
import Cksol.Minter.Attribution
import Cksol.Minter.Execution
import Cksol.State.SweepExecution
import Cksol.Minter.Ownership
import Cksol.Minter.SweepOutcomes
