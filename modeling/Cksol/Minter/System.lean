import Cksol.Common.Machine
import Cksol.Minter.Tasks

/-! # The minter as a state machine

A configuration is the canister together with everything that awaits an answer: user calls, and at
most one round of each timer task. It also records what left the canister: the messages passed to the
threshold signer and the transfers requested from the ledger. An action is one message of the
canister, with the answers and the time that the environment provides.
-/

namespace Cksol

variable [SolanaSdk]

/-- A message passed to the threshold signer, with what it was passed for. -/
inductive SignRequest where
  | withdrawal (withdrawal : BoundWithdrawal)
  | sweep (planned : PlannedSweep) (signer : Signer)

namespace SignRequest

def message : SignRequest → Message
  | withdrawal bound => bound.message
  | sweep planned _ => planned.message

def derivationPath : SignRequest → DerivationPath
  | withdrawal _ => minterDerivationPath
  | sweep _ signer => signer.derivationPath

/-- The requests of one sweep, one for each of its signers. -/
def ofSweep (planned : PlannedSweep) : List SignRequest :=
  planned.signers.map (.sweep planned)

end SignRequest

/-- The canister with its calls and rounds in progress, and what it has asked of the signer. -/
structure Config where
  minterId : Principal
  canister : Canister
  withdrawCalls : List WithdrawCall
  depositSolCalls : List DepositSolCall
  withdrawals : Option WithdrawalRound
  finalization : Option FinalizeRound
  sweeps : Option SweepRound
  mints : Option MintRound
  signRequests : List SignRequest
  transfers : List TransferArg

/-- A message that the canister executes without interruption. -/
inductive Action where
  | withdraw (account : Account) (amountToBurn : Lamport) (address : String)
  | burned (position : ℕ) (reply : BurnReply)
  | withdrawTrap (position : ℕ)
  | depositSol (account : Account) (availableCycles : ℕ)
  | balance (position : ℕ) (reply : BalanceReply) (refundedCycles acceptedCycles : ℕ)
  | depositSolTrap (position : ℕ)
  | watchDepositAddress (account : Account)
  /-- A deposit queued by a balance scan of the automatic flow. -/
  | queueDeposit (deposit : QueuedDeposit)
  | publicKey (key : SchnorrPublicKey)
  | withdrawals (action : WithdrawalAction)
  | finalization (action : FinalizeAction)
  | sweeps (action : SweepAction)
  | mints (action : MintAction)
  | upgrade (args : Option UpgradeArgs)

namespace Config

/-- A canister with nothing in flight. -/
def idle (minterId : Principal) (canister : Canister) (signRequests : List SignRequest)
    (transfers : List TransferArg) : Config where
  minterId
  canister
  withdrawCalls := []
  depositSolCalls := []
  withdrawals := none
  finalization := none
  sweeps := none
  mints := none
  signRequests
  transfers

def init (minterId : Principal) (args : InitArgs) (now : Timestamp) : Except Panic Config := do
  let canister ← Canister.init args now
  return idle minterId canister [] []

theorem init_eq_ok {minterId : Principal} {args : InitArgs} {now : Timestamp} {config : Config} :
    init minterId args now = .ok config ↔
      ∃ canister, Canister.init args now = .ok canister ∧ idle minterId canister [] [] = config := by
  simp only [init, bind_eq_ok, pure_eq_ok]

/-- What an installation leaves. -/
theorem exists_of_init {minterId : Principal} {args : InitArgs} {now : Timestamp} {config : Config}
    (h : init minterId args now = .ok config) :
    ∃ addresses pool, DurableNoncePool.new addresses = .ok pool ∧
      (State.initial args pool).validate = .ok ⟨⟩ ∧
      config = idle minterId ⟨State.initial args pool, [⟨now, .init args⟩]⟩ [] [] := by
  obtain ⟨canister, hcanister, rfl⟩ := init_eq_ok.mp h
  obtain ⟨addresses, pool, hpool, hvalid, rfl⟩ := Canister.exists_of_init hcanister
  exact ⟨addresses, pool, hpool, hvalid, rfl⟩

/-- `fetch_and_record_minter_public_key`, once the key was fetched. -/
def recordPublicKey (canister : Canister) (key : SchnorrPublicKey) (now : Timestamp) :
    Except Panic Canister :=
  match canister.state.minterPublicKey with
  | some _ => .ok canister
  | none => canister.processEvent (.minterPublicKeyFetched key) now

/-- The configuration after one message; `none` when nothing awaits the answer. -/
def step (config : Config) (now : Timestamp) (action : Action) : Option Config :=
  let canister := config.canister
  match action with
  | .withdraw account amountToBurn address =>
      match withdraw canister account amountToBurn address with
      | .ok (canister, call) =>
          some { config with canister, withdrawCalls := config.withdrawCalls ++ [call] }
      | .error _ => some config
  | .burned position reply => do
      let call ← config.withdrawCalls[position]?
      let canister := orTrap (withdrawBurned canister call reply now)
        (canister.dropWithdrawalGuard call.account) Prod.fst
      return { config with canister, withdrawCalls := config.withdrawCalls.eraseIdx position }
  | .withdrawTrap position => do
      let call ← config.withdrawCalls[position]?
      return { config with
        canister := canister.dropWithdrawalGuard call.account
        withdrawCalls := config.withdrawCalls.eraseIdx position }
  | .depositSol account availableCycles =>
      match depositSol canister config.minterId account availableCycles with
      | .ok (.awaitsBalance canister call) =>
          some { config with canister, depositSolCalls := config.depositSolCalls ++ [call] }
      | .ok (.returns _) | .error _ => some config
  | .balance position reply refundedCycles acceptedCycles => do
      let call ← config.depositSolCalls[position]?
      let canister := orTrap
        (depositSolBalance canister call reply refundedCycles acceptedCycles now)
        (canister.dropDepositSolGuard call.account) Prod.fst
      return { config with canister, depositSolCalls := config.depositSolCalls.eraseIdx position }
  | .depositSolTrap position => do
      let call ← config.depositSolCalls[position]?
      return { config with
        canister := canister.dropDepositSolGuard call.account
        depositSolCalls := config.depositSolCalls.eraseIdx position }
  | .watchDepositAddress account =>
      let canister :=
        orTrap (watchDepositAddress canister config.minterId account now) canister Prod.fst
      some { config with canister }
  | .queueDeposit deposit =>
      let canister := orTrap (queueDeposit canister deposit now) canister Prod.fst
      some { config with canister }
  | .publicKey key =>
      let canister := orTrap (recordPublicKey canister key now) canister id
      some { config with canister }
  | .withdrawals action => do
      let (canister, round, withdrawals) ← WithdrawalRound.step canister config.withdrawals now action
      return { config with
        canister
        withdrawals := round
        signRequests := config.signRequests ++ withdrawals.map .withdrawal }
  | .finalization action => do
      let (canister, round) ← FinalizeRound.step canister config.finalization now action
      return { config with canister, finalization := round }
  | .sweeps action => do
      let (canister, round, planned) ← SweepRound.step canister config.sweeps now action
      return { config with
        canister
        sweeps := round
        signRequests := config.signRequests ++ planned.flatMap SignRequest.ofSweep }
  | .mints action => do
      let (canister, round, transfers) ←
        MintRound.step canister config.mints config.transfers.length now action
      return { config with canister, mints := round, transfers := config.transfers ++ transfers }
  | .upgrade args =>
      match canister.postUpgrade args now with
      | .ok canister => some (idle config.minterId canister config.signRequests config.transfers)
      | .error _ => some config

/-- The configuration after a run. -/
def run (config : Config) (actions : List (Timestamp × Action)) : Option Config :=
  Machine.run (fun config entry => config.step entry.1 entry.2) config actions

/-- A run from the installation of the canister. -/
def runFrom (minterId : Principal) (args : InitArgs) (now : Timestamp)
    (actions : List (Timestamp × Action)) : Option Config :=
  Machine.runFrom (fun config entry => config.step entry.1 entry.2) (init minterId args now).toOption
    actions

end Config

end Cksol
