import Cksol.State.Audit

/-! # `guard`

Guards of user calls and of timer tasks. A guard is an entry of a transient set that is removed when
the guard is dropped, also when a message traps after an `await`.
-/

namespace Cksol

/-- Why a call is turned away before it does anything. -/
inductive GuardError where
  | alreadyProcessing
  | tooManyConcurrentRequests
deriving DecidableEq

namespace Guard

/-- `Guard::new`, on the accounts that hold a guard. -/
def new (accounts : List AccountKey) (account : Account) : Except GuardError (List AccountKey) :=
  if account.key ∈ accounts then .error .alreadyProcessing
  else if maxConcurrent ≤ accounts.length then .error .tooManyConcurrentRequests
  else .ok (account.key :: accounts)

/-- `Guard::drop`. -/
def drop (accounts : List AccountKey) (account : Account) : List AccountKey :=
  accounts.filter (· ≠ account.key)

end Guard

namespace Canister

/-- `TimerGuard::new`. -/
def startTask (canister : Canister) (task : TaskType) : Option Canister :=
  if task ∈ canister.state.activeTasks then none
  else some (canister.updateTransient fun transient =>
    { transient with activeTasks := task :: transient.activeTasks })

/-- A started task only adds its guard. -/
theorem startTask_eq_some {canister started : Canister} {task : TaskType}
    (h : canister.startTask task = some started) :
    started = canister.updateTransient fun transient =>
      { transient with activeTasks := task :: transient.activeTasks } := by
  unfold startTask at h
  split at h
  · cases h
  · exact (Option.some.inj h).symm

/-- `TimerGuard::drop`. -/
def endTask (canister : Canister) (task : TaskType) : Canister :=
  canister.updateTransient fun transient =>
    { transient with activeTasks := transient.activeTasks.filter (· ≠ task) }

/-- Drops the guard of a withdrawal. -/
def dropWithdrawalGuard (canister : Canister) (account : Account) : Canister :=
  canister.updateTransient fun transient =>
    { transient with withdrawalGuards := Guard.drop transient.withdrawalGuards account }

/-- Drops the guard of a `deposit_sol` call. -/
def dropDepositSolGuard (canister : Canister) (account : Account) : Canister :=
  canister.updateTransient fun transient =>
    { transient with depositSolGuards := Guard.drop transient.depositSolGuards account }

end Canister

end Cksol
