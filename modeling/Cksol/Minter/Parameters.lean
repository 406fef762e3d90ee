import Cksol.Minter.Runs

/-! # Parameters

The parameters are validated when the canister is installed and by every upgrade, and nothing else
changes them.
-/

namespace Cksol

open Std Canister

/-- The amounts and fees that the endpoints read. -/
structure Parameters where
  withdrawalFee : Lamport
  minimumWithdrawalAmount : Lamport
  minimumDepositAmount : Lamport
  depositSolRequiredCycles : ℕ
  depositSolFee : ℕ

def State.parameters (state : State) : Parameters where
  withdrawalFee := state.withdrawalFee
  minimumWithdrawalAmount := state.minimumWithdrawalAmount
  minimumDepositAmount := state.minimumDepositAmount
  depositSolRequiredCycles := state.depositSolRequiredCycles
  depositSolFee := state.depositSolFee

section Parameters

variable [SolanaSdk] {state state' : State} {timestamp : Timestamp} {payload : EventType}

/-- Every event leaves valid parameters. -/
theorem State.Effect.validate (heffect : state.Effect timestamp payload state')
    (h : state.validate = .ok ⟨⟩) : state'.validate = .ok ⟨⟩ := by
  cases heffect with
  | upgrade hpool hvalid => exact hvalid
  | _ => exact h

/-- Only an upgrade changes the parameters. -/
theorem State.Effect.parameters_eq (heffect : state.Effect timestamp payload state')
    (hupgrade : ∀ args, payload ≠ .upgrade args) : state'.parameters = state.parameters := by
  cases heffect with
  | upgrade => exact absurd rfl (hupgrade _)
  | _ => rfl

theorem Canister.validate_of_init {args : InitArgs} {now : Timestamp} {canister : Canister}
    (h : Canister.init args now = .ok canister) : canister.state.validate = .ok ⟨⟩ := by
  obtain ⟨_, pool, -, hvalid, rfl⟩ := Canister.exists_of_init h
  exact hvalid

theorem Canister.Run.validate {Emits : State → Timestamp → EventType → Prop}
    {canister canister' : Canister} (hrun : Run Emits canister canister')
    (h : canister.state.validate = .ok ⟨⟩) : canister'.state.validate = .ok ⟨⟩ := by
  refine hrun.invariant (fun canister => canister.state.validate = .ok ⟨⟩) ?_ ?_ h
  · exact fun canister transient h => h
  · exact fun state log now payload state' _ h heffect => heffect.validate h

theorem Canister.Run.parameters_eq {Emits : State → Timestamp → EventType → Prop}
    {canister canister' : Canister} (hrun : Run Emits canister canister')
    (hupgrade : ∀ state t args, ¬ Emits state t (.upgrade args)) :
    canister'.state.parameters = canister.state.parameters := by
  refine hrun.invariant (fun reached => reached.state.parameters = canister.state.parameters) ?_ ?_ rfl
  · exact fun reached transient h => h
  · intro state log now payload state' hemits h heffect
    rw [heffect.parameters_eq]
    · exact h
    · rintro args rfl
      exact hupgrade _ _ _ hemits

namespace Config

variable {config config' : Config} {now : Timestamp} {action : Action}

/-- A message that is not an upgrade keeps the parameters. -/
theorem Steps.parameters_eq (hwellformed : config.Wellformed)
    (hsteps : config.Steps now action config') (hupgrade : ∀ args, action ≠ .upgrade args) :
    config'.canister.state.parameters = config.canister.state.parameters := by
  refine (hsteps.run hwellformed.replayable).parameters_eq fun state t args hrecords => ?_
  exact hupgrade _ hrecords.recordedBy

/-- The parameters of every reachable state are valid. -/
theorem validate_of_run {minterId : Principal} {args : InitArgs} {actions : List (Timestamp × Action)}
    (h : runFrom minterId args now actions = some config) :
    config.canister.state.validate = .ok ⟨⟩ := by
  obtain ⟨initial, hinit, hrun⟩ := runFrom_eq_some.mp h
  have hwellformed := wellformed_of_init hinit
  obtain ⟨canister, hcanister, rfl⟩ := init_eq_ok.mp hinit
  exact (run_canister hwellformed hrun).validate (validate_of_init hcanister)

end Config

end Parameters

end Cksol
