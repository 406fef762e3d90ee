import Cksol.Minter.Runs

/-! # What is kept beside the minter

Some of what the canister does is not part of a configuration: the transactions it sends, and the
counters that an upgrade clears. A companion keeps such data beside a configuration. It follows every
message, may hold back the messages that wait for it, and has steps of its own.
-/

namespace Cksol

variable [SolanaSdk]

/-- Data in `σ` beside the minter, with steps in `ι`. -/
structure Companion (σ ι : Type) where
  admits : Config → σ → Action → Bool
  /-- What a message that leads from the first configuration to the second leaves. -/
  follow : Config → Timestamp → Action → Config → σ → σ
  move : Config → Timestamp → σ → ι → Option σ

/-- A message of the minter, or a move of the companion. -/
inductive CompanionAction (ι : Type) where
  | minter (action : Action)
  | move (move : ι)

namespace Companion

variable {σ ι : Type} {companion : Companion σ ι} {start : σ} {pair : Config × σ}

/-- The pair after one action; `none` when the action is not possible. -/
def step (companion : Companion σ ι) (pair : Config × σ) (now : Timestamp) :
    CompanionAction ι → Option (Config × σ)
  | .minter action =>
      if companion.admits pair.1 pair.2 action then
        (pair.1.step now action).map fun config =>
          (config, companion.follow pair.1 now action config pair.2)
      else none
  | .move move => (companion.move pair.1 now pair.2 move).map fun data => (pair.1, data)

/-- A run from the installation of the canister. -/
def runFrom (companion : Companion σ ι) (start : σ) (minterId : Principal) (args : InitArgs)
    (now : Timestamp) (actions : List (Timestamp × CompanionAction ι)) : Option (Config × σ) :=
  Machine.runFrom (fun pair entry => companion.step pair entry.1 entry.2)
    ((Config.init minterId args now).toOption.map (·, start)) actions

variable {minterId : Principal} {args : InitArgs} {now : Timestamp}
  {actions : List (Timestamp × CompanionAction ι)}

/-- Run rule: what holds at the installation, and is kept by the messages of the minter and by the
steps of the companion. The run of the minter so far is at hand. -/
theorem runFrom_induction (P : Config → σ → Prop)
    (hinit : ∀ config, Config.init minterId args now = .ok config → P config start)
    (hminter : ∀ done config data t action config',
      Config.runFrom minterId args now done = some config → P config data →
      companion.admits config data action = true → config.step t action = some config' →
      P config' (companion.follow config t action config' data))
    (hmove : ∀ done config data t move data',
      Config.runFrom minterId args now done = some config → P config data →
      companion.move config t data move = some data' → P config data')
    (h : companion.runFrom start minterId args now actions = some pair) :
    P pair.1 pair.2 ∧ ∃ done, Config.runFrom minterId args now done = some pair.1 := by
  refine Machine.runFrom_inner Prod.fst (fun pair => P pair.1 pair.2) ?_ ?_ h
  · intro pair hpair
    obtain ⟨config, hconfig, rfl⟩ := Option.map_eq_some_iff.mp hpair
    exact ⟨hconfig, hinit config (toOption_eq_some.mp hconfig)⟩
  · rintro done ⟨config, data⟩ ⟨t, action⟩ pair' hdone hP hlast
    cases action with
    | minter action =>
        obtain ⟨hadmits, hlast⟩ := Option.ite_none_right_eq_some.mp hlast
        obtain ⟨config', hstep, rfl⟩ := Option.map_eq_some_iff.mp hlast
        exact ⟨.inr ⟨(t, action), hstep⟩,
          hminter done config data t action config' hdone hP hadmits hstep⟩
    | move move =>
        obtain ⟨data', hdata, rfl⟩ := Option.map_eq_some_iff.mp hlast
        exact ⟨.inl rfl, hmove done config data t move data' hdone hP hdata⟩

end Companion

end Cksol
