import Cksol.Minter.Runs

/-! # The minter in its environment

An environment says which messages the minter can receive, as far as they depend on what it answers, and
what it does by itself. A run interleaves both in any order.
-/

namespace Cksol

variable [SolanaSdk]

/-- An environment with states in `ε` and moves in `ι`. A move may depend on what the minter has sent
or signed. -/
structure Environment (ε ι : Type) where
  admits : Config → ε → Action → Bool
  move : Config → ε → ι → Option ε

/-- The minter beside a part of the outside world. -/
structure World (ε : Type) where
  config : Config
  env : ε

/-- A message of the minter, or a move of the world. -/
inductive WorldAction (ι : Type) where
  | minter (now : Timestamp) (action : Action)
  | move (move : ι)

namespace World

variable {ε ι : Type} {environment : Environment ε ι} {start : ε} {world world' : World ε}

/-- The world after one action; `none` when the action is not possible. -/
def step (environment : Environment ε ι) (world : World ε) : WorldAction ι → Option (World ε)
  | .minter now action =>
      if environment.admits world.config world.env action then
        (world.config.step now action).map fun config => { world with config }
      else none
  | .move move =>
      (environment.move world.config world.env move).map fun env => { world with env }

/-- The world after the actions, if each of them is possible. -/
def run (environment : Environment ε ι) (world : World ε) (actions : List (WorldAction ι)) :
    Option (World ε) :=
  Machine.run (step environment) world actions

/-- A run from the installation of the canister. -/
def runFrom (environment : Environment ε ι) (start : ε) (minterId : Principal) (args : InitArgs)
    (now : Timestamp) (actions : List (WorldAction ι)) : Option (World ε) :=
  Machine.runFrom (step environment) ((Config.init minterId args now).toOption.map (⟨·, start⟩))
    actions

theorem step_minter_eq_some {now : Timestamp} {action : Action} :
    world.step environment (.minter now action) = some world' ↔
      environment.admits world.config world.env action = true ∧
      ∃ config', world.config.step now action = some config' ∧ world' = ⟨config', world.env⟩ := by
  simp only [step, Option.ite_none_right_eq_some, Option.map_eq_some_iff, @eq_comm _ world']

theorem step_move_eq_some {move : ι} :
    world.step environment (.move move) = some world' ↔
      ∃ env, environment.move world.config world.env move = some env ∧
        world' = ⟨world.config, env⟩ := by
  simp only [step, Option.map_eq_some_iff, @eq_comm _ world']

section Runs

variable {minterId : Principal} {args : InitArgs} {now : Timestamp} {actions : List (WorldAction ι)}

theorem runFrom_append {later : List (WorldAction ι)}
    (h : runFrom environment start minterId args now actions = some world)
    (hlater : world.run environment later = some world') :
    runFrom environment start minterId args now (actions ++ later) = some world' :=
  (Machine.runFrom_append h).trans hlater

/-- Run rule: what holds at the installation, and is kept by the messages of the minter and by the moves
of its environment. The run of the minter so far is at hand. -/
theorem runFrom_induction (P : World ε → Prop)
    (hinit : ∀ config, Config.init minterId args now = .ok config → P ⟨config, start⟩)
    (hminter : ∀ done world t action config',
      Config.runFrom minterId args now done = some world.config → P world →
      environment.admits world.config world.env action = true →
      world.config.step t action = some config' → P ⟨config', world.env⟩)
    (hmove : ∀ done world move env,
      Config.runFrom minterId args now done = some world.config → P world →
      environment.move world.config world.env move = some env → P ⟨world.config, env⟩)
    (h : runFrom environment start minterId args now actions = some world) :
    P world ∧ ∃ done, Config.runFrom minterId args now done = some world.config := by
  refine Machine.runFrom_inner World.config P ?_ ?_ h
  · intro world hworld
    obtain ⟨config, hconfig, rfl⟩ := Option.map_eq_some_iff.mp hworld
    exact ⟨hconfig, hinit config (toOption_eq_some.mp hconfig)⟩
  · intro done world action world' hdone hP hlast
    cases action with
    | minter t action =>
        obtain ⟨hadmits, config', hstep, rfl⟩ := step_minter_eq_some.mp hlast
        exact ⟨.inr ⟨(t, action), hstep⟩, hminter done world t action config' hdone hP hadmits hstep⟩
    | move move =>
        obtain ⟨env, henv, rfl⟩ := step_move_eq_some.mp hlast
        exact ⟨.inl rfl, hmove done world move env hdone hP henv⟩

end Runs

end World

/-! ## Simulation -/

namespace Environment

variable {ε ι ζ κ : Type}

/-- The state after some moves, while the minter receives nothing. -/
def moves (environment : Environment ε ι) (config : Config) (env : ε) (moves : List ι) : Option ε :=
  moves.foldlM (environment.move config) env

/-- Two environments at once. A message is received when both admit it. -/
def prod (environment : Environment ε ι) (other : Environment ζ κ) :
    Environment (ε × ζ) (ι ⊕ κ) where
  admits config env action :=
    environment.admits config env.1 action && other.admits config env.2 action
  move config env
    | .inl move => (environment.move config env.1 move).map fun env' => (env', env.2)
    | .inr move => (other.move config env.2 move).map fun env' => (env.1, env')

end Environment

namespace World

variable {ε ι ζ κ : Type} {concrete : Environment ε ι} {abstract : Environment ζ κ} {start : ε}
  {world : World ε}

theorem run_moves {config : Config} {env env' : ζ} {moves : List κ}
    (h : abstract.moves config env moves = some env') :
    run abstract ⟨config, env⟩ (moves.map .move) = some ⟨config, env'⟩ := by
  induction moves generalizing env with
  | nil =>
      obtain rfl := Option.some.inj h
      rfl
  | cons move moves ih =>
      rw [Environment.moves, List.foldlM_cons, Option.bind_eq_bind, Option.bind_eq_some_iff] at h
      obtain ⟨middle, hmove, hrest⟩ := h
      have hstep : step abstract ⟨config, env⟩ (.move move) = some ⟨config, middle⟩ :=
        step_move_eq_some.mpr ⟨middle, hmove, rfl⟩
      exact Machine.run_cons.mpr ⟨_, hstep, ih hrest⟩

/-- Simulation rule: a relation that holds at the installation, under which the other environment
admits the same messages and follows every move with moves of its own. -/
theorem runFrom_simulation {minterId : Principal} {args : InitArgs} {now : Timestamp}
    {actions : List (WorldAction ι)} {start' : ζ} (R : Config → ε → ζ → Prop)
    (hinit : ∀ config, Config.init minterId args now = .ok config → R config start start')
    (hminter : ∀ done config env env' t action config',
      Config.runFrom minterId args now done = some config → R config env env' →
      concrete.admits config env action = true → config.step t action = some config' →
      abstract.admits config env' action = true ∧ R config' env env')
    (hmove : ∀ done config env env' move next,
      Config.runFrom minterId args now done = some config → R config env env' →
      concrete.move config env move = some next →
      ∃ moves next', abstract.moves config env' moves = some next' ∧ R config next next')
    (h : runFrom concrete start minterId args now actions = some world) :
    ∃ others env', runFrom abstract start' minterId args now others = some ⟨world.config, env'⟩ ∧
      R world.config world.env env' := by
  refine (runFrom_induction (fun world => ∃ others env',
    runFrom abstract start' minterId args now others = some ⟨world.config, env'⟩ ∧
      R world.config world.env env') ?_ ?_ ?_ h).1
  · intro config hconfig
    refine ⟨[], start', ?_, hinit config hconfig⟩
    rw [runFrom, hconfig]
    rfl
  · rintro done ⟨config, env⟩ t action config' hdone ⟨others, env', hothers, hR⟩ hadmits hstep
    obtain ⟨hadmits', hR'⟩ := hminter done config env env' t action config' hdone hR hadmits hstep
    have hsame : step abstract ⟨config, env'⟩ (.minter t action) = some ⟨config', env'⟩ :=
      step_minter_eq_some.mpr ⟨hadmits', config', hstep, rfl⟩
    exact ⟨others ++ [.minter t action], env', Machine.runFrom_concat.mpr ⟨_, hothers, hsame⟩, hR'⟩
  · rintro done ⟨config, env⟩ move next hdone ⟨others, env', hothers, hR⟩ hnext
    obtain ⟨moves, next', hmoves, hR'⟩ := hmove done config env env' move next hdone hR hnext
    exact ⟨others ++ moves.map .move, next', runFrom_append hothers (run_moves hmoves), hR'⟩

/-- A part of an environment that behaves like another one. -/
theorem runFrom_view {minterId : Principal} {args : InitArgs} {now : Timestamp}
    {actions : List (WorldAction ι)} (view : ε → ζ)
    (hadmits : ∀ config env action, concrete.admits config env action = true →
      abstract.admits config (view env) action = true)
    (hmove : ∀ config env move next, concrete.move config env move = some next →
      ∃ moves, abstract.moves config (view env) moves = some (view next))
    (h : runFrom concrete start minterId args now actions = some world) :
    ∃ others, runFrom abstract (view start) minterId args now others =
      some ⟨world.config, view world.env⟩ := by
  obtain ⟨others, env', hothers, henv⟩ :
      ∃ others env', runFrom abstract (view start) minterId args now others =
        some ⟨world.config, env'⟩ ∧ env' = view world.env :=
    runFrom_simulation (fun _ env env' => env' = view env)
      (fun _ _ => rfl)
      (fun _ config env _ _ action _ _ hR hadmits' _ => ⟨hR ▸ hadmits config env action hadmits', hR⟩)
      (fun _ config env _ move next _ hR hnext => by
        obtain ⟨moves, hmoves⟩ := hmove config env move next hnext
        exact ⟨moves, view next, hR ▸ hmoves, rfl⟩) h
  subst henv
  exact ⟨others, hothers⟩

section Prod

variable {environment : Environment ε ι} {other : Environment ζ κ} {pair : World (ε × ζ)} {start' : ζ}
  {minterId : Principal} {args : InitArgs} {now : Timestamp} {actions : List (WorldAction (ι ⊕ κ))}

/-- A run with two environments is a run with the first. -/
theorem runFrom_fst
    (h : runFrom (environment.prod other) (start, start') minterId args now actions = some pair) :
    ∃ others, runFrom environment start minterId args now others =
      some ⟨pair.config, pair.env.1⟩ := by
  refine runFrom_view Prod.fst (fun config env action hadmits => ?_)
    (fun config env move next hnext => ?_) h
  · exact (Bool.and_eq_true_iff.mp hadmits).1
  · cases move with
    | inl move =>
        obtain ⟨env', hmove, rfl⟩ := Option.map_eq_some_iff.mp hnext
        exact ⟨[move], by simp [Environment.moves, hmove]⟩
    | inr move =>
        obtain ⟨env', -, rfl⟩ := Option.map_eq_some_iff.mp hnext
        exact ⟨[], rfl⟩

/-- A run with two environments is a run with the second. -/
theorem runFrom_snd
    (h : runFrom (environment.prod other) (start, start') minterId args now actions = some pair) :
    ∃ others, runFrom other start' minterId args now others = some ⟨pair.config, pair.env.2⟩ := by
  refine runFrom_view Prod.snd (fun config env action hadmits => ?_)
    (fun config env move next hnext => ?_) h
  · exact (Bool.and_eq_true_iff.mp hadmits).2
  · cases move with
    | inl move =>
        obtain ⟨env', -, rfl⟩ := Option.map_eq_some_iff.mp hnext
        exact ⟨[], rfl⟩
    | inr move =>
        obtain ⟨env', hmove, rfl⟩ := Option.map_eq_some_iff.mp hnext
        exact ⟨[move], by simp [Environment.moves, hmove]⟩

end Prod

end World

end Cksol
