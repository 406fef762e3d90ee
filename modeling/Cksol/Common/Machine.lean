import Mathlib.Data.List.Induction

/-! # Machines

A machine is given by what an action leaves of a state, if the action is possible there. A run takes a
list of actions. The run rules keep the run so far at hand, and a machine that has another one inside
gives a run of that one.
-/

namespace Cksol

namespace Machine

variable {σ α : Type} {step : σ → α → Option σ} {start : Option σ} {state state' : σ}
  {actions later : List α}

/-- The state after the actions, if each of them is possible. -/
def run (step : σ → α → Option σ) (state : σ) : List α → Option σ
  | [] => some state
  | action :: rest => (step state action).bind (run step · rest)

/-- The state after the actions from the initial state, if there is one. -/
def runFrom (step : σ → α → Option σ) (start : Option σ) (actions : List α) : Option σ :=
  start.bind (run step · actions)

/-- A run makes its first step, and then the rest. -/
theorem run_cons {action : α} : run step state (action :: actions) = some state' ↔
    ∃ middle, step state action = some middle ∧ run step middle actions = some state' :=
  Option.bind_eq_some_iff

/-- One run after another. -/
theorem run_append :
    run step state (actions ++ later) = (run step state actions).bind (run step · later) := by
  induction actions generalizing state with
  | nil => rfl
  | cons action actions ih =>
      rw [List.cons_append, run, run, Option.bind_assoc]
      exact congrArg _ (funext fun middle => ih)

/-- A run goes on from the state that it has reached. -/
theorem runFrom_append (h : runFrom step start actions = some state) :
    runFrom step start (actions ++ later) = run step state later := by
  obtain ⟨initial, rfl, hrun⟩ := Option.bind_eq_some_iff.mp h
  rw [runFrom, Option.bind_some, run_append, hrun, Option.bind_some]

/-- The last step of a run. -/
theorem runFrom_concat {action : α} : runFrom step start (actions ++ [action]) = some state' ↔
    ∃ state, runFrom step start actions = some state ∧ step state action = some state' := by
  simp only [runFrom, run_append, Option.bind_eq_some_iff, run]
  constructor
  · rintro ⟨initial, hinitial, state, hrun, last, hlast, ⟨⟩⟩
    exact ⟨state, ⟨initial, hinitial, hrun⟩, hlast⟩
  · rintro ⟨state, ⟨initial, hinitial, hrun⟩, hlast⟩
    exact ⟨initial, hinitial, state, hrun, state', hlast, rfl⟩

/-- Run rule: what holds initially and is kept by every step, of the actions taken and the state. The
run up to each step is at hand. -/
theorem runFrom_induction (P : List α → σ → Prop) (hinit : ∀ state, start = some state → P [] state)
    (hstep : ∀ done state action state', runFrom step start done = some state → P done state →
      step state action = some state' → P (done ++ [action]) state')
    (h : runFrom step start actions = some state) : P actions state := by
  induction actions using List.reverseRecOn generalizing state with
  | nil =>
      obtain ⟨initial, hinitial, hrun⟩ := Option.bind_eq_some_iff.mp h
      obtain rfl := Option.some.inj hrun
      exact hinit _ hinitial
  | append_singleton done action ih =>
      obtain ⟨middle, hmiddle, hlast⟩ := runFrom_concat.mp h
      exact hstep done middle action state hmiddle (ih hmiddle) hlast

/-- Run rule from a given state. -/
theorem run_induction (P : List α → σ → Prop) (hinit : P [] state)
    (hstep : ∀ done state action state', P done state → step state action = some state' →
      P (done ++ [action]) state') (h : run step state actions = some state') : P actions state' := by
  have hrun : runFrom step (some state) actions = some state' := h
  refine runFrom_induction P ?_ (fun done state action state' _ => hstep done state action state') hrun
  rintro _ ⟨⟩
  exact hinit

/-- Run rule for a machine with another one inside: an action takes a step of the inner one or leaves
its state as it is, so that a run of the inner one is at hand. -/
theorem runFrom_inner {τ β : Type} {inner : τ → β → Option τ} {innerStart : Option τ} (view : σ → τ)
    (P : σ → Prop) (hinit : ∀ state, start = some state → innerStart = some (view state) ∧ P state)
    (hstep : ∀ done state action state', runFrom inner innerStart done = some (view state) → P state →
      step state action = some state' →
      (view state' = view state ∨ ∃ action, inner (view state) action = some (view state')) ∧ P state')
    (h : runFrom step start actions = some state) :
    P state ∧ ∃ done, runFrom inner innerStart done = some (view state) := by
  refine runFrom_induction (fun _ state => P state ∧
    ∃ done, runFrom inner innerStart done = some (view state)) ?_ ?_ h
  · intro state hstate
    obtain ⟨hstart, hP⟩ := hinit state hstate
    exact ⟨hP, [], by rw [hstart]; rfl⟩
  · rintro done state action state' - ⟨hP, done', hdone⟩ hlast
    obtain ⟨hview | ⟨action', haction⟩, hP'⟩ := hstep done' state action state' hdone hP hlast
    · exact ⟨hP', done', hview ▸ hdone⟩
    · exact ⟨hP', done' ++ [action'], runFrom_concat.mpr ⟨_, hdone, haction⟩⟩

end Machine

end Cksol
