import Cksol.State.DepositHistory

/-! # The steps of a deposit

A deposit is queued, swept, credited, and minted or quarantined. Its stage tells which of these steps it
has taken; an event takes a step with the deposits that it names, or with those of the sweep that it
names, and each of them takes it for the first time.
-/

namespace Cksol

open Std

/-- The events in the life of a deposit. -/
inductive DepositStep where
  | queued
  | swept
  | credited
  | minted
  | quarantined
deriving DecidableEq

/-- The steps that lead to a stage. -/
def Stage.steps : Stage → List DepositStep
  | queued _ => [.queued]
  | swept .. | finalized .. | dropped _ => [.queued, .swept]
  | pendingMint _ => [.queued, .swept, .credited]
  | minted _ => [.queued, .swept, .credited, .minted]
  | quarantined ⟨_, .sweepUnreadable⟩ => [.queued, .swept, .quarantined]
  | quarantined ⟨_, .mintUnresolved ..⟩ => [.queued, .swept, .credited, .quarantined]

/-- The steps that a deposit has taken, none for an id never issued. -/
def View.steps (view : View) (id : DepositSolId) : List DepositStep :=
  (view id).elim [] Stage.steps

/-- The steps that an event takes, with the deposits that take them. -/
def State.depositSteps (state : State) : EventType → List (DepositStep × DepositSolId)
  | .queuedDeposit depositId _ => [(.queued, depositId)]
  | .submittedTransaction _ _ _ (.sweepDeposit depositIds _) => depositIds.map (.swept, ·)
  | .creditedSweep _ _ mints => (mints.map CreditedDeposit.depositId).map (.credited, ·)
  | .mintedSweptDeposit depositId _ => [(.minted, depositId)]
  | .quarantinedPendingMint depositId => [(.quarantined, depositId)]
  | .quarantinedSweep signature =>
      ((state.deposits.finalized.get signature).elim [] fun sweep => sweep.deposits.keys).map
        (.quarantined, ·)
  | _ => []

/-- The deposits of one view take the given steps to the other, each for the first time. -/
structure View.Advances (view view' : View) (steps : List (DepositStep × DepositSolId)) : Prop where
  nodup : steps.Nodup
  mem_iff : ∀ step id, step ∈ view'.steps id ↔ step ∈ view.steps id ∨ (step, id) ∈ steps
  fresh : ∀ step id, (step, id) ∈ steps → step ∉ view.steps id

namespace View

variable {view view' : View} {id : DepositSolId}

theorem steps_of_some {stage : Stage} (h : view id = some stage) : view.steps id = stage.steps := by
  rw [steps, h]
  rfl

/-- The deposits of a list take one step. -/
theorem Advances.of_steps {ids : List DepositSolId} {new : DepositStep} (hnodup : ids.Nodup)
    (hfresh : ∀ id ∈ ids, new ∉ view.steps id)
    (htaken : ∀ id ∈ ids, view'.steps id = view.steps id ++ [new])
    (hkept : ∀ id ∉ ids, view'.steps id = view.steps id) :
    view.Advances view' (ids.map (new, ·)) where
  nodup := hnodup.map fun _ _ heq => (Prod.mk.inj heq).2
  mem_iff step id := by
    by_cases hid : id ∈ ids
    · rw [htaken id hid]
      simp [hid, eq_comm]
    · rw [hkept id hid]
      simp [hid]
  fresh step id hmem := by
    obtain ⟨id', hid', heq⟩ := List.mem_map.mp hmem
    obtain ⟨rfl, rfl⟩ := Prod.mk.inj heq
    exact hfresh id' hid'

/-- No deposit takes a step. -/
theorem Advances.of_eq (h : ∀ id, view'.steps id = view.steps id) : view.Advances view' [] where
  nodup := List.nodup_nil
  mem_iff step id := by simp [h]
  fresh := by simp

section Move

variable {moved : OrdMap DepositSolId QueuedDeposit} {stage : DepositSolId → QueuedDeposit → Stage}

/-- The moved deposits take one step. -/
theorem Advances.move {ids : List DepositSolId} {new : DepositStep} (hnodup : ids.Nodup)
    (hids : ∀ id, id ∈ ids ↔ id ∈ moved)
    (hfrom : ∀ id deposit, moved[id]? = some deposit → ∃ s, view id = some s ∧ new ∉ s.steps ∧
      (stage id deposit).steps = s.steps ++ [new]) :
    view.Advances (view.move moved stage) (ids.map (new, ·)) := by
  have hmoved : ∀ id ∈ ids, ∃ deposit s, moved[id]? = some deposit ∧ view id = some s ∧
      new ∉ s.steps ∧ (stage id deposit).steps = s.steps ++ [new] := by
    intro id hid
    obtain ⟨deposit, hdeposit⟩ := OrdMap.mem_iff_exists.mp ((hids id).mp hid)
    obtain ⟨s, hs⟩ := hfrom id deposit hdeposit
    exact ⟨deposit, s, hdeposit, hs⟩
  refine .of_steps hnodup (fun id hid => ?_) (fun id hid => ?_) fun id hid => ?_
  · obtain ⟨deposit, s, -, hs, hnew, -⟩ := hmoved id hid
    rwa [steps_of_some hs]
  · obtain ⟨deposit, s, hdeposit, hs, -, hsteps⟩ := hmoved id hid
    rw [steps_of_some (move_of_some hdeposit), steps_of_some hs, hsteps]
  · rw [hids] at hid
    rw [steps, move_of_none (OrdMap.not_mem_iff.mp hid)]
    rfl

/-- The moved deposits are where the same steps lead. -/
theorem Advances.move_of_eq
    (hfrom : ∀ id deposit, moved[id]? = some deposit → ∃ s, view id = some s ∧
      (stage id deposit).steps = s.steps) :
    view.Advances (view.move moved stage) [] := by
  refine .of_eq fun id => ?_
  cases hmoved : moved[id]? with
  | none =>
      rw [steps, move_of_none hmoved]
      rfl
  | some deposit =>
      obtain ⟨s, hs, hsteps⟩ := hfrom id deposit hmoved
      rw [steps_of_some (move_of_some hmoved), steps_of_some hs, hsteps]

end Move

/-- One deposit takes a step. -/
theorem Advances.update {after : Stage} {new : DepositStep} (hfresh : new ∉ view.steps id)
    (hafter : after.steps = view.steps id ++ [new]) :
    view.Advances (Function.update view id (some after)) [(new, id)] := by
  refine .of_steps (List.nodup_singleton id) (fun id' hid => ?_) (fun id' hid => ?_) fun id' hid => ?_
  · rwa [List.mem_singleton.mp hid]
  · rw [List.mem_singleton.mp hid, steps_of_some (Function.update_self ..), hafter]
  · rw [List.mem_singleton] at hid
    rw [steps, Function.update_of_ne hid]
    rfl

end View

/-- A set of deposits has one view. -/
theorem Tracks.unique {deposits : Deposits} {view view' : View} (h : Tracks deposits view)
    (h' : Tracks deposits view') : view = view' := by
  have hle {view view' : View} (h : Tracks deposits view) (h' : Tracks deposits view')
      {id : DepositSolId} {stage : Stage} (hstage : view id = some stage) :
      view' id = some stage := by
    cases stage with
    | queued deposit => exact (h'.queued _ _).mp ((h.queued _ _).mpr hstage)
    | swept signature deposit => exact (h'.swept _ _ _).mp ((h.swept _ _ _).mpr hstage)
    | finalized signature deposit => exact (h'.finalized _ _ _).mp ((h.finalized _ _ _).mpr hstage)
    | pendingMint pending => exact (h'.pendingMints _ _).mp ((h.pendingMints _ _).mpr hstage)
    | minted minted => exact (h'.minted _ _).mp ((h.minted _ _).mpr hstage)
    | dropped dropped => exact (h'.dropped _ _).mp ((h.dropped _ _).mpr hstage)
    | quarantined quarantined => exact (h'.quarantined _ _).mp ((h.quarantined _ _).mpr hstage)
  funext id
  exact Option.ext fun stage => ⟨hle h h', hle h' h⟩

/-- An event takes its steps with deposits that have not taken them before. -/
theorem State.Effect.advances [SolanaSdk] {state state' : State} {timestamp : Timestamp}
    {payload : EventType} {view : View} (h : Tracks state.deposits view)
    (heffect : state.Effect timestamp payload state') :
    ∃ view', Tracks state'.deposits view' ∧ view.Advances view' (state.depositSteps payload) := by
  cases heffect with
  | queuedDeposit hqueue =>
      obtain ⟨rfl, -⟩ := Deposits.queue_eq_ok hqueue
      have hsteps : view.steps state.deposits.nextId = [] := by rw [View.steps, h.view_nextId]; rfl
      refine ⟨_, h.queue hqueue, .update ?_ ?_⟩
      · rw [hsteps]
        exact List.not_mem_nil
      · rw [hsteps]
        rfl
  | sweptDeposits _ _ _ _ hsweep =>
      obtain ⟨taken, sweep, hplan, rfl, -, -, -, hfrom, htracks⟩ := h.sweep hsweep
      obtain ⟨-, -, hunique, -⟩ := Sweep.plan_eq_ok hplan
      obtain ⟨hnodup, hget⟩ := Sweep.unique_eq_ok hunique
      refine ⟨_, htracks, .move hnodup (fun id => ?_) fun id deposit hdeposit => ?_⟩
      · simp [OrdMap.mem_iff_exists, hget]
      · exact ⟨_, hfrom id deposit hdeposit, by simp [Stage.steps], rfl⟩
  -- outcomes of sweeps change the stage, and are no steps of their own
  | succeededSweep _ _ _ hfinalize =>
      obtain ⟨sweep, hsweep, htracks⟩ := h.finalizeSwept hfinalize
      refine ⟨_, htracks, .move_of_eq fun id deposit hdeposit => ?_⟩
      exact ⟨_, (h.swept_deposits hsweep id deposit).mp hdeposit, rfl⟩
  | failedSweep _ _ _ hdrop | expiredSweep _ _ _ hdrop =>
      obtain ⟨sweep, hsweep, htracks⟩ := h.dropSwept hdrop
      refine ⟨_, htracks, .move_of_eq fun id deposit hdeposit => ?_⟩
      exact ⟨_, (h.swept_deposits hsweep id deposit).mp hdeposit, rfl⟩
  | creditedSweep hcredit =>
      obtain ⟨hsweep, hlength, _, hcredited, -⟩ := Deposits.creditSweep_eq_ok hcredit
      refine ⟨_, h.creditSweep hcredit, .move hcredited.nodup
        (Tracks.mem_of_credited hcredited hlength) fun id deposit hdeposit => ?_⟩
      exact ⟨_, (h.finalized_deposits hsweep id deposit).mp hdeposit, by simp [Stage.steps], rfl⟩
  | quarantinedSweep hquarantine =>
      obtain ⟨sweep, hsweep, htracks⟩ := h.quarantineSweep hquarantine
      refine ⟨_, htracks, ?_⟩
      have hget : state.deposits.finalized.get _ = some sweep := hsweep
      rw [State.depositSteps, hget]
      refine .move (OrdMap.nodup_keys _) (fun id => ExtTreeMap.mem_keys) fun id deposit hdeposit => ?_
      exact ⟨_, (h.finalized_deposits hsweep id deposit).mp hdeposit, by simp [Stage.steps], rfl⟩
  | minted hmint =>
      obtain ⟨pending, hpending, htracks⟩ := h.mint hmint
      refine ⟨_, htracks, .update ?_ ?_⟩
      · simp [View.steps_of_some hpending, Stage.steps]
      · rw [View.steps_of_some hpending]
        rfl
  | quarantinedPendingMint hquarantine =>
      obtain ⟨pending, hpending, htracks⟩ := h.quarantinePendingMint hquarantine
      refine ⟨_, htracks, .update ?_ ?_⟩
      · simp [View.steps_of_some hpending, Stage.steps]
      · rw [View.steps_of_some hpending]
        rfl
  | _ => exact ⟨view, h, .of_eq fun _ => rfl⟩

end Cksol
