import Cksol.Minter.Runs

/-! # Replay equals the live state

The canister lives through messages and upgrades. A message makes any changes: events, which it
records, and direct changes of the transient fields. One that panics is rolled back as a whole. An
upgrade restarts from a replay of the log. Whatever happened, the log replays to the live state, up to
the transient fields.
-/

namespace Cksol

open Std

/-- A change that a message makes. -/
inductive Change where
  | event (payload : EventType)
  | transient (transient : State.Transient)

/-- A message that completes, or an upgrade that replays the log. -/
inductive LiveAction where
  | message (changes : List Change)
  | upgrade (args : Option UpgradeArgs)

section LiveRuns

variable [SolanaSdk]

namespace Canister

variable {canister canister' : Canister} {now : Timestamp}

/-- The changes of one message all happen at the same time. -/
def applyChange (canister : Canister) (now : Timestamp) : Change → Except Panic Canister
  | .event payload => canister.processEvent payload now
  | .transient transient => .ok ⟨canister.state.withTransient transient, canister.log⟩

/-- A message makes its changes in order and stops at the first panic. -/
def applyChanges (canister : Canister) (now : Timestamp) (changes : List Change) :
    Except Panic Canister :=
  changes.foldlM (fun canister change => canister.applyChange now change) canister

/-- The canister after a message or an upgrade; a panic leaves it as it was. -/
def live (canister : Canister) (now : Timestamp) : LiveAction → Canister
  | .message changes => orTrap (canister.applyChanges now changes) canister id
  | .upgrade args => orTrap (canister.postUpgrade args now) canister id

/-- Messages and upgrades one after the other. -/
def liveRun (canister : Canister) (actions : List (Timestamp × LiveAction)) : Canister :=
  actions.foldl (fun canister entry => canister.live entry.1 entry.2) canister

theorem run_of_applyChange {change : Change} (h : canister.applyChange now change = .ok canister') :
    Run (fun _ _ _ => True) canister canister' := by
  cases change with
  | event payload => exact .event h trivial
  | transient transient =>
      obtain rfl := Except.ok.inj h
      exact .transient canister transient

theorem run_of_applyChanges {changes : List Change}
    (h : canister.applyChanges now changes = .ok canister') :
    Run (fun _ _ _ => True) canister canister' := by
  induction changes generalizing canister with
  | nil =>
      obtain rfl := Except.ok.inj h
      exact .refl
  | cons change changes ih =>
      simp only [applyChanges, List.foldlM_cons, bind_eq_ok] at h
      obtain ⟨middle, hchange, hchanges⟩ := h
      exact (run_of_applyChange hchange).trans (ih hchanges)

/-- A message or an upgrade is a run of the canister, also when it panics. -/
theorem run_of_live (hreplay : canister.Replayable) (action : LiveAction) :
    Run (fun _ _ _ => True) canister (canister.live now action) := by
  cases action with
  | message changes =>
      rcases orTrap_cases (rfl : canister.live now (.message changes) = _) with ⟨reached, h, heq⟩ | heq
      · rw [← heq]
        exact run_of_applyChanges h
      · rw [heq]
  | upgrade args =>
      rcases orTrap_cases (rfl : canister.live now (.upgrade args) = _) with ⟨reached, h, heq⟩ | heq
      · rw [← heq]
        exact (Run.postUpgrade hreplay h).mono fun _ _ _ _ => trivial
      · rw [heq]

theorem Replayable.liveRun (hreplay : canister.Replayable)
    (actions : List (Timestamp × LiveAction)) : (canister.liveRun actions).Replayable := by
  induction actions generalizing canister with
  | nil => exact hreplay
  | cons entry actions ih =>
      exact ih (hreplay.run (run_of_live hreplay entry.2))

/-- After any messages and upgrades, the log replays to the live state up to the transient fields. -/
theorem replay_of_liveRun {args : InitArgs} {initial : Canister}
    (hinit : Canister.init args now = .ok initial) (actions : List (Timestamp × LiveAction)) :
    ∃ replayed, replayEvents (initial.liveRun actions).log = .ok replayed ∧
      replayed.withTransient (initial.liveRun actions).state.transient =
        (initial.liveRun actions).state := by
  have hreplay := (replayable_of_init hinit).liveRun actions
  exact ⟨_, hreplay, rfl⟩

end Canister

end LiveRuns

section Sample

attribute [local instance] Solana.sdk

/-- A message that starts a task and records the key, one that panics after its first event, an
upgrade, and a deposit. -/
def sampleLiveActions : List (Timestamp × LiveAction) :=
  [(1, .message [.transient ⟨[], [], .default, [.mint]⟩, .event (.minterPublicKeyFetched ⟨7, 8⟩)]),
    (2, .message [.event (.queuedDeposit 0 ⟨sampleAccount, 11, .sample, none⟩),
      .event (.queuedDeposit 0 ⟨sampleAccount, 11, .sample, none⟩)]),
    (3, .upgrade (some { automaticDepositFee := some 100 })),
    (4, .message [.event (.queuedDeposit 0 ⟨sampleAccount, 11, .sample, none⟩),
      .transient ⟨[sampleAccount.key], [], .default, []⟩])]

theorem Canister.replay_of_sampleLiveActions :
    ∃ initial, Canister.init sampleInitArgs 0 = .ok initial ∧
      (initial.liveRun sampleLiveActions).log.length = 4 ∧
      ∃ replayed, replayEvents (initial.liveRun sampleLiveActions).log = .ok replayed ∧
        replayed.withTransient (initial.liveRun sampleLiveActions).state.transient =
          (initial.liveRun sampleLiveActions).state := by
  obtain ⟨initial, hinitial, hlength⟩ : ∃ initial,
      (Canister.init sampleInitArgs 0).toOption = some initial ∧
      (initial.liveRun sampleLiveActions).log.length = 4 :=
    exists_of_any (by decide +kernel)
  have hinit := toOption_eq_some.mp hinitial
  exact ⟨initial, hinit, hlength, replay_of_liveRun hinit sampleLiveActions⟩

end Sample

end Cksol
