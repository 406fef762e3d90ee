import Mathlib.Data.List.Pairwise
import Cksol.State.Creation
import Cksol.State.Replay
import Cksol.State.Tables
import Cksol.State.WithdrawalStages

/-! # The state after interleaved created transactions

While transactions are being created, other tasks record events in between. The state that is reached is
that of the other events alone, with the created transactions added at the end, in any order.
-/

namespace Cksol

open Std

/-- The transactions that the events create, in order. -/
def creations (events : List Event) : List Creation :=
  events.filterMap fun event => event.payload.creation

/-- The events besides created transactions. -/
def otherEvents (events : List Event) : List Event :=
  events.filter fun event => event.payload.creation.isNone

namespace State

variable {state : State} {created created' : List Creation}

/-- Creations one after the other. -/
def createAll (state : State) (created : List Creation) : State :=
  created.foldl create state

theorem createAll_snoc (state : State) (created : List Creation) (creation : Creation) :
    state.createAll (created ++ [creation]) = (state.createAll created).create creation := by
  rw [createAll, List.foldl_append]
  rfl

theorem submittedTransactions_createAll (state : State) (created : List Creation) :
    (state.createAll created).submittedTransactions = state.submittedTransactions := by
  induction created generalizing state with
  | nil => rfl
  | cons creation created ih => exact ih (state.create creation)

/-- Independent transactions lead to the same state in every order. -/
theorem createAll_perm (state : State) (hperm : created.Perm created')
    (hindependent : created.Pairwise Creation.Independent) :
    state.createAll created = state.createAll created' := by
  refine hperm.foldl_eq' (fun creation hcreation creation' hcreation' state => ?_) state
  by_cases heq : creation = creation'
  · rw [heq]
  · exact create_comm state (hindependent.forall hcreation hcreation' heq)

section Events

variable [SolanaSdk]

/-- An event of another task has the same outcome before and after the created transactions. -/
theorem apply_createAll (state : State) {payload : EventType} (timestamp : Timestamp)
    (hkind : payload.isBystander) (havoids : ∀ creation ∈ created, state.Avoids payload creation) :
    applyStateTransition (state.createAll created) payload timestamp =
      (applyStateTransition state payload timestamp).map (·.createAll created) := by
  induction created generalizing state with
  | nil =>
      show applyStateTransition state payload timestamp = _
      cases applyStateTransition state payload timestamp <;> rfl
  | cons creation created ih =>
      have hrest : ∀ creation' ∈ created, (state.create creation).Avoids payload creation' := by
        intro creation' hmem
        have h := havoids creation' (List.mem_cons_of_mem _ hmem)
        exact ⟨h.accepted, h.concluded⟩
      have hfirst := apply_create state creation timestamp hkind (havoids creation List.mem_cons_self)
      have hcons (state : State) : state.createAll (creation :: created) =
        (state.create creation).createAll created := rfl
      rw [hcons, ih _ hrest, hfirst]
      cases applyStateTransition state payload timestamp <;> rfl

end Events

end State

/-! ## Runs -/

section Runs

variable [SolanaSdk]

/-- The state is that of the other events, with the created transactions added. -/
structure Factored (start : State) (events : List Event) (state : State) : Prop where
  base : ∃ base, (otherEvents events).foldlM
      (fun state event => applyStateTransition state event.payload event.timestamp) start = .ok base ∧
    state.persistent = base.createAll (creations events)
  created : ∀ creation ∈ creations events, state.createdWithdrawalTxs[creation.nonceAccount]? =
    some ⟨creation.nonceValue, creation.burnIndices⟩
  independent : (creations events).Pairwise Creation.Independent

namespace Factored

variable {start state state' : State} {events log : List Event} {timestamp : Timestamp}
  {payload : EventType}

theorem refl (state : State) : Factored state.persistent [] state :=
  ⟨⟨_, rfl, rfl⟩, by simp [creations], by simp [creations]⟩

/-- One more created transaction. -/
theorem create (h : Factored start events state) (htables : Canister.Tables ⟨state, log⟩)
    (hcreation : payload.creation.isSome)
    (happly : applyStateTransition state payload timestamp = .ok state') :
    Factored start (events ++ [⟨timestamp, payload⟩]) state' := by
  obtain ⟨base, hbase, hstate⟩ := h.base
  have heffect := State.effect_of_apply happly
  cases heffect with
  | @createdWithdrawal burnIndices nonceAccount nonceValue _ _ _ _ _ haccount hunseen hmoved htotal
      hbalance hnew =>
      -- the account and the requests are not those of an earlier transaction
      have hfresh : ∀ creation ∈ creations events,
          creation.Independent ⟨burnIndices, nonceAccount, nonceValue⟩ := by
        intro creation hcreation
        have hcreated := h.created creation hcreation
        refine ⟨fun heq => ?_, fun i hi hi' => ?_⟩
        · rw [heq, hnew] at hcreated
          cases hcreated
        · obtain ⟨pending, hpending⟩ := htables.requests.present hcreated i hi
          exact nomatch (hmoved.fresh i hi').symm.trans hpending
      have hothers : otherEvents (events ++ [⟨timestamp, .createdWithdrawalTransaction burnIndices
          nonceAccount nonceValue⟩]) = otherEvents events := by
        simp [otherEvents, EventType.creation]
      have hcreations : creations (events ++ [⟨timestamp, .createdWithdrawalTransaction burnIndices
          nonceAccount nonceValue⟩]) =
            creations events ++ [⟨burnIndices, nonceAccount, nonceValue⟩] := by
        simp [creations, EventType.creation]
      refine ⟨⟨base, by rw [hothers]; exact hbase, ?_⟩, ?_, ?_⟩
      · have hpersistent := State.effect_of_apply (State.apply_persistent happly)
        rw [hcreations, State.createAll_snoc, ← hstate]
        exact State.Effect.eq_create ⟨burnIndices, nonceAccount, nonceValue⟩ hpersistent
      · intro creation hmem
        rw [OrdMap.getElem?_insert_eq]
        rw [hcreations, List.mem_append, List.mem_singleton] at hmem
        rcases hmem with hold | rfl
        · rw [if_neg (hfresh creation hold).1.symm]
          exact h.created creation hold
        · rw [if_pos rfl]
      · rw [hcreations]
        refine List.pairwise_append.mpr ⟨h.independent, List.pairwise_singleton _ _, ?_⟩
        intro creation hold creation' hmem
        rw [List.mem_singleton.mp hmem]
        exact hfresh creation hold
  | _ => cases hcreation

/-- One more event of another task. -/
theorem other (h : Factored start events state) (htables : Canister.Tables ⟨state, log⟩)
    (hkind : payload.isBystander)
    (haccepted : ∀ request, payload = .acceptedWithdrawalRequest request →
      state.createdWithdrawalRequests[request.burnBlockIndex]? = none)
    (happly : applyStateTransition state payload timestamp = .ok state') :
    Factored start (events ++ [⟨timestamp, payload⟩]) state' := by
  obtain ⟨base, hbase, hstate⟩ := h.base
  have hnone : payload.creation = none := by
    cases payload with
    | createdWithdrawalTransaction => cases hkind
    | _ => rfl
  have hothers : otherEvents (events ++ [⟨timestamp, payload⟩]) =
      otherEvents events ++ [⟨timestamp, payload⟩] := by
    simp [otherEvents, hnone]
  have hcreations : creations (events ++ [⟨timestamp, payload⟩]) = creations events := by
    simp [creations, hnone]
  have hsubmitted : base.submittedTransactions = state.submittedTransactions := by
    rw [← State.submittedTransactions_createAll base (creations events), ← hstate]
    rfl
  have havoids : ∀ creation ∈ creations events, base.Avoids payload creation := by
    intro creation hcreation
    have hcreated := h.created creation hcreation
    constructor
    · rintro request rfl hmem
      obtain ⟨pending, hpending⟩ := htables.requests.present hcreated _ hmem
      exact nomatch (haccepted request rfl).symm.trans hpending
    · -- the account of a created transaction has no submitted one
      rintro signature - message account value submittedAt hget rfl
      rw [hsubmitted] at hget
      have hreference : NonceReference.created ⟨creation.nonceValue, creation.burnIndices⟩ =
          .submitted signature message value submittedAt := htables.nonces.unique hcreated hget
      cases hreference
  have hpersistent := State.apply_persistent happly
  rw [hstate, State.apply_createAll base timestamp hkind havoids, map_eq_ok] at hpersistent
  obtain ⟨base', hbase', hstate'⟩ := hpersistent
  have hkept : state'.createdWithdrawalTxs = state.createdWithdrawalTxs := by
    cases State.effect_of_apply happly with
    | createdWithdrawal | sentWithdrawal | upgrade => cases hkind
    | _ => rfl
  refine ⟨⟨base', ?_, hcreations ▸ hstate'.symm⟩, ?_, hcreations ▸ h.independent⟩
  · rw [hothers, List.foldlM_append, hbase]
    show (applyStateTransition base payload timestamp >>= pure) = _
    rw [hbase']
    rfl
  · rw [hcreations, hkept]
    exact h.created

end Factored

omit [SolanaSdk] in
/-- A request is accepted under an index that no created one has. -/
theorem Withdrawals.not_created_of_fresh {log : List Event} {state : State} {view : WithdrawalView}
    (h : Withdrawals log state view) {i : LedgerBurnIndex} (hfresh : i ∉ acceptedIndices log) :
    state.createdWithdrawalRequests[i]? = none := by
  refine Option.eq_none_iff_forall_ne_some.mpr fun request hrequest => hfresh ?_
  exact mem_acceptedIndices.mpr ⟨request, (h.accepted i request).mp
    ⟨.created, (h.follows .created i request).mp hrequest⟩⟩

/-- A run in which transactions are created and other tasks record events. -/
theorem Canister.Run.factored {canister canister' : Canister}
    (hrun : Run (fun _ _ payload => payload.isBystander ∨ payload.creation.isSome) canister canister')
    (htables : canister.Tables) {view : WithdrawalView}
    (hview : Withdrawals canister.log canister.state view)
    (hfresh : (acceptedIndices canister'.log).Nodup) :
    ∃ events, canister'.log = canister.log ++ events ∧
      Factored canister.state.persistent events canister'.state := by
  induction hrun with
  | refl => exact ⟨[], (List.append_nil _).symm, .refl _⟩
  | @tail reached reached' hreached hstep ih =>
      cases hstep with
      | transient =>
          obtain ⟨events, hlog, hfactored⟩ := ih hfresh
          exact ⟨events, hlog, hfactored.base, hfactored.created, hfactored.independent⟩
      | @event _ payload now hemits hevent =>
          obtain ⟨state, happly, rfl⟩ := processEvent_eq_ok.mp hevent
          rw [Withdrawals.acceptedIndices_append] at hfresh
          obtain ⟨hbefore, -, hnew⟩ := List.nodup_append.mp hfresh
          obtain ⟨events, hlog, hfactored⟩ := ih hbefore
          have htables' := htables.run hreached
          refine ⟨events ++ [⟨now, payload⟩], by rw [hlog, List.append_assoc], ?_⟩
          rcases hemits with hkind | hcreation
          · refine hfactored.other htables' hkind ?_ happly
            rintro request rfl
            obtain ⟨view', hview', -⟩ := hview.run hreached hbefore
            refine hview'.not_created_of_fresh fun hmem => ?_
            exact hnew _ hmem _ (by simp [Event.acceptedIndex]) rfl
          · exact hfactored.create htables' hcreation happly

/-- Two states that differ in the order of the created transactions only are equal. -/
theorem Factored.persistent_eq {start state state' : State} {events events' : List Event}
    (h : Factored start events state) (h' : Factored start events' state')
    (hothers : otherEvents events = otherEvents events')
    (hperm : (creations events).Perm (creations events')) : state.persistent = state'.persistent := by
  obtain ⟨base, hbase, hstate⟩ := h.base
  obtain ⟨base', hbase', hstate'⟩ := h'.base
  rw [hothers, hbase'] at hbase
  obtain rfl := Except.ok.inj hbase
  rw [hstate, hstate']
  exact State.createAll_perm _ hperm h.independent

end Runs

end Cksol
