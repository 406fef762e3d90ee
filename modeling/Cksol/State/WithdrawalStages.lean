import Mathlib.Logic.Relation
import Cksol.State.Effects

/-! # The stages of a withdrawal

An accepted withdrawal request moves through five maps. A view gives the stage and the request of
each burn index as one function, so that a state which follows a view has every index in one map at
most; each event then moves the indices of one batch, or accepts one index.
-/

namespace Cksol

open Std Relation

/-- The map that a request is in. -/
inductive WithdrawalStage where
  | pending
  | created
  | sent
  | successful
  | failed
deriving DecidableEq

namespace WithdrawalStage

/-- The moves of a request from one map to the next. -/
inductive Next : WithdrawalStage → WithdrawalStage → Prop
  | create : Next pending created
  | send : Next created sent
  | succeed : Next sent successful
  | fail : Next sent failed

/-- A transaction was created for the request. -/
def isBound : WithdrawalStage → Bool
  | pending => false
  | created | sent | successful | failed => true

/-- The transaction of the request was submitted. -/
def isServed : WithdrawalStage → Bool
  | pending | created => false
  | sent | successful | failed => true

end WithdrawalStage

/-- The request together with the time of its acceptance. -/
def SentWithdrawalRequest.accepted (sent : SentWithdrawalRequest) : PendingWithdrawalRequest :=
  ⟨sent.request, sent.createdAt⟩

/-- The request that the map of a stage holds under a burn index. -/
def State.withdrawalAt (state : State) (stage : WithdrawalStage) (i : LedgerBurnIndex) :
    Option PendingWithdrawalRequest :=
  match stage with
  | .pending => state.pendingWithdrawalRequests[i]?
  | .created => state.createdWithdrawalRequests[i]?
  | .sent => state.sentWithdrawalRequests[i]?.map SentWithdrawalRequest.accepted
  | .successful => state.successfulWithdrawalRequests[i]?.map SentWithdrawalRequest.accepted
  | .failed => state.failedWithdrawalRequests[i]?.map SentWithdrawalRequest.accepted

/-! ## Views -/

/-- The stage and the request of each accepted burn index. -/
abbrev WithdrawalView := LedgerBurnIndex → Option (WithdrawalStage × PendingWithdrawalRequest)

namespace WithdrawalView

open Classical in
/-- The indices of a set move to a stage. -/
noncomputable def advance (view : WithdrawalView) (moved : Set LedgerBurnIndex)
    (target : WithdrawalStage) : WithdrawalView :=
  fun i => (view i).map fun entry => if i ∈ moved then (target, entry.2) else entry

/-- Requests stay as they are, and only move forward. -/
def AdvancesTo (view view' : WithdrawalView) : Prop :=
  ∀ i stage request, view i = some (stage, request) →
    ∃ stage', view' i = some (stage', request) ∧ ReflTransGen WithdrawalStage.Next stage stage'

theorem AdvancesTo.refl (view : WithdrawalView) : view.AdvancesTo view :=
  fun _ stage _ h => ⟨stage, h, .refl⟩

theorem AdvancesTo.trans {view view' view'' : WithdrawalView} (h : view.AdvancesTo view')
    (h' : view'.AdvancesTo view'') : view.AdvancesTo view'' := by
  intro i stage request hi
  obtain ⟨stage', hi', hstages⟩ := h i stage request hi
  obtain ⟨stage'', hi'', hstages'⟩ := h' i stage' request hi'
  exact ⟨stage'', hi'', hstages.trans hstages'⟩

section Advance

variable {view : WithdrawalView} {moved : Set LedgerBurnIndex} {source target : WithdrawalStage}
  {i : LedgerBurnIndex} {request : PendingWithdrawalRequest}

theorem advance_of_mem (hi : i ∈ moved) (h : view i = some (source, request)) :
    view.advance moved target i = some (target, request) := by
  simp [advance, h, hi]

theorem advance_of_notMem (hi : i ∉ moved) : view.advance moved target i = view i := by
  simp [advance, hi]

theorem advancesTo_advance (hnext : source.Next target)
    (hsource : ∀ i ∈ moved, ∃ request, view i = some (source, request)) :
    view.AdvancesTo (view.advance moved target) := by
  intro i stage request hi
  by_cases hmem : i ∈ moved
  · obtain ⟨request', hi'⟩ := hsource i hmem
    obtain ⟨rfl, rfl⟩ := Prod.mk.inj (Option.some.inj (hi.symm.trans hi'))
    exact ⟨target, advance_of_mem hmem hi, .single hnext⟩
  · exact ⟨stage, by rw [advance_of_notMem hmem, hi], .refl⟩

/-- Moving neither adds nor changes a request. -/
theorem exists_advance_iff :
    (∃ stage, view.advance moved target i = some (stage, request)) ↔
      ∃ stage, view i = some (stage, request) := by
  by_cases hmem : i ∈ moved
  · simp [advance, hmem]
  · rw [advance_of_notMem hmem]

/-- Which indices are at the stages of a kind after a move. -/
theorem advance_kind_iff {kind : WithdrawalStage → Bool} (htarget : kind target)
    (hsource : ∀ i ∈ moved, ∃ request, view i = some (source, request)) :
    (∃ stage request, view.advance moved target i = some (stage, request) ∧ kind stage) ↔
      i ∈ moved ∨ ∃ stage request, view i = some (stage, request) ∧ kind stage := by
  by_cases hmem : i ∈ moved
  · obtain ⟨request, hi⟩ := hsource i hmem
    exact iff_of_true ⟨target, request, advance_of_mem hmem hi, htarget⟩ (.inl hmem)
  · simp [advance_of_notMem hmem, hmem]

/-- A move between two stages of a kind, or of no such kind, does not show. -/
theorem advance_kind_congr {kind : WithdrawalStage → Bool} (hkind : kind target = kind source)
    (hsource : ∀ i ∈ moved, ∃ request, view i = some (source, request)) :
    (∃ stage request, view.advance moved target i = some (stage, request) ∧ kind stage) ↔
      ∃ stage request, view i = some (stage, request) ∧ kind stage := by
  by_cases hmem : i ∈ moved
  · obtain ⟨request, hi⟩ := hsource i hmem
    rw [advance_of_mem hmem hi, hi]
    simp [hkind]
  · rw [advance_of_notMem hmem]

end Advance

end WithdrawalView

open WithdrawalView

/-- The maps of the state hold what the view says. -/
def State.Follows (state : State) (view : WithdrawalView) : Prop :=
  ∀ stage i request, state.withdrawalAt stage i = some request ↔ view i = some (stage, request)

/-- Indices that move from one map of the state to another do so in the view. -/
theorem State.Follows.advance {state state' : State} {view : WithdrawalView}
    (h : state.Follows view) {source target : WithdrawalStage}
    {moved : Set LedgerBurnIndex}
    (hmoved : ∀ i ∈ moved, ∃ request, state.withdrawalAt source i = some request)
    (hsource : ∀ i ∈ moved, state'.withdrawalAt source i = none)
    (htarget : ∀ i ∈ moved, state'.withdrawalAt target i = state.withdrawalAt source i)
    (hunmoved : ∀ stage i, (i ∉ moved ∨ stage ≠ source ∧ stage ≠ target) →
      state'.withdrawalAt stage i = state.withdrawalAt stage i) :
    state'.Follows (view.advance moved target) := by
  intro stage i request
  by_cases hi : i ∈ moved
  · obtain ⟨request', hrequest'⟩ := hmoved i hi
    have hview := (h source i request').mp hrequest'
    rw [advance_of_mem hi hview]
    by_cases hstage : stage = target
    · subst hstage
      rw [htarget i hi, hrequest']
      simp
    · -- the index is in the target map only
      have hnone : state'.withdrawalAt stage i ≠ some request := by
        intro hsome
        by_cases hstage' : stage = source
        · rw [hstage', hsource i hi] at hsome
          cases hsome
        · rw [hunmoved stage i (.inr ⟨hstage', hstage⟩), h, hview] at hsome
          simp only [Option.some.injEq, Prod.mk.injEq] at hsome
          exact hstage' hsome.1.symm
      refine iff_of_false hnone ?_
      simp only [Option.some.injEq, Prod.mk.injEq]
      exact fun heq => hstage heq.1.symm
  · rw [hunmoved stage i (.inl hi), advance_of_notMem hi, h]

/-- A new index joins the pending requests. -/
theorem State.Follows.accept {state : State} {view : WithdrawalView} (h : state.Follows view)
    {i : LedgerBurnIndex} (hnone : view i = none) {request : PendingWithdrawalRequest} :
    { state with
      pendingWithdrawalRequests := state.pendingWithdrawalRequests.insert i request }.Follows
      (Function.update view i (some (.pending, request))) := by
  intro stage j r
  have hold := h stage j r
  by_cases hj : j = i
  · subst hj
    rw [hnone] at hold
    rw [Function.update_self]
    cases stage with
    | pending => simp [withdrawalAt]
    | _ => simpa [withdrawalAt] using hold
  · rw [Function.update_of_ne hj, ← hold]
    cases stage with
    | pending => simp only [withdrawalAt, OrdMap.getElem?_insert_eq, if_neg (Ne.symm hj)]
    | _ => rfl

/-! ## The log -/

namespace Event

/-- The burn index that the event accepts. -/
def acceptedIndex (event : Event) : Option LedgerBurnIndex :=
  match event.payload with
  | .acceptedWithdrawalRequest request => some request.burnBlockIndex
  | _ => none

/-- The burn indices that the event binds to a transaction. -/
def boundIndices (event : Event) : List LedgerBurnIndex :=
  match event.payload with
  | .createdWithdrawalTransaction burnIndices _ _ => burnIndices
  | _ => []

/-- The burn indices that the submitted transaction of the event serves. -/
def servedIndices (event : Event) : List LedgerBurnIndex :=
  match event.payload with
  | .submittedTransaction _ _ _ (.withdrawal burnIndices) => burnIndices
  | _ => []

end Event

/-- The accepted burn indices, in the order of the log. -/
def acceptedIndices (log : List Event) : List LedgerBurnIndex :=
  log.filterMap Event.acceptedIndex

/-- The burn indices of all created transactions. -/
def boundIndices (log : List Event) : List LedgerBurnIndex :=
  log.flatMap Event.boundIndices

/-- The burn indices of all submitted withdrawals. -/
def servedIndices (log : List Event) : List LedgerBurnIndex :=
  log.flatMap Event.servedIndices

/-- The request was accepted under its burn index. -/
def Accepts (log : List Event) (i : LedgerBurnIndex) (accepted : PendingWithdrawalRequest) : Prop :=
  ⟨accepted.createdAt, .acceptedWithdrawalRequest accepted.request⟩ ∈ log ∧
    accepted.request.burnBlockIndex = i

/-- The state follows the view, and the view is what the log records of the requests. -/
structure Withdrawals (log : List Event) (state : State) (view : WithdrawalView) : Prop where
  follows : state.Follows view
  accepted : ∀ i request, (∃ stage, view i = some (stage, request)) ↔ Accepts log i request
  bound_iff : ∀ i, i ∈ boundIndices log ↔
    ∃ stage request, view i = some (stage, request) ∧ stage.isBound
  bound_nodup : (boundIndices log).Nodup
  served_iff : ∀ i, i ∈ servedIndices log ↔
    ∃ stage request, view i = some (stage, request) ∧ stage.isServed
  served_nodup : (servedIndices log).Nodup

theorem mem_acceptedIndices {log : List Event} {i : LedgerBurnIndex} :
    i ∈ acceptedIndices log ↔ ∃ accepted, Accepts log i accepted := by
  simp only [acceptedIndices, List.mem_filterMap, Accepts]
  constructor
  · rintro ⟨⟨timestamp, payload⟩, hmem, hindex⟩
    cases payload with
    | acceptedWithdrawalRequest request =>
        exact ⟨⟨request, timestamp⟩, hmem, Option.some.inj hindex⟩
    | _ => cases hindex
  · rintro ⟨accepted, hmem, rfl⟩
    exact ⟨_, hmem, rfl⟩

namespace Withdrawals

variable {log : List Event} {state state' : State} {view : WithdrawalView} {timestamp : Timestamp}
  {payload : EventType}

theorem boundIndices_append (event : Event) :
    boundIndices (log ++ [event]) = boundIndices log ++ event.boundIndices := by
  simp [boundIndices]

theorem servedIndices_append (event : Event) :
    servedIndices (log ++ [event]) = servedIndices log ++ event.servedIndices := by
  simp [servedIndices]

theorem acceptedIndices_append (event : Event) :
    acceptedIndices (log ++ [event]) = acceptedIndices log ++ event.acceptedIndex.toList := by
  cases h : event.acceptedIndex <;> simp [acceptedIndices, h]

/-- Only an acceptance accepts. -/
theorem accepts_append (h : Event.acceptedIndex ⟨timestamp, payload⟩ = none) {i : LedgerBurnIndex}
    {request : PendingWithdrawalRequest} :
    Accepts (log ++ [⟨timestamp, payload⟩]) i request ↔ Accepts log i request := by
  simp only [Accepts, List.mem_append, List.mem_singleton, Event.mk.injEq]
  constructor
  · rintro ⟨hmem | ⟨-, rfl⟩, hi⟩
    · exact ⟨hmem, hi⟩
    · cases h
  · rintro ⟨hmem, hi⟩
    exact ⟨.inl hmem, hi⟩

/-- An event that is about other things. -/
theorem frame (h : Withdrawals log state view)
    (hmaps : ∀ stage i, state'.withdrawalAt stage i = state.withdrawalAt stage i)
    (haccepted : Event.acceptedIndex ⟨timestamp, payload⟩ = none)
    (hbound : Event.boundIndices ⟨timestamp, payload⟩ = [])
    (hserved : Event.servedIndices ⟨timestamp, payload⟩ = []) :
    Withdrawals (log ++ [⟨timestamp, payload⟩]) state' view where
  follows stage i request := by rw [hmaps, h.follows]
  accepted i request := by rw [h.accepted, accepts_append haccepted]
  bound_iff i := by rw [boundIndices_append, hbound, List.append_nil, h.bound_iff]
  bound_nodup := by rw [boundIndices_append, hbound, List.append_nil]; exact h.bound_nodup
  served_iff i := by rw [servedIndices_append, hserved, List.append_nil, h.served_iff]
  served_nodup := by rw [servedIndices_append, hserved, List.append_nil]; exact h.served_nodup

/-- A batch of indices joins those of a kind. -/
theorem joined {indices : List LedgerBurnIndex} {kind : WithdrawalStage → Bool}
    {source target : WithdrawalStage} {batch : List LedgerBurnIndex}
    (hiff : ∀ i, i ∈ indices ↔ ∃ stage request, view i = some (stage, request) ∧ kind stage)
    (hnodup : indices.Nodup) (hbatch : batch.Nodup)
    (hsource : ∀ i ∈ batch, ∃ request, view i = some (source, request))
    (hkind : kind source = false) (hkind' : kind target = true) :
    (∀ i, i ∈ indices ++ batch ↔ ∃ stage request,
        view.advance {i | i ∈ batch} target i = some (stage, request) ∧ kind stage) ∧
      (indices ++ batch).Nodup := by
  constructor
  · intro i
    have hsource' : ∀ i ∈ {i | i ∈ batch}, ∃ request, view i = some (source, request) := hsource
    rw [advance_kind_iff hkind' hsource', List.mem_append, hiff, or_comm, Set.mem_ofPred_eq]
  · refine List.nodup_append.mpr ⟨hnodup, hbatch, ?_⟩
    rintro i hi j hj rfl
    obtain ⟨stage, request, hview, hstage⟩ := (hiff i).mp hi
    obtain ⟨request', hview'⟩ := hsource i hj
    obtain ⟨rfl, -⟩ := Prod.mk.inj (Option.some.inj (hview.symm.trans hview'))
    rw [hkind] at hstage
    cases hstage

/-- A new index is accepted. -/
theorem accept (h : Withdrawals log state view) {request : WithdrawalRequest}
    (hfresh : request.burnBlockIndex ∉ acceptedIndices log) :
    ∃ view', Withdrawals (log ++ [⟨timestamp, .acceptedWithdrawalRequest request⟩])
        { state with pendingWithdrawalRequests :=
            state.pendingWithdrawalRequests.insert request.burnBlockIndex ⟨request, timestamp⟩ }
        view' ∧ view.AdvancesTo view' := by
  have hnone : view request.burnBlockIndex = none := by
    cases hview : view request.burnBlockIndex with
    | none => rfl
    | some entry =>
        exact absurd (mem_acceptedIndices.mpr ⟨_, (h.accepted _ _).mp ⟨_, hview⟩⟩) hfresh
  -- the view of every other index is unchanged
  have hkind {kind : WithdrawalStage → Bool} (hpending : kind .pending = false)
      (i : LedgerBurnIndex) :
      (∃ stage r, Function.update view request.burnBlockIndex (some (.pending, ⟨request, timestamp⟩)) i
          = some (stage, r) ∧ kind stage) ↔
        ∃ stage r, view i = some (stage, r) ∧ kind stage := by
    by_cases hi : i = request.burnBlockIndex
    · subst hi
      simp [hnone, hpending]
    · rw [Function.update_of_ne hi]
  refine ⟨Function.update view request.burnBlockIndex (some (.pending, ⟨request, timestamp⟩)), ?_, ?_⟩
  · refine ⟨?_, ?_, ?_, ?_, ?_, ?_⟩
    · exact h.follows.accept hnone
    · intro i r
      simp only [Accepts, List.mem_append, List.mem_singleton, Event.mk.injEq,
        EventType.acceptedWithdrawalRequest.injEq, or_and_right]
      by_cases hi : i = request.burnBlockIndex
      · subst hi
        have hold : ¬ Accepts log request.burnBlockIndex r := by
          rw [← h.accepted, hnone]
          simp
        rw [Function.update_self, ← Accepts, or_iff_right hold]
        obtain ⟨r, createdAt⟩ := r
        simp only [Option.some.injEq, Prod.mk.injEq, PendingWithdrawalRequest.mk.injEq]
        grind
      · rw [Function.update_of_ne hi, h.accepted, ← Accepts, or_iff_left]
        rintro ⟨⟨-, heq⟩, rfl⟩
        exact hi (congrArg _ heq)
    · intro i
      rw [boundIndices_append, hkind rfl]
      simpa [Event.boundIndices] using h.bound_iff i
    · rw [boundIndices_append]
      simpa [Event.boundIndices] using h.bound_nodup
    · intro i
      rw [servedIndices_append, hkind rfl]
      simpa [Event.servedIndices] using h.served_iff i
    · rw [servedIndices_append]
      simpa [Event.servedIndices] using h.served_nodup
  · intro i stage r hi
    have hne : i ≠ request.burnBlockIndex := fun heq => by
      rw [heq, hnone] at hi
      cases hi
    exact ⟨stage, by rw [Function.update_of_ne hne, hi], .refl⟩

/-- A batch moves from one map to the next, as its event records. -/
theorem move (h : Withdrawals log state view) {source target : WithdrawalStage}
    (hnext : source.Next target) (moved : Set LedgerBurnIndex)
    (hmoved : ∀ i ∈ moved, ∃ request, state.withdrawalAt source i = some request)
    (hsource : ∀ i ∈ moved, state'.withdrawalAt source i = none)
    (htarget : ∀ i ∈ moved, state'.withdrawalAt target i = state.withdrawalAt source i)
    (hunmoved : ∀ stage i, (i ∉ moved ∨ stage ≠ source ∧ stage ≠ target) →
      state'.withdrawalAt stage i = state.withdrawalAt stage i)
    (haccepted : Event.acceptedIndex ⟨timestamp, payload⟩ = none)
    (hrecorded : (∀ i ∈ moved, ∃ request, view i = some (source, request)) →
      ((∀ i, i ∈ boundIndices (log ++ [⟨timestamp, payload⟩]) ↔ ∃ stage request,
          view.advance moved target i = some (stage, request) ∧ stage.isBound) ∧
        (boundIndices (log ++ [⟨timestamp, payload⟩])).Nodup) ∧
      (∀ i, i ∈ servedIndices (log ++ [⟨timestamp, payload⟩]) ↔ ∃ stage request,
          view.advance moved target i = some (stage, request) ∧ stage.isServed) ∧
        (servedIndices (log ++ [⟨timestamp, payload⟩])).Nodup) :
    ∃ view', Withdrawals (log ++ [⟨timestamp, payload⟩]) state' view' ∧ view.AdvancesTo view' := by
  have hview : ∀ i ∈ moved, ∃ request, view i = some (source, request) := by
    intro i hi
    obtain ⟨request, hrequest⟩ := hmoved i hi
    exact ⟨request, (h.follows source i request).mp hrequest⟩
  obtain ⟨⟨hbound, hbound'⟩, hserved, hserved'⟩ := hrecorded hview
  refine ⟨view.advance moved target, ⟨?_, ?_, hbound, hbound', hserved, hserved'⟩,
    advancesTo_advance hnext hview⟩
  · exact h.follows.advance hmoved hsource htarget hunmoved
  · intro i request
    rw [exists_advance_iff, h.accepted, accepts_append haccepted]

section Effect

variable {burnIndices : List LedgerBurnIndex}

/-- A transaction is created for a batch of pending requests. -/
theorem create (h : Withdrawals log state view) {nonceAccount : Address} {nonceValue : Hash}
    (hmoved : OrdMap.Moved id burnIndices state.pendingWithdrawalRequests
      state'.pendingWithdrawalRequests state.createdWithdrawalRequests
      state'.createdWithdrawalRequests)
    (hother : ∀ stage i, stage ≠ .pending → stage ≠ .created →
      state'.withdrawalAt stage i = state.withdrawalAt stage i) :
    ∃ view', Withdrawals (log ++ [⟨timestamp,
      .createdWithdrawalTransaction burnIndices nonceAccount nonceValue⟩]) state' view' ∧
      view.AdvancesTo view' := by
  refine h.move .create {i | i ∈ burnIndices} (fun i hi => hmoved.present i hi)
    (fun i hi => hmoved.source_of_mem i hi) ?_ ?_ rfl ?_
  · intro i hi
    simpa [State.withdrawalAt] using hmoved.target_of_mem i hi
  · intro stage i hstage
    cases stage with
    | pending => exact hmoved.source_of_notMem i (by simpa using hstage)
    | created => exact hmoved.target_of_notMem i (by simpa using hstage)
    | _ => exact hother _ i (by simp) (by simp)
  · intro hview
    rw [boundIndices_append, servedIndices_append, Event.servedIndices, List.append_nil]
    refine ⟨joined h.bound_iff h.bound_nodup hmoved.nodup hview rfl rfl, fun i => ?_, h.served_nodup⟩
    have hkind : WithdrawalStage.created.isServed = WithdrawalStage.pending.isServed := rfl
    exact (h.served_iff i).trans (advance_kind_congr hkind hview).symm

/-- The transaction of a batch of created requests is submitted. -/
theorem send (h : Withdrawals log state view) {signature : Signature} {message : Message}
    {signers : List Signer}
    (hmoved : OrdMap.Moved (State.sentAs signature) burnIndices state.createdWithdrawalRequests
      state'.createdWithdrawalRequests state.sentWithdrawalRequests state'.sentWithdrawalRequests)
    (hother : ∀ stage i, stage ≠ .created → stage ≠ .sent →
      state'.withdrawalAt stage i = state.withdrawalAt stage i) :
    ∃ view', Withdrawals (log ++ [⟨timestamp,
      .submittedTransaction signature message signers (.withdrawal burnIndices)⟩]) state' view' ∧
      view.AdvancesTo view' := by
  refine h.move .send {i | i ∈ burnIndices} (fun i hi => hmoved.present i hi)
    (fun i hi => hmoved.source_of_mem i hi) ?_ ?_ rfl ?_
  · intro i hi
    have hsent := congrArg (Option.map SentWithdrawalRequest.accepted) (hmoved.target_of_mem i hi)
    rw [Option.map_map] at hsent
    exact hsent.trans Option.map_id'
  · intro stage i hstage
    cases stage with
    | created => exact hmoved.source_of_notMem i (by simpa using hstage)
    | sent =>
        rw [State.withdrawalAt, hmoved.target_of_notMem i (by simpa using hstage)]
        rfl
    | _ => exact hother _ i (by simp) (by simp)
  · intro hview
    rw [boundIndices_append, servedIndices_append, Event.boundIndices, List.append_nil]
    refine ⟨⟨fun i => ?_, h.bound_nodup⟩,
      joined h.served_iff h.served_nodup hmoved.nodup hview rfl rfl⟩
    have hkind : WithdrawalStage.sent.isBound = WithdrawalStage.created.isBound := rfl
    exact (h.bound_iff i).trans (advance_kind_congr hkind hview).symm

/-- The transaction with a signature is final, and the requests that it serves are finished. -/
theorem finish (h : Withdrawals log state view) {signature : Signature} {target : WithdrawalStage}
    (hnext : WithdrawalStage.Next .sent target)
    {finished : OrdMap LedgerBurnIndex SentWithdrawalRequest}
    (hfinished : ∀ i, state.withdrawalAt target i = finished[i]?.map SentWithdrawalRequest.accepted)
    (hsent : state'.sentWithdrawalRequests =
      (State.finishSent state.sentWithdrawalRequests finished signature).1)
    (htarget : ∀ i, state'.withdrawalAt target i =
      (State.finishSent state.sentWithdrawalRequests finished signature).2[i]?.map
        SentWithdrawalRequest.accepted)
    (hother : ∀ stage i, stage ≠ .sent → stage ≠ target →
      state'.withdrawalAt stage i = state.withdrawalAt stage i)
    (haccepted : Event.acceptedIndex ⟨timestamp, payload⟩ = none)
    (hbound : Event.boundIndices ⟨timestamp, payload⟩ = [])
    (hserved : Event.servedIndices ⟨timestamp, payload⟩ = []) :
    ∃ view', Withdrawals (log ++ [⟨timestamp, payload⟩]) state' view' ∧ view.AdvancesTo view' := by
  -- the requests that move are those that the transaction serves
  refine h.move hnext
    {i | ∃ request, state.sentWithdrawalRequests[i]? = some request ∧ request.signature = signature}
    ?_ ?_ ?_ ?_ haccepted ?_
  · rintro i ⟨request, hrequest, -⟩
    exact ⟨request.accepted, by rw [State.withdrawalAt, hrequest]; rfl⟩
  · rintro i ⟨request, hrequest, hsignature⟩
    rw [State.withdrawalAt, hsent, State.getElem?_finishSent_fst, hrequest]
    simp [Option.filter_some, hsignature]
  · rintro i ⟨request, hrequest, hsignature⟩
    rw [htarget, State.getElem?_finishSent_snd, State.withdrawalAt, hrequest]
    simp [Option.filter_some, hsignature]
  · rintro stage i hstage
    by_cases htarget' : stage = target
    · subst htarget'
      have hi : state.sentWithdrawalRequests[i]?.filter (·.signature = signature) = none := by
        simpa using hstage
      rw [htarget, State.getElem?_finishSent_snd, hi, hfinished, Option.none_or]
    · by_cases hsent' : stage = .sent
      · subst hsent'
        have hi : ∀ request, state.sentWithdrawalRequests[i]? = some request →
            request.signature ≠ signature := by simpa using hstage
        rw [State.withdrawalAt, hsent, State.getElem?_finishSent_fst, State.withdrawalAt]
        cases hrequest : state.sentWithdrawalRequests[i]? with
        | none => rfl
        | some request => simp [Option.filter_some, hi request hrequest]
      · exact hother stage i hsent' htarget'
  · intro hview
    have hkind : target.isBound = true ∧ target.isServed = true := by
      cases hnext <;> exact ⟨rfl, rfl⟩
    rw [boundIndices_append, servedIndices_append, hbound, hserved, List.append_nil, List.append_nil]
    refine ⟨⟨fun i => ?_, h.bound_nodup⟩, fun i => ?_, h.served_nodup⟩
    · exact (h.bound_iff i).trans (advance_kind_congr hkind.1 hview).symm
    · exact (h.served_iff i).trans (advance_kind_congr hkind.2 hview).symm

end Effect

/-- Every event keeps the requests in their maps, provided that it accepts no index again. -/
theorem effect [SolanaSdk] (h : Withdrawals log state view)
    (heffect : state.Effect timestamp payload state')
    (hfresh : (acceptedIndices (log ++ [⟨timestamp, payload⟩])).Nodup) :
    ∃ view', Withdrawals (log ++ [⟨timestamp, payload⟩]) state' view' ∧ view.AdvancesTo view' := by
  cases heffect with
  | acceptedWithdrawal hnew =>
      rw [acceptedIndices_append] at hfresh
      exact h.accept fun hmem => List.disjoint_of_nodup_append hfresh hmem (List.mem_singleton_self _)
  | createdWithdrawal haccount hunseen hmoved htotal hbalance hnew =>
      refine h.create hmoved ?_
      intro stage i hpending hcreated
      cases stage with
      | pending => exact absurd rfl hpending
      | created => exact absurd rfl hcreated
      | _ => rfl
  | sentWithdrawal hsucceeded hfailed hsubmitted hadvanced hcreated hbound hmoved =>
      refine h.send hmoved ?_
      intro stage i hcreated hsent
      cases stage <;> first | contradiction | rfl
  | succeededWithdrawal hfailed hsucceeded hremove haccount =>
      refine h.finish .succeed (fun _ => rfl) rfl (fun _ => rfl) ?_ rfl rfl rfl
      intro stage i hsent hsuccessful
      cases stage <;> first | contradiction | rfl
  | succeededSweep hfailed hsucceeded hremove hfinalize =>
      refine h.finish .succeed (fun _ => rfl) rfl (fun _ => rfl) ?_ rfl rfl rfl
      intro stage i hsent hsuccessful
      cases stage <;> first | contradiction | rfl
  | failedWithdrawal hsucceeded hfailed hremove haccount =>
      refine h.finish .fail (fun _ => rfl) rfl (fun _ => rfl) ?_ rfl rfl rfl
      intro stage i hsent hfailed
      cases stage <;> first | contradiction | rfl
  | failedSweep hsucceeded hfailed hremove hdrop =>
      refine h.finish .fail (fun _ => rfl) rfl (fun _ => rfl) ?_ rfl rfl rfl
      intro stage i hsent hfailed
      cases stage <;> first | contradiction | rfl
  | _ =>
      refine ⟨view, h.frame ?_ rfl rfl rfl, .refl view⟩
      intro stage i
      cases stage <;> rfl

theorem withdrawalAt_withTransient (transient : State.Transient) (stage : WithdrawalStage)
    (i : LedgerBurnIndex) :
    (state.withTransient transient).withdrawalAt stage i = state.withdrawalAt stage i := by
  cases stage <;> rfl

theorem of_init [SolanaSdk] {canister : Canister} {args : InitArgs} {now : Timestamp}
    (h : Canister.init args now = .ok canister) :
    Withdrawals canister.log canister.state fun _ => none := by
  obtain ⟨_, pool, -, -, rfl⟩ := Canister.exists_of_init h
  refine ⟨?_, ?_, ?_, List.nodup_nil, ?_, List.nodup_nil⟩
  · intro stage i request
    cases stage <;> simp [State.withdrawalAt]
  · intro i request
    simp [Accepts]
  · intro i
    simp [boundIndices, Event.boundIndices]
  · intro i
    simp [servedIndices, Event.servedIndices]

/-- A run keeps every request in one map and only moves it forward, provided that no index is
accepted twice. -/
theorem run [SolanaSdk] {Emits : State → Timestamp → EventType → Prop}
    {canister canister' : Canister} (h : Withdrawals canister.log canister.state view)
    (hrun : Canister.Run Emits canister canister') (hfresh : (acceptedIndices canister'.log).Nodup) :
    ∃ view', Withdrawals canister'.log canister'.state view' ∧ view.AdvancesTo view' := by
  refine hrun.invariant (fun canister' => (acceptedIndices canister'.log).Nodup →
    ∃ view', Withdrawals canister'.log canister'.state view' ∧ view.AdvancesTo view') ?_ ?_
    (fun _ => ⟨view, h, .refl view⟩) hfresh
  · intro canister' transient ih hfresh
    obtain ⟨view', hview', hadvances⟩ := ih hfresh
    refine ⟨view', { hview' with follows := ?_ }, hadvances⟩
    intro stage i request
    rw [withdrawalAt_withTransient, hview'.follows]
  · intro state log now payload state' _ ih heffect hfresh
    -- no index is accepted twice in the shorter log either
    have hbefore := hfresh
    rw [acceptedIndices_append] at hbefore
    obtain ⟨view', hview', hadvances⟩ := ih (List.Nodup.of_append_left hbefore)
    obtain ⟨view'', hview'', hadvances'⟩ := hview'.effect heffect hfresh
    exact ⟨view'', hview'', hadvances.trans hadvances'⟩

end Withdrawals

end Cksol
