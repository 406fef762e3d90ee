import Cksol.Minter.Signing
import Cksol.State.WithdrawalStages

/-! # Destinations of withdrawals

`withdraw` refuses the minter's own addresses and the reserved ones before it burns, and an upgrade
refuses a nonce account that an incomplete withdrawal targets. The invariant covers the calls whose burn
is awaited, so that it holds of a request from the moment it is accepted.
-/

namespace Cksol

open Std Canister

section Destinations

variable [SolanaSdk]

namespace State

variable {state state' : State} {timestamp : Timestamp} {payload : EventType} {address : Address}

/-- The address is neither the minter's nor reserved. -/
structure Payable (state : State) (address : Address) : Prop where
  notReserved : address ∉ SolanaSdk.reservedAccountKeys
  notNonceAccount : address ∉ state.noncePool.accounts
  notMinterAddress : ∃ key, state.minterPublicKey = some key ∧ address ≠ minterAddress key

/-- No incomplete withdrawal targets the minter or a reserved account. -/
def DestinationsPayable (state : State) : Prop :=
  ∀ address ∈ state.incompleteDestinations, state.Payable address

theorem Payable.withTransient (h : state.Payable address) (transient : Transient) :
    (state.withTransient transient).Payable address :=
  ⟨h.notReserved, h.notNonceAccount, h.notMinterAddress⟩

theorem DestinationsPayable.withTransient (h : state.DestinationsPayable) (transient : Transient) :
    (state.withTransient transient).DestinationsPayable :=
  fun address hmem => (h address hmem).withTransient transient

theorem payable_of_validateDestination (h : validateDestination state address = .ok ⟨⟩) :
    state.Payable address := by
  simp only [validateDestination, bind_eq_ok, orPanic_eq_ok, check_eq_ok] at h
  obtain ⟨⟨⟩, hreserved, ⟨⟩, hpool, key, hkey, hminter⟩ := h
  refine ⟨hreserved, fun hmem => hpool ?_, key, hkey, hminter⟩
  exact ExtTreeMap.mem_iff_contains.mp hmem

/-- The stages whose destinations an upgrade respects. -/
def IsIncomplete (stage : WithdrawalStage) : Prop :=
  stage = .pending ∨ stage = .created ∨ stage = .sent

omit [SolanaSdk] in
theorem mem_incompleteDestinations : address ∈ state.incompleteDestinations ↔
    ∃ stage i accepted, IsIncomplete stage ∧ state.withdrawalAt stage i = some accepted ∧
      accepted.request.solanaAddress = address := by
  simp only [incompleteDestinations, List.mem_append, List.mem_map, OrdMap.mem_values_iff]
  constructor
  · rintro (⟨accepted, ⟨i, hi⟩ | ⟨i, hi⟩, rfl⟩ | ⟨sent, ⟨i, hi⟩, rfl⟩)
    · exact ⟨.pending, i, accepted, .inl rfl, hi, rfl⟩
    · exact ⟨.created, i, accepted, .inr (.inl rfl), hi, rfl⟩
    · exact ⟨.sent, i, sent.accepted, .inr (.inr rfl), by rw [withdrawalAt, hi]; rfl, rfl⟩
  · rintro ⟨stage, i, accepted, rfl | rfl | rfl, hi, rfl⟩
    · exact .inl ⟨accepted, .inl ⟨i, hi⟩, rfl⟩
    · exact .inl ⟨accepted, .inr ⟨i, hi⟩, rfl⟩
    · obtain ⟨sent, hsent, rfl⟩ := Option.map_eq_some_iff.mp hi
      exact .inr ⟨sent, ⟨i, hsent⟩, rfl⟩

/-- An incomplete request was incomplete before the event, unless the event accepts it. -/
theorem Effect.incomplete (heffect : state.Effect timestamp payload state') {stage : WithdrawalStage}
    {i : LedgerBurnIndex} {accepted : PendingWithdrawalRequest} (hstage : IsIncomplete stage)
    (h : state'.withdrawalAt stage i = some accepted) :
    (∃ stage, IsIncomplete stage ∧ state.withdrawalAt stage i = some accepted) ∨
      payload = .acceptedWithdrawalRequest accepted.request := by
  cases heffect with
  | acceptedWithdrawal hnew =>
      rcases hstage with rfl | rfl | rfl
      · rw [withdrawalAt, OrdMap.getElem?_insert_eq] at h
        split at h
        · obtain rfl := Option.some.inj h
          exact .inr rfl
        · exact .inl ⟨.pending, .inl rfl, h⟩
      · exact .inl ⟨.created, .inr (.inl rfl), h⟩
      · exact .inl ⟨.sent, .inr (.inr rfl), h⟩
  | @createdWithdrawal burnIndices nonceAccount nonceValue seen pending created total balance
      haccount hunseen hmoved htotal hbalance hnew =>
      refine .inl ?_
      by_cases hi : i ∈ burnIndices
      · rcases hstage with rfl | rfl | rfl
        · cases (hmoved.source_of_mem i hi).symm.trans h
        · refine ⟨.pending, .inl rfl, ?_⟩
          rw [withdrawalAt, hmoved.target_of_mem i hi, Option.map_id_fun, id_eq] at h
          exact h
        · exact ⟨.sent, .inr (.inr rfl), h⟩
      · refine ⟨stage, hstage, ?_⟩
        rcases hstage with rfl | rfl | rfl
        · exact (hmoved.source_of_notMem i hi).symm.trans h
        · exact (hmoved.target_of_notMem i hi).symm.trans h
        · exact h
  | @sentWithdrawal signature message burnIndices nonceAccount nonceValue created sent hsucceeded
      hfailed hsubmitted hadvanced hcreated hbound hmoved =>
      refine .inl ?_
      by_cases hi : i ∈ burnIndices
      · rcases hstage with rfl | rfl | rfl
        · exact ⟨.pending, .inl rfl, h⟩
        · cases (hmoved.source_of_mem i hi).symm.trans h
        · refine ⟨.created, .inr (.inl rfl), ?_⟩
          -- sending a request and forgetting the signature leaves it as it was
          rw [withdrawalAt, hmoved.target_of_mem i hi, Option.map_map] at h
          exact (Option.map_id' (x := state.createdWithdrawalRequests[i]?)).symm.trans h
      · refine ⟨stage, hstage, ?_⟩
        rcases hstage with rfl | rfl | rfl
        · exact h
        · exact (hmoved.source_of_notMem i hi).symm.trans h
        · rw [withdrawalAt, hmoved.target_of_notMem i hi] at h
          exact h
  | succeededWithdrawal | succeededSweep | failedWithdrawal | failedSweep =>
      refine .inl ⟨stage, hstage, ?_⟩
      rcases hstage with rfl | rfl | rfl
      · exact h
      · exact h
      · obtain ⟨sent, hsent, rfl⟩ := Option.map_eq_some_iff.mp h
        rw [getElem?_finishSent_fst, Option.filter_eq_some_iff] at hsent
        rw [withdrawalAt, hsent.1]
        rfl
  | _ => exact .inl ⟨stage, hstage, h⟩

/-- Only an upgrade adds an account to the pool, and the recorded key stays. -/
theorem Payable.effect (h : state.Payable address) (heffect : state.Effect timestamp payload state')
    (hupgrade : ∀ args, payload = .upgrade args → address ∈ state.incompleteDestinations) :
    state'.Payable address := by
  obtain ⟨key, hkey, hminter⟩ := h.notMinterAddress
  refine ⟨h.notReserved, ?_, key, minterPublicKey_of_effect heffect hkey, hminter⟩
  have hold := OrdMap.not_mem_iff.mp h.notNonceAccount
  rw [OrdMap.not_mem_iff]
  cases heffect with
  | upgrade hpool hvalid =>
      rcases hpool with ⟨-, rfl⟩ | ⟨texts, addresses, -, -, hfilter, hadd⟩
      · exact hold
      · -- an account that joins the pool is the destination of no incomplete withdrawal
        obtain ⟨-, -, hget⟩ := DurableNoncePool.addAccounts_eq_ok hadd
        have hnew : address ∉ addresses := fun hmem => hfilter address hmem (hupgrade _ rfl)
        exact (hget address).trans ((if_neg hnew).trans hold)
  | createdWithdrawal haccount | succeededWithdrawal _ _ _ haccount
  | failedWithdrawal _ _ _ haccount =>
      show (state.noncePool.accounts.insert _ _)[address]? = none
      rw [OrdMap.getElem?_insert_eq, if_neg, hold]
      rintro rfl
      exact nomatch hold.symm.trans haccount
  | _ => exact hold

theorem DestinationsPayable.effect (h : state.DestinationsPayable)
    (heffect : state.Effect timestamp payload state')
    (haccepted : ∀ request, payload = .acceptedWithdrawalRequest request →
      state.Payable request.solanaAddress) : state'.DestinationsPayable := by
  intro address hmem
  obtain ⟨stage, i, accepted, hstage, hi, rfl⟩ := mem_incompleteDestinations.mp hmem
  rcases heffect.incomplete hstage hi with ⟨stage, hstage, hi⟩ | rfl
  · have hold := mem_incompleteDestinations.mpr ⟨stage, i, accepted, hstage, hi, rfl⟩
    exact (h _ hold).effect heffect fun _ _ => hold
  · exact (haccepted _ rfl).effect heffect fun _ heq => nomatch heq

end State

theorem Canister.Run.payable {Emits : State → Timestamp → EventType → Prop}
    {canister canister' : Canister} (hrun : Run Emits canister canister')
    (hupgrade : ∀ state t args, ¬ Emits state t (.upgrade args)) {address : Address}
    (h : canister.state.Payable address) : canister'.state.Payable address := by
  refine hrun.invariant (fun reached => reached.state.Payable address) ?_ ?_ h
  · exact fun reached transient h => h.withTransient transient
  · intro state log now payload state' hemits h heffect
    refine h.effect heffect ?_
    rintro args rfl
    exact absurd hemits (hupgrade _ _ _)

theorem Canister.Run.destinationsPayable {Emits : State → Timestamp → EventType → Prop}
    {canister canister' : Canister} (hrun : Run Emits canister canister')
    (haccepted : ∀ state t request, ¬ Emits state t (.acceptedWithdrawalRequest request))
    (h : canister.state.DestinationsPayable) : canister'.state.DestinationsPayable := by
  refine hrun.invariant (fun reached => reached.state.DestinationsPayable) ?_ ?_ h
  · exact fun reached transient h => h.withTransient transient
  · intro state log now payload state' hemits h heffect
    refine h.effect heffect ?_
    rintro request rfl
    exact absurd hemits (haccepted _ _ _)

namespace Config

variable {config config' : Config} {now : Timestamp} {action : Action}

/-- The destinations of the requests and of the calls that await their burn. -/
structure PaysOut (config : Config) : Prop where
  requests : config.canister.state.DestinationsPayable
  calls : ∀ call ∈ config.withdrawCalls, config.canister.state.Payable call.solanaAddress

/-- Destinations are checked when a call starts; an upgrade, which may add nonce accounts, ends the
calls and checks the requests anew. -/
theorem PaysOut.steps (h : config.PaysOut) (hwellformed : config.Wellformed)
    (hsteps : config.Steps now action config') : config'.PaysOut := by
  have hrun := hsteps.run hwellformed.replayable
  have hkeep (hupgrade : ∀ args, action ≠ .upgrade args) (call : WithdrawCall)
      (hcall : config.canister.state.Payable call.solanaAddress) :
      config'.canister.state.Payable call.solanaAddress :=
    hrun.payable (fun _ _ args hrecords => hupgrade _ hrecords.recordedBy) hcall
  -- only the reply to a burn adds a request
  have hrequests (haccepted : ∀ position reply, action ≠ .burned position reply) :
      config'.canister.state.DestinationsPayable := by
    refine hrun.destinationsPayable (fun _ _ request hrecords => ?_) h.requests
    obtain ⟨position, heq⟩ := hrecords.recordedBy
    exact haccepted _ _ heq
  cases hsteps with
  | withdrawStarted hwithdraw =>
      refine ⟨hrequests (by simp), fun call hcall => ?_⟩
      refine hkeep (by simp) call ?_
      rcases List.mem_append.mp hcall with hold | hnew
      · exact h.calls call hold
      · obtain ⟨-, -, -, hvalid, -⟩ := withdraw_eq_ok hwithdraw
        rw [List.mem_singleton.mp hnew]
        exact State.payable_of_validateDestination hvalid
  | burned hcall hindex hamount hevent =>
      have hpayable := h.calls _ (List.mem_of_getElem? hcall)
      refine ⟨?_, fun call hmem => ?_⟩
      · obtain ⟨state, happly, rfl⟩ := processEvent_eq_ok.mp hevent
        refine (h.requests.effect (State.effect_of_apply happly) ?_).withTransient _
        rintro request hrequest
        obtain rfl := EventType.acceptedWithdrawalRequest.inj hrequest
        exact hpayable
      · exact hkeep (by simp) call (h.calls call (List.mem_of_mem_eraseIdx hmem))
  | withdrawEnded =>
      exact ⟨h.requests.withTransient _,
        fun call hmem => (h.calls call (List.mem_of_mem_eraseIdx hmem)).withTransient _⟩
  | depositSolEnded =>
      exact ⟨h.requests.withTransient _, fun call hmem => (h.calls call hmem).withTransient _⟩
  | unchanged => exact h
  | upgraded => exact ⟨hrequests (by simp), fun call hcall => nomatch hcall⟩
  | _ => exact ⟨hrequests (by simp), fun call hcall => hkeep (by simp) call (h.calls call hcall)⟩

theorem paysOut_of_run {minterId : Principal} {args : InitArgs} {actions : List (Timestamp × Action)}
    (h : runFrom minterId args now actions = some config) : config.PaysOut := by
  refine (runFrom_invariant (fun _ config => config.PaysOut) ?_ ?_ h).2
  · intro config hinit
    obtain ⟨_, pool, -, -, rfl⟩ := exists_of_init hinit
    exact ⟨fun address hmem => (nomatch hmem), fun call hcall => (nomatch hcall)⟩
  · exact fun done config t action config' hwellformed h hsteps => h.steps hwellformed hsteps

/-- In every reachable state, no incomplete withdrawal targets an account of the minter or a reserved
one. -/
theorem destinationsPayable_of_run {minterId : Principal} {args : InitArgs}
    {actions : List (Timestamp × Action)} (h : runFrom minterId args now actions = some config) :
    config.canister.state.DestinationsPayable :=
  (paysOut_of_run h).requests

end Config

end Destinations

section Sample

attribute [local instance] Solana.sdk

/-- A withdrawal is sent, and an upgrade adds a nonce account. -/
theorem Config.destinationsPayable_sampleUpgrade :
    ∃ config, runFrom sampleMinterId sampleInitArgs 0 (sampleDeposit ++ sampleWithdrawal ++
        [(30, .upgrade (some { nonceAccountsToAdd := some ["11111111111111111111111111111117"] }))]) =
          some config ∧
      config.canister.state.incompleteDestinations ≠ [] ∧
      config.canister.state.DestinationsPayable := by
  obtain ⟨config, hconfig, htest⟩ : ∃ config,
      runFrom sampleMinterId sampleInitArgs 0 (sampleDeposit ++ sampleWithdrawal ++
        [(30, .upgrade (some { nonceAccountsToAdd := some ["11111111111111111111111111111117"] }))]) =
          some config ∧
      config.canister.state.incompleteDestinations ≠ [] :=
    exists_of_any (by decide +kernel)
  exact ⟨config, hconfig, htest, destinationsPayable_of_run hconfig⟩

end Sample

end Cksol
