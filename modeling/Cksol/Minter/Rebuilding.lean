import Cksol.Minter.Emissions
import Cksol.Minter.Payouts
import Cksol.Minter.Signing
import Cksol.State.Statuses

/-! # Created withdrawals can be rebuilt and submitted

The message of a withdrawal is built three times: when its transaction is created, from the pending
requests; when it is signed, from the created requests; and when its submission is recorded, by the
state itself. A binding keeps what all three read, so they agree whatever happens in between, and the
submission of the message passes every check.
-/

namespace Cksol

open Std

section Rebuilding

variable [SolanaSdk]

namespace State

variable {state state' : State} {timestamp : Timestamp} {payload : EventType}
  {burnIndices : List LedgerBurnIndex} {account : Address} {value : Hash} {message : Message}
  {created : CreatedWithdrawalTransaction} {requests : List WithdrawalRequest}

/-- The requests that the pending bucket holds under the burn indices. -/
def pendingRequests (state : State) (burnIndices : List LedgerBurnIndex) :
    List (Option WithdrawalRequest) :=
  burnIndices.map fun i => state.pendingWithdrawalRequests[i]?.map PendingWithdrawalRequest.request

/-- The message was built from the pending requests of the batch, under the recorded key. -/
def BuildsPending (state : State) (burnIndices : List LedgerBurnIndex) (account : Address)
    (value : Hash) (message : Message) : Prop :=
  ∃ requests : List WithdrawalRequest, state.pendingRequests burnIndices = requests.map some ∧
    state.Builds ⟨account, value, burnIndices, requests⟩ message

/-- No transaction has the signature. -/
structure Fresh (state : State) (signature : Signature) : Prop where
  not_succeeded : signature ∉ state.succeededTransactions
  not_failed : state.failedTransactions.get signature = none
  not_submitted : state.submittedTransactions.get signature = none

/-! ## The two ways to rebuild a message -/

/-- The state rebuilds the message of a binding whose requests it holds. -/
theorem boundWithdrawalMessage_of_builds
    (hrequests : state.createdRequests created.burnIndices = requests.map some)
    (hbuilds : state.Builds ⟨account, created.nonceValue, created.burnIndices, requests⟩ message) :
    state.boundWithdrawalMessage account created = .ok message := by
  obtain ⟨key, hkey, hbuild⟩ := hbuilds
  simp only [boundWithdrawalMessage, bind_eq_ok, orPanic_eq_ok]
  refine ⟨key, hkey, requests, mapM_createdWithdrawalRequest.mpr hrequests, ?_⟩
  rw [show buildBatchWithdrawalMessage _ _ _ _ = _ from hbuild]
  rfl

/-- The round of withdrawals rebuilds the same one. -/
theorem boundWithdrawal_of_builds {key : SchnorrPublicKey}
    (hrequests : state.createdRequests created.burnIndices = requests.map some)
    (hbuilds : (⟨account, created.nonceValue, created.burnIndices, requests⟩ : Binding).Builds key
      message) :
    boundWithdrawal state (minterAddress key) account created =
      .ok (some ⟨account, created.burnIndices, message⟩) := by
  simp only [boundWithdrawal, bind_eq_ok]
  refine ⟨requests, mapM_createdWithdrawalRequest.mpr hrequests, ?_⟩
  rw [show buildBatchWithdrawalMessage _ _ _ _ = _ from hbuilds]
  rfl

/-! ## Submission -/

omit [SolanaSdk] in
/-- The requests of a batch can be sent when they are created and not sent. -/
theorem exists_sendRequests (signature : Signature)
    {requests : OrdMap LedgerBurnIndex PendingWithdrawalRequest}
    {sent : OrdMap LedgerBurnIndex SentWithdrawalRequest} (hnodup : burnIndices.Nodup)
    (hcreated : ∀ i ∈ burnIndices, ∃ request, requests[i]? = some request)
    (hsent : ∀ i ∈ burnIndices, sent[i]? = none) :
    ∃ sending, burnIndices.foldlM (sendRequest signature) ⟨requests, sent⟩ = .ok sending := by
  refine exists_foldlM_eq_ok (fun rest (sending : Sending) => rest.Nodup ∧
    (∀ i ∈ rest, ∃ request, sending.created[i]? = some request) ∧
    ∀ i ∈ rest, sending.sent[i]? = none) ⟨hnodup, hcreated, hsent⟩ ?_
  rintro i rest sending ⟨hnodup, hcreated, hsent⟩
  obtain ⟨hi, hrest⟩ := List.nodup_cons.mp hnodup
  obtain ⟨pending, hpending⟩ := hcreated i List.mem_cons_self
  have hne (j : LedgerBurnIndex) (hj : j ∈ rest) : i ≠ j := fun heq => hi (heq ▸ hj)
  refine ⟨⟨sending.created.erase i, sending.sent.insert i (sentAs signature pending)⟩, ?_, hrest,
    ?_, ?_⟩
  · simp only [sendRequest, bind_eq_ok, orPanic_eq_ok, check_eq_ok, pure_eq_ok]
    exact ⟨pending, hpending, ⟨⟩, hsent i List.mem_cons_self, rfl⟩
  · intro j hj
    rw [OrdMap.getElem?_erase_eq, if_neg (hne j hj)]
    exact hcreated j (List.mem_cons_of_mem _ hj)
  · intro j hj
    rw [OrdMap.getElem?_insert_eq, if_neg (hne j hj)]
    exact hsent j (List.mem_cons_of_mem _ hj)

/-- The message that the state rebuilds passes every check of its submission. -/
theorem exists_processTransactionSubmitted {view : WithdrawalView} {signature : Signature}
    (hfollows : state.Follows view)
    (htable : RequestTable state.createdWithdrawalTxs state.createdWithdrawalRequests)
    (hfresh : state.Fresh signature) (hadvanced : message.advancedNonceAccount = some account)
    (hcreated : state.createdWithdrawalTxs[account]? = some created)
    (hbound : state.boundWithdrawalMessage account created = .ok message) (timestamp : Timestamp) :
    ∃ state', state.processTransactionSubmitted signature message [.minter]
      (.withdrawal created.burnIndices) timestamp = .ok state' := by
  have hsent : ∀ i ∈ created.burnIndices, state.sentWithdrawalRequests[i]? = none := by
    intro i hi
    obtain ⟨request, hrequest⟩ := htable.present hcreated i hi
    have hstage : state.withdrawalAt .created i = some request := hrequest
    have hnone : state.withdrawalAt .sent i = none := hfollows.withdrawalAt_eq_none hstage (by simp)
    exact Option.map_eq_none_iff.mp hnone
  obtain ⟨sending, hsending⟩ := exists_sendRequests signature (htable.nodup hcreated)
    (htable.present hcreated) hsent
  have hbound' : boundWithdrawalMessage
      { state with createdWithdrawalTxs := state.createdWithdrawalTxs.erase account } account created =
        .ok message := hbound
  simp only [processTransactionSubmitted, submitTransaction, sendNonceWithdrawal, bind_eq_ok,
    check_eq_ok, orPanic_eq_ok, pure_eq_ok, InsertionOrderedMap.not_containsKey_iff]
  exact ⟨_, ⟨⟩, hfresh.not_succeeded, ⟨⟩, hfresh.not_failed, (_, _),
    ⟨account, hadvanced, created, hcreated, ⟨⟩, rfl, message, hbound', ⟨⟩, rfl, ⟨⟩, trivial, sending,
      hsending, rfl⟩, ⟨⟩, hfresh.not_submitted, rfl⟩

/-! ## Creation -/

/-- A created transaction takes the requests of its batch over as they were pending. -/
theorem Effect.createdRequests
    (h : state.Effect timestamp (.createdWithdrawalTransaction burnIndices account value) state')
    (hpending : state.pendingRequests burnIndices = requests.map some) :
    state'.createdWithdrawalTxs[account]? = some ⟨value, burnIndices⟩ ∧
      state'.createdRequests burnIndices = requests.map some := by
  cases h with
  | createdWithdrawal haccount hunseen hmoved htotal hbalance hnew =>
      refine ⟨by rw [OrdMap.getElem?_insert_eq, if_pos rfl], ?_⟩
      rw [← hpending]
      refine List.map_congr_left fun i hi => ?_
      dsimp only
      rw [hmoved.target_of_mem i hi, Option.map_id]
      rfl

end State

/-- The history holds the created transaction as it was bound. -/
theorem Bindings.createdRequests_of_mem {log : List Event} {state : State} {bindings : List Binding}
    (h : Bindings log state bindings) {binding : Binding} (hmem : binding ∈ bindings)
    {created : CreatedWithdrawalTransaction}
    (hcreated : state.createdWithdrawalTxs[binding.nonceAccount]? = some created)
    (hvalue : created.nonceValue = binding.nonceValue) :
    created.burnIndices = binding.burnIndices ∧
      state.createdRequests created.burnIndices = binding.requests.map some := by
  obtain ⟨binding', hmem', haccount, hvalue', hindices, hrequests⟩ := h.created hcreated
  obtain rfl := h.injective binding' hmem' binding hmem haccount (hvalue'.trans hvalue)
  exact ⟨hindices.symm, hindices ▸ hrequests⟩

/-- A created transaction is rebuilt to one message everywhere, and its submission is accepted. -/
structure Canister.Rebuilds (canister : Canister) (account : Address)
    (created : CreatedWithdrawalTransaction) (message : Message) : Prop where
  /-- What a submission is compared with. -/
  recorded : canister.state.boundWithdrawalMessage account created = .ok message
  /-- What is passed to the signer. -/
  signed : ∃ key, canister.state.minterPublicKey = some key ∧
    boundWithdrawal canister.state (minterAddress key) account created =
      .ok (some ⟨account, created.burnIndices, message⟩)
  submitted : ∀ signature, canister.state.Fresh signature → ∀ now, ∃ canister',
    canister.processEvent (.submittedTransaction signature message [.minter]
      (.withdrawal created.burnIndices)) now = .ok canister'

namespace Canister

variable {initial canister canister' later : Canister} {args : InitArgs} {start now : Timestamp}
  {Emits : State → Timestamp → EventType → Prop}

/-- A binding of the history whose message builds is rebuilt while its transaction is created. -/
theorem rebuilds_of_binding [SolanaSdk.Lawful] (htables : canister.Tables)
    {view : WithdrawalView} (hview : Withdrawals canister.log canister.state view)
    {bindings : List Binding} (hbindings : Bindings canister.log canister.state bindings)
    {binding : Binding} (hmem : binding ∈ bindings) {message : Message}
    (hbuilds : canister.state.Builds binding message) {created : CreatedWithdrawalTransaction}
    (hcreated : canister.state.createdWithdrawalTxs[binding.nonceAccount]? = some created)
    (hvalue : created.nonceValue = binding.nonceValue) :
    canister.Rebuilds binding.nonceAccount created message := by
  obtain ⟨hindices, hrequests⟩ := hbindings.createdRequests_of_mem hmem hcreated hvalue
  have hadvanced := hbuilds.carries.1
  rw [show binding = ⟨binding.nonceAccount, created.nonceValue, created.burnIndices,
    binding.requests⟩ by rw [hindices, hvalue]] at hbuilds
  have hbound := State.boundWithdrawalMessage_of_builds hrequests hbuilds
  obtain ⟨key, hkey, hbuild⟩ := hbuilds
  refine ⟨hbound, ⟨key, hkey, State.boundWithdrawal_of_builds hrequests hbuild⟩, ?_⟩
  intro signature hfresh now
  obtain ⟨state, hstate⟩ := State.exists_processTransactionSubmitted hview.follows
    htables.requests hfresh hadvanced hcreated hbound now
  exact ⟨_, processEvent_eq_ok.mpr ⟨state, hstate, rfl⟩⟩

/-- Any event in any state. -/
abbrev AnyRun : Canister → Canister → Prop := Run fun _ _ _ => True

/-- The nonce account is read back from every message that was built; and a transaction whose message
was built when it was created can be signed and submitted with that message whatever events come in
between, where the ledger gives each burn a block index of its own. -/
theorem rebuilds_of_run [SolanaSdk.Lawful] :
    (∀ minterAddress nonceAccount nonceValue transfers message,
      buildBatchWithdrawalMessage minterAddress nonceAccount nonceValue transfers = .ok message →
      message.advancedNonceAccount = some nonceAccount) ∧
    ∀ args start initial canister burnIndices account value message now canister' later created,
      Canister.init args start = .ok initial → AnyRun initial canister →
      canister.state.BuildsPending burnIndices account value message →
      canister.processEvent (.createdWithdrawalTransaction burnIndices account value) now =
        .ok canister' →
      AnyRun canister' later → (acceptedIndices later.log).Nodup →
      later.state.createdWithdrawalTxs[account]? = some created → created.nonceValue = value →
      later.Rebuilds account created message := by
  refine ⟨fun _ _ _ _ _ hbuild => advancedNonceAccount_of_build hbuild, ?_⟩
  intro args start initial canister burnIndices account value message now canister' later created
    hinit hrun hpending hevent hlater hindices hcreated hvalue
  have hfirst : AnyRun initial canister' := hrun.trans (Run.event hevent trivial)
  obtain ⟨requests, hrequests, hbuilds⟩ := hpending
  -- the transaction enters the history with the requests that its message was built from
  obtain ⟨bindings, -, hbindings⟩ := (Bindings.of_init hinit).run (.of_init hinit) hfirst
  obtain ⟨state, happly, rfl⟩ := processEvent_eq_ok.mp hevent
  have heffect := State.effect_of_apply happly
  obtain ⟨htx, hbound⟩ := heffect.createdRequests hrequests
  have hmem := hbindings.mem_of_created htx hbound
  -- and stays there
  have htables : Canister.Tables ⟨state, canister.log ++ [_]⟩ := (Tables.of_init hinit).run hfirst
  obtain ⟨bindings', hextends, hbindings'⟩ := hbindings.run htables hlater
  obtain ⟨view, hview, -⟩ := (Withdrawals.of_init hinit).run (hfirst.trans hlater) hindices
  have hbuilds' : later.state.Builds ⟨account, value, burnIndices, requests⟩ message := by
    obtain ⟨key, hkey, hbuild⟩ := hbuilds.effect heffect
    exact ⟨key, hlater.minterPublicKey hkey, hbuild⟩
  exact rebuilds_of_binding (htables.run hlater) hview hbindings' (hextends.subset hmem) hbuilds'
    hcreated hvalue

end Canister

end Rebuilding

section Sample

attribute [local instance] Solana.sdk

/-- A transaction is created in a round, and another deposit is queued before it is signed. -/
def sampleRebuilding : Option (Canister × Canister × Canister) := do
  let config ← Config.runFrom sampleMinterId sampleInitArgs 0 (sampleDeposit ++ sampleWithdrawal.take 3)
  let created ← (config.canister.processEvent (.createdWithdrawalTransaction [3] 4 77) 23).toOption
  let queued ← (created.processEvent (.queuedDeposit 1
    ⟨⟨.single 8, none⟩, 12, .sampleMedium, none⟩) 24).toOption
  return (config.canister, created, queued)

/-- The requests that the batch of the sample is built from. -/
def sampleBatch (canister : Canister) : List WithdrawalRequest :=
  (canister.state.pendingRequests [3]).filterMap id

theorem Canister.rebuilds_sampleRebuilding :
    ∃ canister created later message, sampleRebuilding = some (canister, created, later) ∧
      buildBatchWithdrawalMessage 7 4 77 (State.withdrawalTransfers (sampleBatch canister)) =
        .ok message ∧ message.advancedNonceAccount = some 4 ∧
      later.state.createdWithdrawalTxs[(4 : Address)]? = some ⟨77, [3]⟩ ∧
      later.Rebuilds 4 ⟨77, [3]⟩ message := by
  obtain ⟨⟨canister, created, later⟩, hsample, hkey, hpending, hbuild, hindices, hcreated⟩ :
      ∃ canisters, sampleRebuilding = some canisters ∧
        canisters.1.state.minterPublicKey = some ⟨7, 8⟩ ∧
        canisters.1.state.pendingRequests [3] = (sampleBatch canisters.1).map some ∧
        (buildBatchWithdrawalMessage 7 4 77
          (State.withdrawalTransfers (sampleBatch canisters.1))).toOption.isSome ∧
        (acceptedIndices canisters.2.2.log).Nodup ∧
        canisters.2.2.state.createdWithdrawalTxs[(4 : Address)]? = some ⟨77, [3]⟩ :=
    exists_of_any (by decide +kernel)
  obtain ⟨message, hmessage⟩ := Option.isSome_iff_exists.mp hbuild
  have hbuilt := toOption_eq_some.mp hmessage
  have hevents := hsample
  simp only [sampleRebuilding, Option.bind_eq_bind, Option.bind_eq_some_iff, toOption_eq_some,
    Option.pure_def, Option.some.injEq, Prod.mk.injEq] at hevents
  obtain ⟨config, hconfig, _, hevent, _, hqueued, rfl, rfl, rfl⟩ := hevents
  obtain ⟨-, initial, hinit, hrun⟩ := Config.emits_of_run hconfig
  have := Solana.lawful_sdk
  refine ⟨_, _, _, message, hsample, hbuilt, rebuilds_of_run.1 _ _ _ _ _ hbuilt, hcreated, ?_⟩
  exact rebuilds_of_run.2 _ _ initial config.canister [3] 4 77 message 23 _ _ ⟨77, [3]⟩ hinit
    (hrun.mono fun _ _ _ _ => trivial) ⟨sampleBatch config.canister, hpending, ⟨7, 8⟩, hkey, hbuilt⟩
    hevent (Run.event hqueued trivial) hindices hcreated rfl

end Sample

end Cksol
