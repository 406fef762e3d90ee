import Cksol.State.Debits
import Cksol.State.Tables

/-! # The history of bindings

A created withdrawal transaction binds a value of a nonce account to a batch of requests, and its
message is rebuilt from the binding every time it is needed. The state forgets a binding once its
transaction is submitted; here all bindings are followed along the events, with the requests that the
batch had when it was bound, so that any two messages built for a binding can be compared.
-/

namespace Cksol

open Std

/-- The requests that a value of a nonce account was bound to. -/
structure Binding where
  nonceAccount : Address
  nonceValue : Hash
  burnIndices : List LedgerBurnIndex
  requests : List WithdrawalRequest

namespace Binding

/-- The event that records the binding. -/
def event (binding : Binding) : EventType :=
  .createdWithdrawalTransaction binding.burnIndices binding.nonceAccount binding.nonceValue

/-- What the transaction of the binding takes from the balance. -/
def debit (binding : Binding) : Debit where
  nonceAccount := binding.nonceAccount
  nonceValue := binding.nonceValue
  amount := (binding.requests.map (·.amountToTransfer.toNat)).sum + batchWithdrawalTxFee.toNat

/-- The message that the binding determines under the key of the minter. -/
def Builds [SolanaSdk] (binding : Binding) (key : SchnorrPublicKey) (message : Message) : Prop :=
  buildBatchWithdrawalMessage (minterAddress key) binding.nonceAccount binding.nonceValue
    (State.withdrawalTransfers binding.requests) = .ok message

theorem Builds.unique [SolanaSdk] {binding : Binding} {key : SchnorrPublicKey}
    {message message' : Message} (h : binding.Builds key message)
    (h' : binding.Builds key message') : message = message' :=
  Except.ok.inj (h.symm.trans h')

end Binding

namespace State

variable {burnIndices : List LedgerBurnIndex} {binding : Binding} {message : Message}

/-- The requests that the created bucket holds under the burn indices. -/
def createdRequests (state : State) (burnIndices : List LedgerBurnIndex) :
    List (Option WithdrawalRequest) :=
  burnIndices.map fun i => state.createdWithdrawalRequests[i]?.map PendingWithdrawalRequest.request

theorem mapM_createdWithdrawalRequest {state : State} {requests : List WithdrawalRequest} :
    burnIndices.mapM state.createdWithdrawalRequest = .ok requests ↔
      state.createdRequests burnIndices = requests.map some := by
  induction burnIndices generalizing requests with
  | nil =>
      rw [List.mapM_nil, pure_eq_ok]
      cases requests <;> simp [createdRequests]
  | cons i rest ih =>
      have hcons : state.createdRequests (i :: rest) =
          state.createdWithdrawalRequests[i]?.map PendingWithdrawalRequest.request ::
            state.createdRequests rest := rfl
      simp only [List.mapM_cons, bind_eq_ok, createdWithdrawalRequest, orPanic_eq_ok, pure_eq_ok, ih,
        hcons]
      constructor
      · rintro ⟨request, ⟨pending, hpending, rfl⟩, tail, htail, rfl⟩
        rw [hpending, htail]
        rfl
      · intro h
        cases requests with
        | nil => cases h
        | cons request tail =>
            obtain ⟨hhead, htail⟩ := List.cons.inj h
            obtain ⟨pending, hpending, rfl⟩ := Option.map_eq_some_iff.mp hhead
            exact ⟨_, ⟨pending, hpending, rfl⟩, tail, htail, rfl⟩

/-- The requests under the indices of a list depend on these indices only. -/
theorem createdRequests_congr {state state' : State} (h : ∀ i ∈ burnIndices,
      state'.createdWithdrawalRequests[i]? = state.createdWithdrawalRequests[i]?) :
    state'.createdRequests burnIndices = state.createdRequests burnIndices :=
  List.map_congr_left fun i hi => by rw [h i hi]

theorem exists_createdRequests_iff {state : State} :
    (∃ requests : List WithdrawalRequest, state.createdRequests burnIndices = requests.map some) ↔
      ∀ i ∈ burnIndices, ∃ request, state.createdWithdrawalRequests[i]? = some request := by
  constructor
  · rintro ⟨requests, h⟩ i hi
    have hmem := List.mem_map_of_mem
      (f := fun i => state.createdWithdrawalRequests[i]?.map PendingWithdrawalRequest.request) hi
    rw [← createdRequests, h, List.mem_map] at hmem
    obtain ⟨request, -, hrequest⟩ := hmem
    obtain ⟨pending, hpending, -⟩ := Option.map_eq_some_iff.mp hrequest.symm
    exact ⟨pending, hpending⟩
  · intro h
    induction burnIndices with
    | nil => exact ⟨[], rfl⟩
    | cons i rest ih =>
        obtain ⟨pending, hpending⟩ := h i List.mem_cons_self
        obtain ⟨requests, hrequests⟩ := ih fun j hj => h j (List.mem_cons_of_mem _ hj)
        refine ⟨pending.request :: requests, ?_⟩
        rw [createdRequests, List.map_cons, hpending, ← createdRequests, hrequests]
        rfl

variable [SolanaSdk]

/-- The message that the binding determines under the recorded key. -/
def Builds (state : State) (binding : Binding) (message : Message) : Prop :=
  ∃ key, state.minterPublicKey = some key ∧ binding.Builds key message

theorem Builds.unique {state : State} {message message' : Message}
    (h : state.Builds binding message) (h' : state.Builds binding message') :
    message = message' := by
  obtain ⟨key, hkey, hbuilds⟩ := h
  obtain ⟨key', hkey', hbuilds'⟩ := h'
  obtain rfl := Option.some.inj (hkey.symm.trans hkey')
  exact hbuilds.unique hbuilds'

/-- The message of a binding carries its nonce account and its nonce value. -/
theorem Builds.carries [SolanaSdk.Lawful] {state : State} (h : state.Builds binding message) :
    message.advancedNonceAccount = some binding.nonceAccount ∧
      message.recentBlockhash = binding.nonceValue := by
  obtain ⟨key, -, hbuilds⟩ := h
  exact ⟨advancedNonceAccount_of_build hbuilds, recentBlockhash_of_build hbuilds⟩

theorem boundWithdrawalMessage_eq_ok {state : State} {nonceAccount : Address}
    {created : CreatedWithdrawalTransaction}
    (h : state.boundWithdrawalMessage nonceAccount created = .ok message) :
    ∃ requests : List WithdrawalRequest,
      state.createdRequests created.burnIndices = requests.map some ∧
        state.Builds ⟨nonceAccount, created.nonceValue, created.burnIndices, requests⟩ message := by
  simp only [boundWithdrawalMessage, bind_eq_ok, orPanic_eq_ok] at h
  obtain ⟨key, hkey, requests, hrequests, h⟩ := h
  split at h
  case h_1 built hbuilt =>
    obtain rfl := pure_eq_ok.mp h
    exact ⟨requests, mapM_createdWithdrawalRequest.mp hrequests, key, hkey, hbuilt⟩
  case h_2 => cases h

/-- A recorded key stays. -/
theorem minterPublicKey_of_effect {state state' : State} {timestamp : Timestamp}
    {payload : EventType} {key : SchnorrPublicKey} (h : state.Effect timestamp payload state')
    (hkey : state.minterPublicKey = some key) : state'.minterPublicKey = some key := by
  cases h with
  | keyFetched hsame => exact congrArg some (hsame key hkey).symm
  | _ => exact hkey

theorem Builds.effect {state state' : State} {timestamp : Timestamp} {payload : EventType}
    (h : state.Builds binding message) (heffect : state.Effect timestamp payload state') :
    state'.Builds binding message := by
  obtain ⟨key, hkey, hbuilds⟩ := h
  exact ⟨key, minterPublicKey_of_effect heffect hkey, hbuilds⟩

/-- Only a binding adds to the seen values, and nothing takes any away. -/
theorem hasSeen_of_effect {state state' : State} {timestamp : Timestamp} {payload : EventType}
    (h : state.Effect timestamp payload state') (account : Address) (value : Hash) :
    state'.noncePool.hasSeen account value ↔ state.noncePool.hasSeen account value ∨
      ∃ burnIndices, payload = .createdWithdrawalTransaction burnIndices account value := by
  cases h with
  | upgrade hpool hvalid =>
      rcases hpool with ⟨-, rfl⟩ | ⟨texts, addresses, -, -, -, hadd⟩
      · simp
      · simp [DurableNoncePool.hasSeen_addAccounts hadd]
  | createdWithdrawal haccount hunseen hmoved htotal hbalance hnew =>
      rw [DurableNoncePool.hasSeen_insert]
      split
      case isTrue heq =>
        subst heq
        rw [DurableNoncePool.hasSeen_of_getElem? haccount, OrdSet.mem_insert_iff, or_comm]
        simp
      case isFalse hne => simp [hne]
  | succeededWithdrawal hfailed hsucceeded hremove haccount =>
      rw [DurableNoncePool.hasSeen_insert]
      split
      case isTrue heq => simp [← heq, DurableNoncePool.hasSeen_of_getElem? haccount]
      case isFalse => simp
  | failedWithdrawal hsucceeded hfailed hremove haccount =>
      rw [DurableNoncePool.hasSeen_insert]
      split
      case isTrue heq => simp [← heq, DurableNoncePool.hasSeen_of_getElem? haccount]
      case isFalse => simp
  | _ => simp

end State

variable [SolanaSdk]

/-- The bindings that the log records, and what the state holds of them. -/
structure Bindings (log : List Event) (state : State) (bindings : List Binding) : Prop where
  pending : PendingRecorded log state
  logged : ∀ binding ∈ bindings, ∃ timestamp, ⟨timestamp, binding.event⟩ ∈ log
  debited : ∀ binding ∈ bindings, binding.debit ∈ createdDebits log
  /-- A nonce value of an account is bound once. -/
  injective : ∀ binding ∈ bindings, ∀ binding' ∈ bindings,
    binding.nonceAccount = binding'.nonceAccount → binding.nonceValue = binding'.nonceValue →
    binding = binding'
  seen_iff : ∀ account value, state.noncePool.hasSeen account value ↔
    ∃ binding ∈ bindings, binding.nonceAccount = account ∧ binding.nonceValue = value
  created : ∀ {account : Address} {transaction : CreatedWithdrawalTransaction},
    state.createdWithdrawalTxs[account]? = some transaction →
    ∃ binding ∈ bindings, binding.nonceAccount = account ∧
      binding.nonceValue = transaction.nonceValue ∧
      binding.burnIndices = transaction.burnIndices ∧
      state.createdRequests binding.burnIndices = binding.requests.map some
  submitted : ∀ {signature message account nonceValue submittedAt},
    state.submittedTransactions.get signature =
      some (.withdrawal message account nonceValue submittedAt) →
    ∃ binding ∈ bindings, binding.nonceAccount = account ∧ binding.nonceValue = nonceValue ∧
      state.Builds binding message
  /-- A submitted withdrawal carried the message of its binding. -/
  sent : ∀ {timestamp signature message signers burnIndices},
    ⟨timestamp, .submittedTransaction signature message signers (.withdrawal burnIndices)⟩ ∈ log →
    ∃ binding ∈ bindings, binding.burnIndices = burnIndices ∧ state.Builds binding message

namespace Bindings

variable {log : List Event} {state state' : State} {bindings : List Binding} {timestamp : Timestamp}
  {payload : EventType} {account : Address}

/-- An event that neither binds nor sends. -/
theorem frame (h : Bindings log state bindings) (heffect : state.Effect timestamp payload state')
    (hbinds : ∀ burnIndices account value,
      payload ≠ .createdWithdrawalTransaction burnIndices account value)
    (hsends : ∀ signature message signers burnIndices,
      payload ≠ .submittedTransaction signature message signers (.withdrawal burnIndices))
    (hcreatedTxs : state'.createdWithdrawalTxs = state.createdWithdrawalTxs)
    (hcreated : state'.createdWithdrawalRequests = state.createdWithdrawalRequests)
    (hsubmitted : ∀ {signature message account nonceValue submittedAt},
      state'.submittedTransactions.get signature =
        some (.withdrawal message account nonceValue submittedAt) →
      state.submittedTransactions.get signature =
        some (.withdrawal message account nonceValue submittedAt)) :
    Bindings (log ++ [⟨timestamp, payload⟩]) state' bindings where
  pending := h.pending.effect heffect
  logged binding hmem := by
    obtain ⟨t, ht⟩ := h.logged binding hmem
    exact ⟨t, List.mem_append_left _ ht⟩
  debited binding hmem := by
    rw [createdDebits_append_of_not hbinds]
    exact h.debited binding hmem
  injective := h.injective
  seen_iff account value := by
    rw [State.hasSeen_of_effect heffect, or_iff_left, h.seen_iff]
    rintro ⟨burnIndices, heq⟩
    exact hbinds burnIndices account value heq
  created {account transaction} htx := by
    rw [hcreatedTxs] at htx
    obtain ⟨binding, hmem, haccount, hvalue, hindices, hrequests⟩ := h.created htx
    refine ⟨binding, hmem, haccount, hvalue, hindices, ?_⟩
    rw [← hrequests]
    exact State.createdRequests_congr fun i _ => by rw [hcreated]
  submitted hget := by
    obtain ⟨binding, hmem, haccount, hvalue, hbuilds⟩ := h.submitted (hsubmitted hget)
    exact ⟨binding, hmem, haccount, hvalue, hbuilds.effect heffect⟩
  sent {t signature message signers burnIndices} hmem := by
    rw [List.mem_append, List.mem_singleton, Event.mk.injEq] at hmem
    rcases hmem with hmem | ⟨-, heq⟩
    · obtain ⟨binding, hbinding, hindices, hbuilds⟩ := h.sent hmem
      exact ⟨binding, hbinding, hindices, hbuilds.effect heffect⟩
    · exact absurd heq.symm (hsends signature message signers burnIndices)

/-- A new transaction binds a value that its account has not seen. -/
theorem bind (h : Bindings log state bindings) {burnIndices : List LedgerBurnIndex} {value : Hash}
    (heffect : state.Effect timestamp
      (.createdWithdrawalTransaction burnIndices account value) state')
    (hunseen : ¬ state.noncePool.hasSeen account value)
    (hmoved : OrdMap.Moved id burnIndices state.pendingWithdrawalRequests
      state'.pendingWithdrawalRequests state.createdWithdrawalRequests
      state'.createdWithdrawalRequests) (hcreatedTxs : state'.createdWithdrawalTxs =
      state.createdWithdrawalTxs.insert account ⟨value, burnIndices⟩)
    (hsubmitted : state'.submittedTransactions = state.submittedTransactions) :
    ∃ binding, Bindings (log ++ [⟨timestamp,
      .createdWithdrawalTransaction burnIndices account value⟩]) state' (bindings ++ [binding]) := by
  obtain ⟨requests, hrequests⟩ : ∃ requests : List WithdrawalRequest,
      state'.createdRequests burnIndices = requests.map some := by
    refine State.exists_createdRequests_iff.mpr fun i hi => ?_
    obtain ⟨request, hrequest⟩ := hmoved.present i hi
    exact ⟨request, by rw [hmoved.target_of_mem i hi, hrequest]; rfl⟩
  have hnew : ∀ binding ∈ bindings, binding.nonceAccount = account → binding.nonceValue ≠ value := by
    intro binding hmem haccount hvalue
    exact hunseen ((h.seen_iff account value).mpr ⟨binding, hmem, haccount, hvalue⟩)
  have hamounts : burnIndices.map (state.pendingWithdrawalRequests.weightAt State.transferAmount) =
      requests.map (·.amountToTransfer.toNat) := by
    have hweights := congrArg (List.map fun request : Option WithdrawalRequest =>
      request.elim 0 (·.amountToTransfer.toNat)) hrequests
    rw [List.map_map] at hweights
    rw [← show _ = requests.map _ from hweights.trans (by simp), State.createdRequests, List.map_map]
    refine List.map_congr_left fun i hi => ?_
    obtain ⟨request, hrequest⟩ := hmoved.present i hi
    simp [OrdMap.weightAt, hmoved.target_of_mem i hi, hrequest, State.transferAmount]
  refine ⟨⟨account, value, burnIndices, requests⟩, h.pending.effect heffect, ?_, ?_, ?_, ?_, ?_, ?_,
    ?_⟩
  · intro binding hmem
    rw [List.mem_append, List.mem_singleton] at hmem
    rcases hmem with hmem | rfl
    · obtain ⟨t, ht⟩ := h.logged binding hmem
      exact ⟨t, List.mem_append_left _ ht⟩
    · exact ⟨timestamp, List.mem_append_right _ (List.mem_singleton_self _)⟩
  · intro binding hmem
    rw [createdDebits_append_created]
    rw [List.mem_append, List.mem_singleton] at hmem ⊢
    rcases hmem with hmem | rfl
    · exact .inl (h.debited binding hmem)
    · rw [h.pending.cost_eq hmoved.present, hamounts]
      exact .inr rfl
  · intro binding hmem binding' hmem' haccount hvalue
    rw [List.mem_append, List.mem_singleton] at hmem hmem'
    rcases hmem with hmem | rfl <;> rcases hmem' with hmem' | rfl
    · exact h.injective binding hmem binding' hmem' haccount hvalue
    · exact absurd hvalue (hnew binding hmem haccount)
    · exact absurd hvalue.symm (hnew binding' hmem' haccount.symm)
    · rfl
  · intro account' value'
    rw [State.hasSeen_of_effect heffect, h.seen_iff]
    simp only [List.mem_append, List.mem_singleton, or_and_right, exists_or, exists_eq_left,
      EventType.createdWithdrawalTransaction.injEq, exists_and_right, exists_eq', true_and]
  · intro account' transaction htx
    rw [hcreatedTxs, OrdMap.getElem?_insert_eq] at htx
    split at htx
    case isTrue heq =>
      obtain rfl := Option.some.inj htx
      exact ⟨_, List.mem_append_right _ (List.mem_singleton_self _), heq, rfl, rfl, hrequests⟩
    case isFalse =>
      obtain ⟨binding, hmem, haccount, hvalue, hindices, hold⟩ := h.created htx
      refine ⟨binding, List.mem_append_left _ hmem, haccount, hvalue, hindices, ?_⟩
      rw [← hold]
      refine State.createdRequests_congr fun i hi => hmoved.target_of_notMem i fun hbatch => ?_
      -- the indices of the batch were in no created transaction
      obtain ⟨request, hrequest⟩ := State.exists_createdRequests_iff.mp ⟨_, hold⟩ i hi
      rw [hmoved.fresh i hbatch] at hrequest
      cases hrequest
  · intro signature message account' value' submittedAt hget
    rw [hsubmitted] at hget
    obtain ⟨binding, hmem, haccount, hvalue, hbuilds⟩ := h.submitted hget
    exact ⟨binding, List.mem_append_left _ hmem, haccount, hvalue, hbuilds.effect heffect⟩
  · intro t signature message signers indices hmem
    simp only [List.mem_append, List.mem_singleton, Event.mk.injEq, reduceCtorEq, and_false,
      or_false] at hmem
    obtain ⟨binding, hbinding, hindices, hbuilds⟩ := h.sent hmem
    exact ⟨binding, List.mem_append_left _ hbinding, hindices, hbuilds.effect heffect⟩

/-- A binding of the history is determined by what the state holds of it. -/
theorem mem_of_created (h : Bindings log state bindings)
    {transaction : CreatedWithdrawalTransaction}
    (htx : state.createdWithdrawalTxs[account]? = some transaction)
    {requests : List WithdrawalRequest}
    (hrequests : state.createdRequests transaction.burnIndices = requests.map some) :
    ⟨account, transaction.nonceValue, transaction.burnIndices, requests⟩ ∈ bindings := by
  obtain ⟨binding, hmem, rfl, hvalue, hindices, hold⟩ := h.created htx
  rw [hindices, hrequests] at hold
  obtain rfl := (List.map_injective_iff.mpr (Option.some_injective _)) hold
  rwa [← hvalue, ← hindices]

/-- The submission of a created transaction carries the message of its binding. -/
theorem send (h : Bindings log state bindings) (htables : RequestTable state.createdWithdrawalTxs
      state.createdWithdrawalRequests) {signature : Signature} {message : Message}
    {signers : List Signer} {burnIndices : List LedgerBurnIndex} {value : Hash}
    (heffect : state.Effect timestamp
      (.submittedTransaction signature message signers (.withdrawal burnIndices)) state')
    (hcreated : state.createdWithdrawalTxs[account]? = some ⟨value, burnIndices⟩)
    (hbound : state.boundWithdrawalMessage account ⟨value, burnIndices⟩ = .ok message)
    (hmoved : OrdMap.Moved (State.sentAs signature) burnIndices state.createdWithdrawalRequests
      state'.createdWithdrawalRequests state.sentWithdrawalRequests state'.sentWithdrawalRequests)
    (hcreatedTxs : state'.createdWithdrawalTxs = state.createdWithdrawalTxs.erase account)
    (hsubmitted : state'.submittedTransactions = state.submittedTransactions.insert signature
      (.withdrawal message account value timestamp)) :
    Bindings (log ++ [⟨timestamp,
      .submittedTransaction signature message signers (.withdrawal burnIndices)⟩]) state'
      bindings := by
  obtain ⟨requests, hrequests, hbuilds⟩ := State.boundWithdrawalMessage_eq_ok hbound
  have hbinding := h.mem_of_created hcreated hrequests
  refine ⟨h.pending.effect heffect, ?_, ?_, h.injective, ?_, ?_, ?_, ?_⟩
  · intro binding hmem
    obtain ⟨t, ht⟩ := h.logged binding hmem
    exact ⟨t, List.mem_append_left _ ht⟩
  · intro binding hmem
    rw [createdDebits_append_of_not (by simp)]
    exact h.debited binding hmem
  · intro account' value'
    rw [State.hasSeen_of_effect heffect, or_iff_left, h.seen_iff]
    rintro ⟨indices, heq⟩
    cases heq
  · intro account' transaction htx
    rw [hcreatedTxs, OrdMap.getElem?_erase_eq] at htx
    split at htx
    case isTrue => cases htx
    case isFalse hne =>
      obtain ⟨binding, hmem, haccount, hvalue, hindices, hold⟩ := h.created htx
      refine ⟨binding, hmem, haccount, hvalue, hindices, ?_⟩
      rw [← hold]
      -- two created transactions share no index
      refine State.createdRequests_congr fun i hi => hmoved.source_of_notMem i fun hbatch => hne ?_
      exact htables.disjoint hcreated htx hbatch (hindices ▸ hi)
  · intro signature' message' account' value' submittedAt hget
    rw [hsubmitted, InsertionOrderedMap.get_insert] at hget
    split at hget
    case isTrue =>
      obtain ⟨rfl, rfl, rfl, -⟩ := MinterTransaction.withdrawal.inj (Option.some.inj hget)
      exact ⟨_, hbinding, rfl, rfl, hbuilds.effect heffect⟩
    case isFalse =>
      obtain ⟨binding, hmem, haccount, hvalue, hold⟩ := h.submitted hget
      exact ⟨binding, hmem, haccount, hvalue, hold.effect heffect⟩
  · intro t signature' message' signers' indices hmem
    rw [List.mem_append, List.mem_singleton, Event.mk.injEq] at hmem
    rcases hmem with hmem | ⟨-, heq⟩
    · obtain ⟨binding, hmem, hindices, hold⟩ := h.sent hmem
      exact ⟨binding, hmem, hindices, hold.effect heffect⟩
    · obtain ⟨-, rfl, -, hpurpose⟩ := EventType.submittedTransaction.inj heq
      obtain rfl := TransactionPurpose.withdrawal.inj hpurpose
      exact ⟨_, hbinding, rfl, hbuilds.effect heffect⟩

/-- Every event keeps the history of bindings, and only a created transaction extends it. -/
theorem effect (h : Bindings log state bindings) (htables : RequestTable state.createdWithdrawalTxs
      state.createdWithdrawalRequests) (heffect : state.Effect timestamp payload state') :
    ∃ bindings', bindings <+: bindings' ∧
      Bindings (log ++ [⟨timestamp, payload⟩]) state' bindings' := by
  have heffect' := heffect
  cases heffect with
  | createdWithdrawal haccount hunseen hmoved htotal hbalance hnew =>
      have hunseen' := mt (DurableNoncePool.hasSeen_of_getElem? haccount _).mp hunseen
      obtain ⟨binding, hbindings⟩ := h.bind heffect' hunseen' hmoved rfl rfl
      exact ⟨_, List.prefix_append _ _, hbindings⟩
  | sentWithdrawal hsucceeded hfailed hsubmitted hadvanced hcreated hbound hmoved =>
      exact ⟨bindings, List.prefix_rfl, h.send htables heffect' hcreated hbound hmoved rfl rfl⟩
  | sweptDeposits hsucceeded hfailed hsubmitted hkey hsweep =>
      refine ⟨bindings, List.prefix_rfl, h.frame heffect' (by simp) (by simp) rfl rfl ?_⟩
      intro signature' message account nonceValue submittedAt hget
      rw [InsertionOrderedMap.get_insert] at hget
      split at hget
      · cases hget
      · exact hget
  | succeededWithdrawal hfailed hsucceeded hremove haccount =>
      exact ⟨bindings, List.prefix_rfl,
        h.frame heffect' (by simp) (by simp) rfl rfl (InsertionOrderedMap.get_of_remove hremove)⟩
  | succeededSweep hfailed hsucceeded hremove hfinalize =>
      exact ⟨bindings, List.prefix_rfl,
        h.frame heffect' (by simp) (by simp) rfl rfl (InsertionOrderedMap.get_of_remove hremove)⟩
  | failedWithdrawal hsucceeded hfailed hremove haccount =>
      exact ⟨bindings, List.prefix_rfl,
        h.frame heffect' (by simp) (by simp) rfl rfl (InsertionOrderedMap.get_of_remove hremove)⟩
  | failedSweep hsucceeded hfailed hremove hdrop =>
      exact ⟨bindings, List.prefix_rfl,
        h.frame heffect' (by simp) (by simp) rfl rfl (InsertionOrderedMap.get_of_remove hremove)⟩
  | expiredSweep hsucceeded hfailed hremove hdrop =>
      exact ⟨bindings, List.prefix_rfl,
        h.frame heffect' (by simp) (by simp) rfl rfl (InsertionOrderedMap.get_of_remove hremove)⟩
  | _ => exact ⟨bindings, List.prefix_rfl, h.frame heffect' (by simp) (by simp) rfl rfl id⟩

theorem of_init {canister : Canister} {args : InitArgs} {now : Timestamp}
    (h : Canister.init args now = .ok canister) : Bindings canister.log canister.state [] := by
  have hpending := PendingRecorded.of_init h
  obtain ⟨_, pool, hpool, -, rfl⟩ := Canister.exists_of_init h
  have hunseen (account : Address) (value : Hash) : pool.hasSeen account value = false := by
    rw [DurableNoncePool.hasSeen_addAccounts hpool]
    simp [DurableNoncePool.hasSeen, DurableNoncePool.empty]
  refine ⟨hpending, ?_, ?_, ?_, ?_, ?_, ?_, ?_⟩
  all_goals simp [hunseen]

theorem withTransient (h : Bindings log state bindings) (transient : State.Transient) :
    Bindings log (state.withTransient transient) bindings :=
  ⟨⟨h.pending.keyed, h.pending.amount⟩, h.logged, h.debited, h.injective, h.seen_iff, h.created,
    h.submitted, h.sent⟩

/-- A run extends the history of bindings. -/
theorem run {Emits : State → Timestamp → EventType → Prop} {canister canister' : Canister}
    (h : Bindings canister.log canister.state bindings) (htables : canister.Tables)
    (hrun : Canister.Run Emits canister canister') :
    ∃ bindings', bindings <+: bindings' ∧ Bindings canister'.log canister'.state bindings' := by
  refine (hrun.invariant (fun canister' => canister'.Tables ∧ ∃ bindings', bindings <+: bindings' ∧
    Bindings canister'.log canister'.state bindings') ?_ ?_
    ⟨htables, bindings, List.prefix_rfl, h⟩).2
  · rintro canister' transient ⟨htables', bindings', hextends, h'⟩
    exact ⟨⟨htables'.nonces, htables'.requests, htables'.sent, htables'.sweeps, htables'.signatures⟩,
      bindings', hextends, h'.withTransient transient⟩
  · rintro state log now payload state' - ⟨htables', bindings', hextends, h'⟩ heffect
    obtain ⟨bindings'', hextends', h''⟩ := h'.effect htables'.requests heffect
    exact ⟨htables'.effect heffect, bindings'', hextends.trans hextends', h''⟩

end Bindings

end Cksol
