import Cksol.Minter.Runs
import Cksol.State.Bindings

/-! # What the minter signs

Every message passed to the signer with the path of the minter was built for a binding of the
history, and a round keeps across its awaits nothing that other messages could invalidate.
-/

namespace Cksol

section Signing

variable [SolanaSdk]

/-! ## The messages of a round -/

theorem boundWithdrawal_eq_ok {state : State} {key : SchnorrPublicKey} {nonceAccount : Address}
    {created : CreatedWithdrawalTransaction} {withdrawal : BoundWithdrawal}
    (h : boundWithdrawal state (minterAddress key) nonceAccount created = .ok (some withdrawal)) :
    ∃ requests : List WithdrawalRequest,
      state.createdRequests created.burnIndices = requests.map some ∧
      withdrawal.nonceAccount = nonceAccount ∧ withdrawal.burnIndices = created.burnIndices ∧
      (⟨nonceAccount, created.nonceValue, created.burnIndices, requests⟩ : Binding).Builds key
        withdrawal.message := by
  simp only [boundWithdrawal, bind_eq_ok] at h
  obtain ⟨requests, hrequests, h⟩ := h
  split at h
  case h_1 message hbuild =>
    obtain rfl := Option.some.inj (pure_eq_ok.mp h)
    exact ⟨requests, State.mapM_createdWithdrawalRequest.mp hrequests, rfl, rfl, hbuild⟩
  case h_2 => cases pure_eq_ok.mp h

theorem mem_boundWithdrawals {state : State} {minterAddress : Address}
    {withdrawals : List BoundWithdrawal} (h : boundWithdrawals state minterAddress = .ok withdrawals)
    {withdrawal : BoundWithdrawal} (hmem : withdrawal ∈ withdrawals) :
    ∃ (nonceAccount : Address) (created : CreatedWithdrawalTransaction),
      state.createdWithdrawalTxs[nonceAccount]? = some created ∧
        boundWithdrawal state minterAddress nonceAccount created = .ok (some withdrawal) := by
  simp only [boundWithdrawals, bind_eq_ok, pure_eq_ok] at h
  obtain ⟨bound, hbound, rfl⟩ := h
  simp only [List.mem_filterMap, id_eq, exists_eq_right] at hmem
  obtain ⟨⟨nonceAccount, created⟩, hentry, hwithdrawal⟩ := mem_of_mapM_eq_ok hbound hmem
  have hsorted := List.mem_of_mem_take hentry
  rw [List.mem_insertionSort, OrdMap.mem_toList_iff] at hsorted
  exact ⟨nonceAccount, created, hsorted, hwithdrawal⟩

theorem mem_planSweeps {batches : List (List (DepositSolId × QueuedDeposit))} {block : Block}
    {destination : Address} {planned : List PlannedSweep}
    (h : planSweeps batches block destination = .ok planned) {sweep : PlannedSweep}
    (hmem : sweep ∈ planned) :
    ∃ batch ∈ batches, planSweep batch block destination = .ok (some sweep) := by
  simp only [planSweeps, bind_eq_ok, pure_eq_ok] at h
  obtain ⟨all, hall, rfl⟩ := h
  simp only [List.mem_filterMap, id_eq, exists_eq_right] at hmem
  exact mem_of_mapM_eq_ok hall hmem

/-- The parts of a planned sweep. -/
theorem planSweep_eq_ok {batch : List (DepositSolId × QueuedDeposit)} {block : Block}
    {destination : Address} {planned : PlannedSweep}
    (h : planSweep batch block destination = .ok (some planned)) :
    Sweep.plan batch destination = .ok planned.sweep ∧
      planned.message = planned.sweep.sweepMessage block.blockhash ∧
      planned.blockHeight = block.blockHeight ∧
      ∀ signer ∈ planned.signers, ∃ account, signer = .account account := by
  simp only [planSweep, bind_eq_ok] at h
  obtain ⟨sweep, hsweep, signers, hsigners, h⟩ := h
  split at h
  · cases pure_eq_ok.mp h
  · obtain rfl := Option.some.inj (pure_eq_ok.mp h)
    refine ⟨hsweep, rfl, rfl, fun signer hsigner => ?_⟩
    obtain ⟨key, -, hkey⟩ := mem_of_mapM_eq_ok hsigners hsigner
    simp only [bind_eq_ok, orPanic_eq_ok, pure_eq_ok] at hkey
    obtain ⟨account, -, rfl⟩ := hkey
    exact ⟨account, rfl⟩

/-! ## The invariant of signing -/

open Canister (Run)

theorem Canister.Run.minterPublicKey {Emits : State → Timestamp → EventType → Prop}
    {canister canister' : Canister} {key : SchnorrPublicKey} (h : Run Emits canister canister')
    (hkey : canister.state.minterPublicKey = some key) :
    canister'.state.minterPublicKey = some key := by
  refine h.invariant (fun canister' => canister'.state.minterPublicKey = some key) ?_ ?_ hkey
  · intro canister' transient hkey
    exact hkey
  · intro state log now payload state' _ hkey heffect
    exact State.minterPublicKey_of_effect heffect hkey

/-- A message was built for a binding of the history, under the recorded key. -/
def BuiltFor (state : State) (bindings : List Binding) (withdrawal : BoundWithdrawal) : Prop :=
  ∃ binding ∈ bindings, binding.nonceAccount = withdrawal.nonceAccount ∧
    binding.burnIndices = withdrawal.burnIndices ∧ state.Builds binding withdrawal.message

/-- What was passed to the signer, and what a round of withdrawals keeps. -/
structure Config.Signs (config : Config) (bindings : List Binding) : Prop where
  history : Bindings config.canister.log config.canister.state bindings
  creating : ∀ {address batches}, config.withdrawals = some (.creating address batches) →
    ∃ key, config.canister.state.minterPublicKey = some key ∧ address = minterAddress key
  signing : ∀ {withdrawals}, config.withdrawals = some (.signing withdrawals) →
    ∀ withdrawal ∈ withdrawals, .withdrawal withdrawal ∈ config.signRequests
  /-- A message requested for a withdrawal is that of a binding. -/
  requested : ∀ {withdrawal}, .withdrawal withdrawal ∈ config.signRequests →
    BuiltFor config.canister.state bindings withdrawal
  /-- Sweeps are signed for accounts. -/
  swept : ∀ {planned signer}, .sweep planned signer ∈ config.signRequests →
    ∃ account, signer = .account account
  /-- A submitted message was requested for its batch. -/
  submitted : ∀ {timestamp signature message signers burnIndices},
    ⟨timestamp, .submittedTransaction signature message signers (.withdrawal burnIndices)⟩ ∈
      config.canister.log →
    ∃ withdrawal, .withdrawal withdrawal ∈ config.signRequests ∧
      withdrawal.burnIndices = burnIndices ∧ withdrawal.message = message

namespace Config

variable {config config' : Config} {bindings bindings' : List Binding} {now : Timestamp}
  {action : Action}

/-- What a message adds to the requests and to the log. -/
theorem Signs.extend (h : config.Signs bindings) (hextends : bindings <+: bindings')
    (hhistory : Bindings config'.canister.log config'.canister.state bindings')
    (hkey : ∀ key, config.canister.state.minterPublicKey = some key →
      config'.canister.state.minterPublicKey = some key)
    (hcreating : ∀ {address batches}, config'.withdrawals = some (.creating address batches) →
      ∃ key, config'.canister.state.minterPublicKey = some key ∧ address = minterAddress key)
    (hsigning : ∀ {withdrawals}, config'.withdrawals = some (.signing withdrawals) →
      ∀ withdrawal ∈ withdrawals, .withdrawal withdrawal ∈ config'.signRequests)
    (hkept : ∀ request ∈ config.signRequests, request ∈ config'.signRequests)
    (hnew : ∀ request ∈ config'.signRequests, request ∈ config.signRequests ∨
      (∃ planned account, request = .sweep planned (.account account)) ∨
      ∃ withdrawal, request = .withdrawal withdrawal ∧
        BuiltFor config'.canister.state bindings' withdrawal)
    (hlog : ∀ {timestamp signature message signers burnIndices},
      ⟨timestamp, .submittedTransaction signature message signers (.withdrawal burnIndices)⟩ ∈
        config'.canister.log →
      ⟨timestamp, .submittedTransaction signature message signers (.withdrawal burnIndices)⟩ ∈
        config.canister.log ∨
      ∃ withdrawal, .withdrawal withdrawal ∈ config'.signRequests ∧
        withdrawal.burnIndices = burnIndices ∧ withdrawal.message = message) :
    config'.Signs bindings' where
  history := hhistory
  creating := hcreating
  signing := hsigning
  requested hmem := by
    rcases hnew _ hmem with hold | ⟨planned, account, heq⟩ | ⟨withdrawal, heq, hbuilt⟩
    · obtain ⟨binding, hbinding, haccount, hindices, key, hrecorded, hbuilds⟩ := h.requested hold
      exact ⟨binding, hextends.subset hbinding, haccount, hindices, key, hkey key hrecorded, hbuilds⟩
    · cases heq
    · obtain rfl := SignRequest.withdrawal.inj heq
      exact hbuilt
  swept hmem := by
    rcases hnew _ hmem with hold | ⟨planned, account, heq⟩ | ⟨withdrawal, heq, -⟩
    · exact h.swept hold
    · exact ⟨account, (SignRequest.sweep.inj heq).2⟩
    · cases heq
  submitted hmem := by
    rcases hlog hmem with hold | hnew
    · obtain ⟨withdrawal, hrequest, hindices, hmessage⟩ := h.submitted hold
      exact ⟨withdrawal, hkept _ hrequest, hindices, hmessage⟩
    · exact hnew

/-- A message of another task: the round of withdrawals may end, and sweeps may be requested. -/
theorem Signs.frame (h : config.Signs bindings) (hextends : bindings <+: bindings')
    (hhistory : Bindings config'.canister.log config'.canister.state bindings')
    (hkey : ∀ key, config.canister.state.minterPublicKey = some key →
      config'.canister.state.minterPublicKey = some key)
    (hround : config'.withdrawals = none ∨ config'.withdrawals = config.withdrawals)
    (hkept : ∀ request ∈ config.signRequests, request ∈ config'.signRequests)
    (hnew : ∀ request ∈ config'.signRequests, request ∈ config.signRequests ∨
      ∃ planned account, request = .sweep planned (.account account))
    (hlog : ∀ {timestamp signature message signers burnIndices},
      ⟨timestamp, .submittedTransaction signature message signers (.withdrawal burnIndices)⟩ ∈
        config'.canister.log →
      ⟨timestamp, .submittedTransaction signature message signers (.withdrawal burnIndices)⟩ ∈
        config.canister.log) : config'.Signs bindings' := by
  refine h.extend hextends hhistory hkey ?_ ?_ hkept ?_ fun hmem => .inl (hlog hmem)
  · intro address batches hcreating
    rcases hround with hround | hround
    · rw [hround] at hcreating
      cases hcreating
    · obtain ⟨key, hrecorded, haddress⟩ := h.creating (hround ▸ hcreating)
      exact ⟨key, hkey key hrecorded, haddress⟩
  · intro withdrawals hsigning withdrawal hmem
    rcases hround with hround | hround
    · rw [hround] at hsigning
      cases hsigning
    · exact hkept _ (h.signing (hround ▸ hsigning) withdrawal hmem)
  · intro request hmem
    rcases hnew request hmem with hold | hsweep
    · exact .inl hold
    · exact .inr (.inl hsweep)

/-- The messages of a round of withdrawals. -/
theorem Signs.withdrawals (h : config.Signs bindings) (hextends : bindings <+: bindings')
    {canister : Canister} {round : Option WithdrawalRound} {requested : List BoundWithdrawal}
    {action : WithdrawalAction}
    (hhistory : Bindings canister.log canister.state bindings')
    (hsteps : WithdrawalRound.Steps config.canister now config.withdrawals action
      (canister, round, requested)) :
    { config with
      canister
      withdrawals := round
      signRequests := config.signRequests ++ requested.map SignRequest.withdrawal }.Signs
      bindings' := by
  have hkey (key : SchnorrPublicKey) (hrecorded : config.canister.state.minterPublicKey = some key) :
      canister.state.minterPublicKey = some key := hsteps.run.minterPublicKey hrecorded
  have hkept (request : SignRequest) (hmem : request ∈ config.signRequests) :
      request ∈ config.signRequests ++ requested.map SignRequest.withdrawal :=
    List.mem_append_left _ hmem
  -- a message that requests nothing and submits nothing
  have hquiet (hnone : requested = []) (request : SignRequest)
      (hmem : request ∈ config.signRequests ++ requested.map SignRequest.withdrawal) :
      request ∈ config.signRequests := by simpa [hnone] using hmem
  generalize hwithdrawals : config.withdrawals = before at hsteps
  cases hsteps with
  | start hstart hrecorded =>
      refine h.extend hextends hhistory hkey ?_ ?_ hkept (fun _ hmem => .inl (hquiet rfl _ hmem)) ?_
      · intro address batches hcreating
        obtain ⟨rfl, -⟩ := WithdrawalRound.creating.inj (Option.some.inj hcreating)
        exact ⟨_, hkey _ hrecorded, rfl⟩
      · intro withdrawals hsigning
        cases hsigning
      · intro t signature message signers burnIndices hmem
        rw [Canister.startTask_eq_some hstart] at hmem
        exact .inl hmem
  | skipped =>
      refine h.extend hextends hhistory hkey ?_ ?_ hkept (fun _ hmem => .inl (hquiet rfl _ hmem))
        .inl
      · intro address batches hcreating
        obtain ⟨rfl, -⟩ := WithdrawalRound.creating.inj (Option.some.inj hcreating)
        exact h.creating hwithdrawals
      · intro withdrawals hsigning
        cases hsigning
  | created hbatch hread hunseen hbuild hevent =>
      refine h.extend hextends hhistory hkey ?_ ?_ hkept (fun _ hmem => .inl (hquiet rfl _ hmem)) ?_
      · intro address batches hcreating
        obtain ⟨rfl, -⟩ := WithdrawalRound.creating.inj (Option.some.inj hcreating)
        obtain ⟨key, hrecorded, haddress⟩ := h.creating hwithdrawals
        exact ⟨key, hkey key hrecorded, haddress⟩
      · intro withdrawals hsigning
        cases hsigning
      · intro t signature message signers burnIndices hmem
        obtain ⟨state, -, rfl⟩ := Canister.processEvent_eq_ok.mp hevent
        exact .inl (by simpa using hmem)
  | requested hbound =>
      refine h.extend hextends hhistory hkey ?_ ?_ hkept ?_ .inl
      · intro address batches hcreating
        cases hcreating
      · intro withdrawals hsigning withdrawal hmem
        obtain rfl := WithdrawalRound.signing.inj (Option.some.inj hsigning)
        exact List.mem_append_right _ (List.mem_map_of_mem hmem)
      · intro request hmem
        rcases List.mem_append.mp hmem with hold | hnew
        · exact .inl hold
        · obtain ⟨withdrawal, hwithdrawal, rfl⟩ := List.mem_map.mp hnew
          obtain ⟨key, hrecorded, rfl⟩ := h.creating hwithdrawals
          obtain ⟨nonceAccount, transaction, htx, hwithdrawal⟩ :=
            mem_boundWithdrawals hbound hwithdrawal
          obtain ⟨requests, hrequests, haccount, hindices, hbuilds⟩ := boundWithdrawal_eq_ok hwithdrawal
          have hbinding := hhistory.mem_of_created htx hrequests
          exact .inr (.inr ⟨withdrawal, rfl, _, hbinding, haccount.symm, hindices.symm, key, hrecorded,
            hbuilds⟩)
  | notSigned =>
      refine h.extend hextends hhistory hkey ?_ ?_ hkept (fun _ hmem => .inl (hquiet rfl _ hmem))
        .inl
      · intro address batches hcreating
        cases hcreating
      · intro withdrawals hsigning withdrawal hmem
        obtain rfl := WithdrawalRound.signing.inj (Option.some.inj hsigning)
        exact hkept _ (h.signing hwithdrawals withdrawal (List.mem_of_mem_eraseIdx hmem))
  | signed hwithdrawal hevent =>
      refine h.extend hextends hhistory hkey ?_ ?_ hkept (fun _ hmem => .inl (hquiet rfl _ hmem)) ?_
      · intro address batches hcreating
        cases hcreating
      · intro withdrawals hsigning withdrawal hmem
        obtain rfl := WithdrawalRound.signing.inj (Option.some.inj hsigning)
        exact hkept _ (h.signing hwithdrawals withdrawal (List.mem_of_mem_eraseIdx hmem))
      · intro t signature message signers burnIndices hmem
        obtain ⟨state, -, rfl⟩ := Canister.processEvent_eq_ok.mp hevent
        rw [List.mem_append, List.mem_singleton, Event.mk.injEq] at hmem
        rcases hmem with hold | ⟨-, heq⟩
        · exact .inl hold
        · obtain ⟨-, rfl, -, hpurpose⟩ := EventType.submittedTransaction.inj heq
          obtain rfl := TransactionPurpose.withdrawal.inj hpurpose
          have hrequest := h.signing hwithdrawals _ (List.mem_of_getElem? hwithdrawal)
          exact .inr ⟨_, hkept _ hrequest, rfl, rfl⟩
  | ended =>
      refine h.frame hextends hhistory hkey (.inl rfl) hkept (fun _ hmem => .inl (hquiet rfl _ hmem)) ?_
      exact fun hmem => hmem

/-- Every message keeps the invariant of signing. -/
theorem Signs.steps (h : config.Signs bindings) (hwellformed : config.Wellformed)
    (hsteps : config.Steps now action config') :
    ∃ bindings', bindings <+: bindings' ∧ config'.Signs bindings' := by
  have hrun := hsteps.run hwellformed.replayable
  obtain ⟨bindings', hextends, hhistory⟩ := h.history.run hwellformed.tables hrun
  have hkey (key : SchnorrPublicKey) (hrecorded : config.canister.state.minterPublicKey = some key) :
      config'.canister.state.minterPublicKey = some key := hrun.minterPublicKey hrecorded
  -- the other messages submit no withdrawals
  have hlog (hother : ∀ step, action ≠ .withdrawals step) {timestamp : Timestamp}
      {signature : Signature} {message : Message} {signers : List Signer}
      {burnIndices : List LedgerBurnIndex} :
      ⟨timestamp, .submittedTransaction signature message signers (.withdrawal burnIndices)⟩ ∈
        config'.canister.log →
      ⟨timestamp, .submittedTransaction signature message signers (.withdrawal burnIndices)⟩ ∈
        config.canister.log := by
    refine hrun.mem_log_of_not fun _ _ hrecords => ?_
    obtain ⟨step, heq⟩ := hrecords.recordedBy
    exact hother step heq
  refine ⟨bindings', hextends, ?_⟩
  cases hsteps with
  | withdrawals hsteps => exact h.withdrawals hextends hhistory hsteps
  | sweeps hsteps =>
      refine h.frame hextends hhistory hkey (.inr rfl) (fun _ => List.mem_append_left _) ?_
        (hlog (by simp))
      intro request hmem
      rcases List.mem_append.mp hmem with hold | hnew
      · exact .inl hold
      · obtain ⟨sweep, hsweep, hrequest⟩ := List.mem_flatMap.mp hnew
        obtain ⟨signer, hsigner, rfl⟩ := List.mem_map.mp hrequest
        generalize config.sweeps = before at hsteps
        cases hsteps with
        | planned hplanned =>
            obtain ⟨batch, -, hbatch⟩ := mem_planSweeps hplanned hsweep
            obtain ⟨account, rfl⟩ := (planSweep_eq_ok hbatch).2.2.2 signer hsigner
            exact .inr ⟨sweep, account, rfl⟩
        | _ => cases hsweep
  | unchanged | withdrawEnded | depositSolEnded =>
      exact h.frame hextends hhistory hkey (.inr rfl) (fun _ => id) (fun _ => .inl) fun hmem => hmem
  | upgraded hupgrade =>
      exact h.frame hextends hhistory hkey (.inl rfl) (fun _ => id) (fun _ => .inl) (hlog (by simp))
  | _ =>
      exact h.frame hextends hhistory hkey (.inr rfl) (fun _ => id) (fun _ => .inl) (hlog (by simp))

theorem signs_of_init {minterId : Principal} {args : InitArgs}
    (h : init minterId args now = .ok config) : config.Signs [] := by
  obtain ⟨canister, hcanister, rfl⟩ := init_eq_ok.mp h
  refine ⟨.of_init hcanister, ?_, ?_, ?_, ?_, ?_⟩
  all_goals simp [idle]
  simp only [Canister.init, bind_eq_ok, mapError_eq_ok, pure_eq_ok] at hcanister
  obtain ⟨state, -, rfl⟩ := hcanister
  simp

/-- In every configuration that a run reaches, what was signed is what the history binds. -/
theorem signs_of_run {minterId : Principal} {args : InitArgs} {actions : List (Timestamp × Action)}
    (h : runFrom minterId args now actions = some config) :
    config.Wellformed ∧ ∃ bindings, config.Signs bindings := by
  refine runFrom_invariant (fun _ config => ∃ bindings, config.Signs bindings) ?_ ?_ h
  · intro config hinit
    exact ⟨[], signs_of_init hinit⟩
  · rintro done config now action config' hwellformed ⟨bindings, hsigns⟩ hsteps
    obtain ⟨bindings', -, hsigns'⟩ := hsigns.steps hwellformed hsteps
    exact ⟨bindings', hsigns'⟩

/-! ## One message per nonce value -/

/-- The messages signed with the minter's own path, and the submitted ones among them. -/
structure OneMessagePerNonce (config : Config) : Prop where
  /-- Two such messages with one nonce account and one nonce value are equal. -/
  unique : ∀ request ∈ config.signRequests, ∀ request' ∈ config.signRequests,
    request.derivationPath = minterDerivationPath → request'.derivationPath = minterDerivationPath →
    ∀ nonceAccount nonceValue,
      request.message.advancedNonceAccount = some nonceAccount →
      request.message.recentBlockhash = nonceValue →
      request'.message.advancedNonceAccount = some nonceAccount →
      request'.message.recentBlockhash = nonceValue → request.message = request'.message
  /-- A submitted withdrawal carries the message passed to the signer for its binding. -/
  submitted : ∀ timestamp signature message signers burnIndices,
    ⟨timestamp, .submittedTransaction signature message signers (.withdrawal burnIndices)⟩ ∈
      config.canister.log →
    ∃ nonceAccount nonceValue,
      (∃ createdAt, ⟨createdAt,
        .createdWithdrawalTransaction burnIndices nonceAccount nonceValue⟩ ∈ config.canister.log) ∧
      message.advancedNonceAccount = some nonceAccount ∧ message.recentBlockhash = nonceValue ∧
      ∃ request ∈ config.signRequests, request.derivationPath = minterDerivationPath ∧
        request.message = message

/-- A request with the path of the minter is one for a withdrawal. -/
theorem Signs.withdrawal_of_path (h : config.Signs bindings) {request : SignRequest}
    (hmem : request ∈ config.signRequests)
    (hpath : request.derivationPath = minterDerivationPath) :
    ∃ withdrawal, request = .withdrawal withdrawal ∧
      BuiltFor config.canister.state bindings withdrawal := by
  cases request with
  | withdrawal withdrawal => exact ⟨withdrawal, rfl, h.requested hmem⟩
  | sweep planned signer =>
      obtain ⟨account, rfl⟩ := h.swept hmem
      exact absurd hpath (derivationPath_ne_minter account)

/-- The messages requested for withdrawals that carry one value of one nonce account are equal. -/
theorem Signs.message_unique [SolanaSdk.Lawful] (h : config.Signs bindings)
    {withdrawal withdrawal' : BoundWithdrawal} (hmem : .withdrawal withdrawal ∈ config.signRequests)
    (hmem' : .withdrawal withdrawal' ∈ config.signRequests)
    (haccount : withdrawal.message.advancedNonceAccount = withdrawal'.message.advancedNonceAccount)
    (hvalue : withdrawal.message.recentBlockhash = withdrawal'.message.recentBlockhash) :
    withdrawal.message = withdrawal'.message := by
  obtain ⟨binding, hbinding, -, -, hbuilds⟩ := h.requested hmem
  obtain ⟨binding', hbinding', -, -, hbuilds'⟩ := h.requested hmem'
  -- both messages name their bindings, so the bindings are the same
  rw [hbuilds.carries.1, hbuilds'.carries.1, Option.some.injEq] at haccount
  rw [hbuilds.carries.2, hbuilds'.carries.2] at hvalue
  obtain rfl := h.history.injective binding hbinding binding' hbinding' haccount hvalue
  exact hbuilds.unique hbuilds'

/-- In every run, upgrades and retries included, a nonce value of a nonce account is carried by one
message only, and that message is the one submitted for its binding. -/
theorem oneMessagePerNonce_of_run [SolanaSdk.Lawful] {minterId : Principal} {args : InitArgs}
    {actions : List (Timestamp × Action)}
    (h : runFrom minterId args now actions = some config) : config.OneMessagePerNonce := by
  obtain ⟨-, bindings, hsigns⟩ := signs_of_run h
  refine ⟨?_, ?_⟩
  · intro request hmem request' hmem' hpath hpath' nonceAccount nonceValue hcarries hvalue hcarries'
      hvalue'
    obtain ⟨withdrawal, rfl, -⟩ := hsigns.withdrawal_of_path hmem hpath
    obtain ⟨withdrawal', rfl, -⟩ := hsigns.withdrawal_of_path hmem' hpath'
    exact hsigns.message_unique hmem hmem' (hcarries.trans hcarries'.symm) (hvalue.trans hvalue'.symm)
  · intro timestamp signature message signers burnIndices hmem
    obtain ⟨binding, hbinding, rfl, hbuilds⟩ := hsigns.history.sent hmem
    obtain ⟨withdrawal, hrequest, -, hmessage⟩ := hsigns.submitted hmem
    exact ⟨binding.nonceAccount, binding.nonceValue, hsigns.history.logged binding hbinding,
      hbuilds.carries.1, hbuilds.carries.2, _, hrequest, rfl, hmessage⟩

end Config

end Signing

section Sample

attribute [local instance] Solana.sdk

/-- The first signature fails, the canister is upgraded, and the message is requested again. -/
def sampleRetry : List (Timestamp × Action) :=
  [(20, .withdraw sampleAccount 2_000_000 "11111111111111111111111111111116"),
    (21, .burned 0 (.blockIndex 3)),
    (22, .withdrawals .start), (23, .withdrawals (.nonceRead 0 (some ⟨7, 77⟩))),
    (24, .withdrawals .requestSignatures), (25, .upgrade none),
    (26, .withdrawals .start), (27, .withdrawals .requestSignatures),
    (28, .withdrawals (.signed 0 (some 6)))]

theorem Config.oneMessagePerNonce_sampleRetry :
    ∃ config, runFrom sampleMinterId sampleInitArgs 0 (sampleDeposit ++ sampleRetry) =
      some config ∧ config.signRequests.length = 3 ∧ config.OneMessagePerNonce := by
  obtain ⟨config, hrun, hlength⟩ : ∃ config,
      runFrom sampleMinterId sampleInitArgs 0 (sampleDeposit ++ sampleRetry) = some config ∧
      config.signRequests.length = 3 :=
    exists_of_any (by decide +kernel)
  have := Solana.lawful_sdk
  exact ⟨config, hrun, hlength, oneMessagePerNonce_of_run hrun⟩

end Sample

end Cksol
