import Cksol.Minter.Finalizing

/-! # The nonce account as a landing oracle

The minter next to the nonce accounts on Solana. An account is only ever advanced by a landing
transaction that the minter signed and that carries the stored value; a read returns the current value
or any earlier one. The values that an account has stored are then the bound ones, followed by at most
one value that is not bound yet.
-/

namespace Cksol

variable {withdrawal : InFlightWithdrawal} {value : Hash}

/-- The last element of a list, and the elements before it. -/
theorem mem_dropLast_or_getLast? {α : Type} {l : List α} {a : α} (h : a ∈ l) :
    a ∈ l.dropLast ∨ l.getLast? = some a := by
  have hne := List.ne_nil_of_mem h
  rw [← List.dropLast_append_getLast hne, List.mem_append, List.mem_singleton] at h
  rcases h with h | rfl
  · exact .inl h
  · exact .inr (List.getLast?_eq_some_getLast hne)

theorem getLast?_ne_of_mem_dropLast {α : Type} {l : List α} {a : α} (hnodup : l.Nodup)
    (h : a ∈ l.dropLast) : l.getLast? ≠ some a := by
  intro hlast
  have happend := List.dropLast_append_getLast? a hlast
  rw [← happend] at hnodup
  exact List.disjoint_of_nodup_append hnodup h (List.mem_singleton_self a)

section NonceOracle

variable [SolanaSdk]

/-- The minter, the values that each nonce account has stored, the current one last, and the messages
that have landed. -/
structure NonceWorld where
  config : Config
  stored : Address → List Hash
  landed : List Message

/-- A message of the minter, or a landing on chain. -/
inductive NonceWorldAction where
  | minter (now : Timestamp) (action : Action)
  /-- The transaction with the message of the signing request at the position lands, and its nonce
  account advances to the next value. -/
  | land (position : ℕ) (nextValue : Hash)

/-- The nonce account that was read for a message of the minter, and the value that the read
returned. -/
def Config.nonceRead (config : Config) : Action → Option (Address × Hash)
  | .withdrawals (.nonceRead position (some account)) =>
      match config.withdrawals with
      | some (.creating _ batches) =>
          batches[position]?.map fun batch => (batch.nonceAccount, account.nonce)
      | _ => none
  | .finalization (.nonceRead position (some account)) =>
      match config.finalization with
      | some (.readingNonces _ withdrawals _ _) =>
          withdrawals[position]?.map fun withdrawal => (withdrawal.nonceAccount, account.nonce)
      | _ => none
  | _ => none

namespace NonceWorld

/-- The world after one action; `none` when the action is not possible. -/
def step (world : NonceWorld) : NonceWorldAction → Option NonceWorld
  | .minter now action =>
      if (world.config.nonceRead action).all fun read => read.2 ∈ world.stored read.1 then
        (world.config.step now action).map fun config => { world with config }
      else none
  | .land position nextValue => do
      let request ← world.config.signRequests[position]?
      let account ← request.message.advancedNonceAccount
      if request.derivationPath = minterDerivationPath ∧
          (world.stored account).getLast? = some request.message.recentBlockhash ∧
          nextValue ∉ world.stored account then
        some { world with
          stored := Function.update world.stored account (world.stored account ++ [nextValue])
          landed := world.landed ++ [request.message] }
      else none

/-- A run from the installation of the canister, when each nonce account stores one value. -/
def runFrom (initialValue : Address → Hash) (minterId : Principal) (args : InitArgs)
    (now : Timestamp) (actions : List NonceWorldAction) : Option NonceWorld :=
  Machine.runFrom step ((Config.init minterId args now).toOption.map fun config =>
    ⟨config, fun account => [initialValue account], []⟩) actions

end NonceWorld

/-! ## Withdrawals found landed -/

/-- The withdrawals whose nonce accounts a round has found advanced. -/
def FinalizeRound.foundLanded : FinalizeRound → List InFlightWithdrawal
  | readingNonces _ _ _ advanced => advanced
  | finalizing withdrawals => withdrawals
  | _ => []

/-- A round finds a withdrawal landed by a read that it classifies as advanced. -/
theorem FinalizeRound.Steps.foundLanded {canister canister' : Canister} {now : Timestamp}
    {before after : Option FinalizeRound} {action : FinalizeAction}
    (hsteps : FinalizeRound.Steps canister now before action (canister', after))
    {round : FinalizeRound} (hround : round ∈ after) (hmem : withdrawal ∈ round.foundLanded) :
    (∃ round' ∈ before, withdrawal ∈ round'.foundLanded) ∨
      ∃ address withdrawals unchanged advanced position data,
        before = some (.readingNonces address withdrawals unchanged advanced) ∧
        withdrawals[position]? = some withdrawal ∧
        action = .nonceRead position (some data) ∧
        canister.state.noncePool.classifyRead withdrawal.nonceAccount withdrawal.nonceValue
          data.nonce = .advanced := by
  have hread (state : State) : (readInFlightNonces state).foundLanded = [] := by
    unfold readInFlightNonces
    split <;> rfl
  cases hsteps with
  | startReading | checked =>
      obtain rfl := Option.some.inj hround
      rw [hread] at hmem
      cases hmem
  | @nonceRead address withdrawals unchanged advanced read position reply hwithdrawal =>
      obtain rfl := Option.some.inj hround
      unfold noteNonceRead at hmem
      split at hmem
      -- only a read that is classified as advanced adds to the list
      case h_2 hclass =>
        rcases List.mem_append.mp hmem with hold | hnew
        · exact .inl ⟨_, rfl, hold⟩
        · obtain rfl := List.mem_singleton.mp hnew
          cases reply with
          | none => cases hclass
          | some data =>
              simp only [readNonce, readVerifiedNonce] at hclass
              split at hclass
              · exact .inr ⟨address, withdrawals, unchanged, advanced, position, data, rfl, hwithdrawal,
                  rfl, Option.some.inj hclass⟩
              · cases hclass
      all_goals exact .inl ⟨_, rfl, hmem⟩
  | fetchLanded =>
      obtain rfl := Option.some.inj hround
      exact .inl ⟨_, rfl, hmem⟩
  | undecided =>
      obtain rfl := Option.some.inj hround
      exact .inl ⟨_, rfl, List.mem_of_mem_eraseIdx hmem⟩
  | landed =>
      obtain rfl := Option.some.inj hround
      exact .inl ⟨_, rfl, List.mem_of_mem_eraseIdx hmem⟩
  | credited => cases hround
  | ended => cases hround
  | _ =>
      obtain rfl := Option.some.inj hround
      cases hmem

namespace NonceWorld

variable {now : Timestamp} {account : Address} {action : Action}

/-! ## The invariant -/

/-- The values of an account are the bound ones, followed by at most one that is not bound. -/
structure Inv (world : NonceWorld) (bindings : List Binding) : Prop where
  tracks : world.config.Tracks bindings
  nodup : ∀ account, (world.stored account).Nodup
  seen_stored : ∀ {account value},
    world.config.canister.state.noncePool.hasSeen account value → value ∈ world.stored account
  earlier_seen : ∀ {account value}, value ∈ (world.stored account).dropLast →
    world.config.canister.state.noncePool.hasSeen account value
  /-- A bound current value is that of the transaction that holds the account. -/
  current_held : ∀ {account value}, (world.stored account).getLast? = some value →
    world.config.canister.state.noncePool.hasSeen account value →
    world.config.canister.state.HeldWith account value
  landed_earlier : ∀ message ∈ world.landed, ∀ {account},
    message.advancedNonceAccount = some account →
    message.recentBlockhash ∈ (world.stored account).dropLast
  earlier_landed : ∀ binding ∈ bindings,
    binding.nonceValue ∈ (world.stored binding.nonceAccount).dropLast →
    ∃ message ∈ world.landed, world.config.canister.state.Builds binding message
  found_landed : ∀ round ∈ world.config.finalization, ∀ withdrawal ∈ round.foundLanded,
    withdrawal.message ∈ world.landed

namespace Inv

variable {world : NonceWorld} {bindings : List Binding} {config' : Config}

/-- A stored value that is not bound is the current one. -/
theorem current_of_unseen (h : world.Inv bindings) {account : Address}
    (hstored : value ∈ world.stored account)
    (hunseen : ¬ world.config.canister.state.noncePool.hasSeen account value) :
    (world.stored account).getLast? = some value := by
  rcases mem_dropLast_or_getLast? hstored with hearlier | hcurrent
  · exact absurd (h.earlier_seen hearlier) hunseen
  · exact hcurrent

/-- A read classified as advanced means that the withdrawal has landed. -/
theorem landed_of_advanced (h : world.Inv bindings)
    (hflight : InFlight world.config.canister.state bindings withdrawal)
    (hstored : value ∈ world.stored withdrawal.nonceAccount)
    (hclass : world.config.canister.state.noncePool.classifyRead withdrawal.nonceAccount
      withdrawal.nonceValue value = .advanced) : withdrawal.message ∈ world.landed := by
  obtain ⟨binding, hbinding, haccount, hvalue, hbuilds⟩ := hflight.built
  unfold DurableNoncePool.classifyRead at hclass
  split at hclass
  case isTrue => cases hclass
  case isFalse hne =>
    split at hclass
    case isTrue => cases hclass
    case isFalse hunseen =>
      have hcurrent := h.current_of_unseen hstored hunseen
      have hseen : world.config.canister.state.noncePool.hasSeen withdrawal.nonceAccount
          withdrawal.nonceValue :=
        (h.tracks.signs.history.seen_iff _ _).mpr ⟨binding, hbinding, haccount, hvalue⟩
      -- the bound value is stored and no longer current
      rcases mem_dropLast_or_getLast? (h.seen_stored hseen) with hearlier | hlast
      · rw [← haccount, ← hvalue] at hearlier
        obtain ⟨message, hlanded, hbuilds'⟩ := h.earlier_landed binding hbinding hearlier
        rwa [hbuilds.unique hbuilds']
      · rw [hcurrent] at hlast
        exact absurd (Option.some.inj hlast) hne

/-- A message of the minter, up to what it does to the transactions that hold the accounts. -/
theorem minter (h : world.Inv bindings) {bindings' : List Binding}
    (hextends : bindings <+: bindings') (htracks : config'.Tracks bindings')
    (hkey : ∀ key, world.config.canister.state.minterPublicKey = some key →
      config'.canister.state.minterPublicKey = some key)
    (hseen : ∀ {account value}, world.config.canister.state.noncePool.hasSeen account value →
      config'.canister.state.noncePool.hasSeen account value)
    (hstored : ∀ {account value}, config'.canister.state.noncePool.hasSeen account value →
      value ∈ world.stored account)
    (hheld : ∀ {account value}, (world.stored account).getLast? = some value →
      config'.canister.state.noncePool.hasSeen account value →
      config'.canister.state.HeldWith account value)
    (hfound : ∀ round ∈ config'.finalization, ∀ withdrawal ∈ round.foundLanded,
      withdrawal.message ∈ world.landed) : { world with config := config' }.Inv bindings' where
  tracks := htracks
  nodup := h.nodup
  seen_stored := hstored
  earlier_seen hearlier := hseen (h.earlier_seen hearlier)
  current_held := hheld
  landed_earlier := h.landed_earlier
  earlier_landed binding hbinding hearlier := by
    -- a value that is no longer current was bound before
    obtain ⟨old, hold, haccount, hvalue⟩ :=
      (h.tracks.signs.history.seen_iff _ _).mp (h.earlier_seen hearlier)
    obtain rfl := htracks.signs.history.injective old (hextends.subset hold) binding hbinding
      haccount hvalue
    obtain ⟨message, hlanded, key, hrecorded, hbuilds⟩ := h.earlier_landed old hold hearlier
    exact ⟨message, hlanded, key, hkey key hrecorded, hbuilds⟩
  found_landed := hfound

/-- The transaction of a withdrawal that holds its account has not landed while its value is
current. -/
theorem not_current_of_landed [SolanaSdk.Lawful] (h : world.Inv bindings)
    (hflight : InFlight world.config.canister.state bindings withdrawal)
    (hlanded : withdrawal.message ∈ world.landed) :
    (world.stored withdrawal.nonceAccount).getLast? ≠ some withdrawal.nonceValue := by
  obtain ⟨binding, hbinding, haccount, hvalue, hbuilds⟩ := hflight.built
  have hearlier := h.landed_earlier _ hlanded (haccount ▸ hbuilds.carries.1)
  rw [hbuilds.carries.2, hvalue] at hearlier
  exact getLast?_ne_of_mem_dropLast (h.nodup _) hearlier

/-- A signed transaction lands, and its nonce account advances. -/
theorem land [SolanaSdk.Lawful] (h : world.Inv bindings) {request : SignRequest} {account : Address}
    {nextValue : Hash} (hrequest : request ∈ world.config.signRequests)
    (hpath : request.derivationPath = minterDerivationPath)
    (haccount : request.message.advancedNonceAccount = some account)
    (hcurrent : (world.stored account).getLast? = some request.message.recentBlockhash)
    (hnext : nextValue ∉ world.stored account) {stored : Address → List Hash}
    (hadvanced : stored account = world.stored account ++ [nextValue])
    (hother : ∀ a, a ≠ account → stored a = world.stored a) :
    Inv ⟨world.config, stored, world.landed ++ [request.message]⟩ bindings := by
  obtain ⟨withdrawal, rfl, binding, hbinding, -, -, hbuilds⟩ :=
    h.tracks.signs.withdrawal_of_path hrequest hpath
  obtain ⟨hcarries, hvalue⟩ := hbuilds.carries
  obtain rfl : binding.nonceAccount = account := Option.some.inj (hcarries.symm.trans haccount)
  have hseen : world.config.canister.state.noncePool.hasSeen binding.nonceAccount
      binding.nonceValue :=
    (h.tracks.signs.history.seen_iff _ _).mpr ⟨binding, hbinding, rfl, rfl⟩
  rw [SignRequest.message, hvalue] at hcurrent
  -- what was stored before is exactly what precedes the next value
  have hdropLast : (stored binding.nonceAccount).dropLast = world.stored binding.nonceAccount := by
    rw [hadvanced, List.dropLast_concat]
  have hearlier (value : Hash) (hmem : value ∈ world.stored binding.nonceAccount) :
      value ∈ (world.stored binding.nonceAccount).dropLast ∨ value = binding.nonceValue := by
    rcases mem_dropLast_or_getLast? hmem with hearlier | hlast
    · exact .inl hearlier
    · rw [hcurrent] at hlast
      exact .inr (Option.some.inj hlast).symm
  refine ⟨h.tracks, ?_, ?_, ?_, ?_, ?_, ?_, ?_⟩
  all_goals dsimp only
  · intro a
    by_cases heq : a = binding.nonceAccount
    · rw [heq, hadvanced, ← List.concat_eq_append]
      exact List.Nodup.concat hnext (h.nodup _)
    · rw [hother a heq]
      exact h.nodup a
  · intro a value hold
    by_cases heq : a = binding.nonceAccount
    · subst heq
      rw [hadvanced]
      exact List.mem_append_left _ (h.seen_stored hold)
    · rw [hother a heq]
      exact h.seen_stored hold
  · intro a value hmem
    by_cases heq : a = binding.nonceAccount
    · subst heq
      rw [hdropLast] at hmem
      rcases hearlier value hmem with hbefore | rfl
      · exact h.earlier_seen hbefore
      · exact hseen
    · rw [hother a heq] at hmem
      exact h.earlier_seen hmem
  · intro a value hlast hold
    by_cases heq : a = binding.nonceAccount
    · -- the next value is not bound yet
      subst heq
      rw [hadvanced, List.getLast?_concat] at hlast
      obtain rfl := Option.some.inj hlast
      exact absurd (h.seen_stored hold) hnext
    · rw [hother a heq] at hlast
      exact h.current_held hlast hold
  · intro message hmem a ha
    by_cases heq : a = binding.nonceAccount
    · subst heq
      rw [hdropLast]
      rcases List.mem_append.mp hmem with hold | hnew
      · exact List.dropLast_subset _ (h.landed_earlier message hold ha)
      · obtain rfl := List.mem_singleton.mp hnew
        rw [SignRequest.message, hvalue]
        exact h.seen_stored hseen
    · rw [hother a heq]
      rcases List.mem_append.mp hmem with hold | hnew
      · exact h.landed_earlier message hold ha
      · obtain rfl := List.mem_singleton.mp hnew
        exact absurd (Option.some.inj (hcarries.symm.trans ha)).symm heq
  · intro other hbinding' hmem
    by_cases heq : other.nonceAccount = binding.nonceAccount
    · rw [heq, hdropLast] at hmem
      rcases hearlier _ hmem with hbefore | hsame
      · rw [← heq] at hbefore
        obtain ⟨message, hlanded, hbuilt⟩ := h.earlier_landed other hbinding' hbefore
        exact ⟨message, List.mem_append_left _ hlanded, hbuilt⟩
      · obtain rfl := h.tracks.signs.history.injective other hbinding' binding hbinding heq hsame
        exact ⟨_, List.mem_append_right _ (List.mem_singleton_self _), hbuilds⟩
    · rw [hother _ heq] at hmem
      obtain ⟨message, hlanded, hbuilt⟩ := h.earlier_landed other hbinding' hmem
      exact ⟨message, List.mem_append_left _ hlanded, hbuilt⟩
  · intro round hround withdrawal' hmem
    exact List.mem_append_left _ (h.found_landed round hround withdrawal' hmem)

/-- What the rounds of a step have found landed has landed. -/
theorem found_landed_of_steps (h : world.Inv bindings) {now : Timestamp} {action : Action}
    (hadmits : ∀ read ∈ world.config.nonceRead action, read.2 ∈ world.stored read.1)
    (hsteps : world.config.Steps now action config') :
    ∀ round ∈ config'.finalization, ∀ withdrawal ∈ round.foundLanded,
      withdrawal.message ∈ world.landed := by
  cases hsteps with
  | finalization hsteps =>
      intro round hround withdrawal hmem
      rcases hsteps.foundLanded hround hmem with ⟨round', hround', hmem'⟩ |
        ⟨address, withdrawals, unchanged, advanced, position, data, hbefore, hwithdrawal, rfl, hclass⟩
      · exact h.found_landed round' hround' withdrawal hmem'
      · have hflight := (h.tracks.finalization _ hbefore).inFlight withdrawal
          (List.mem_append_left _ (List.mem_of_getElem? hwithdrawal))
        refine h.landed_of_advanced hflight (hadmits (withdrawal.nonceAccount, data.nonce) ?_) hclass
        simp [Config.nonceRead, hbefore, hwithdrawal]
  | upgraded => exact fun _ hround => by cases hround
  | _ => exact h.found_landed

omit [SolanaSdk] in
/-- The value that a round binds was read from the account. -/
theorem stored_of_read {address : Address} {batches : List ReservedBatch} {batch : ReservedBatch}
    {position : ℕ} {reply : Option NonceAccountData} {nonceValue : Hash}
    (hadmits : ∀ read ∈ world.config.nonceRead (.withdrawals (.nonceRead position reply)),
      read.2 ∈ world.stored read.1)
    (hround : world.config.withdrawals = some (.creating address batches))
    (hbatch : batches[position]? = some batch)
    (hread : readVerifiedNonce reply address = some nonceValue) :
    nonceValue ∈ world.stored batch.nonceAccount := by
  cases reply with
  | none => cases hread
  | some data =>
      simp only [readVerifiedNonce] at hread
      split at hread
      · obtain rfl := Option.some.inj hread
        refine hadmits (batch.nonceAccount, data.nonce) ?_
        simp [Config.nonceRead, hround, hbatch]
      · cases hread

/-- Every message of the minter keeps the invariant, as long as reads return stored values. -/
theorem steps [SolanaSdk.Lawful] (h : world.Inv bindings) (hwellformed : world.config.Wellformed)
    {now : Timestamp} {action : Action}
    (hadmits : ∀ read ∈ world.config.nonceRead action, read.2 ∈ world.stored read.1)
    (hsteps : world.config.Steps now action config') :
    ∃ bindings', { world with config := config' }.Inv bindings' := by
  obtain ⟨bindings', hextends, htracks⟩ := h.tracks.steps hwellformed hsteps
  have hrun := hsteps.run hwellformed.replayable
  have hfound := h.found_landed_of_steps hadmits hsteps
  have hkey (key : SchnorrPublicKey)
      (hrecorded : world.config.canister.state.minterPublicKey = some key) :
      config'.canister.state.minterPublicKey = some key := hrun.minterPublicKey hrecorded
  -- a quiet run changes neither the seen values nor what holds the accounts
  have hquiet (hquiet : Canister.Run Quiet world.config.canister config'.canister) :
      { world with config := config' }.Inv bindings' := by
    have hseen := hasSeen_of_quiet hquiet
    refine h.minter hextends htracks hkey (fun hold => (hseen _ _).mpr hold)
      (fun hnew => h.seen_stored ((hseen _ _).mp hnew)) ?_ hfound
    intro account value hlast hnew
    exact (h.current_held hlast ((hseen _ _).mp hnew)).run hquiet
  refine ⟨bindings', ?_⟩
  cases hsteps.nonceEffect hwellformed h.tracks.finalization with
  | quiet hrun => exact hquiet hrun
  | binds hround hbatch hread hunseen hevent =>
      have hstored := stored_of_read hadmits hround hbatch hread
      have hcurrent := h.current_of_unseen hstored hunseen
      obtain ⟨state, happly, hcanister⟩ := Canister.processEvent_eq_ok.mp hevent
      have heffect := State.effect_of_apply happly
      obtain ⟨hbound, hothers⟩ := State.HeldWith.bind heffect
      have hseen := State.hasSeen_of_effect heffect
      rw [show state = config'.canister.state by rw [hcanister]] at hseen
      refine h.minter hextends htracks hkey (fun hold => (hseen _ _).mpr (.inl hold)) ?_ ?_ hfound
      · intro account value hnew
        rcases (hseen account value).mp hnew with hold | ⟨burnIndices, heq⟩
        · exact h.seen_stored hold
        · obtain ⟨-, rfl, rfl⟩ := EventType.createdWithdrawalTransaction.inj heq
          exact hstored
      · intro account value hlast hnew
        rw [hcanister]
        rcases (hseen account value).mp hnew with hold | ⟨burnIndices, heq⟩
        · refine hothers account value ?_ (h.current_held hlast hold)
          rintro rfl
          rw [hcurrent] at hlast
          obtain rfl := Option.some.inj hlast
          exact hunseen hold
        · obtain ⟨-, rfl, rfl⟩ := EventType.createdWithdrawalTransaction.inj heq
          exact hbound
  | @releases withdrawals withdrawal position reply payload hround hwithdrawal hget hpayload hevent =>
      have hmem := List.mem_of_getElem? hwithdrawal
      have hflight := (h.tracks.finalization _ hround).inFlight withdrawal hmem
      have hlanded := h.found_landed _ hround withdrawal hmem
      obtain ⟨state, happly, hcanister⟩ := Canister.processEvent_eq_ok.mp hevent
      have heffect := State.effect_of_apply happly
      have hseen (account : Address) (value : Hash) :
          config'.canister.state.noncePool.hasSeen account value ↔
            world.config.canister.state.noncePool.hasSeen account value := by
        rw [hcanister, State.hasSeen_of_effect heffect, or_iff_left]
        rintro ⟨burnIndices, heq⟩
        rcases hpayload with rfl | rfl <;> cases heq
      refine h.minter hextends htracks hkey (fun hold => (hseen _ _).mpr hold)
        (fun hnew => h.seen_stored ((hseen _ _).mp hnew)) ?_ hfound
      intro account value hlast hnew
      have hheld := h.current_held hlast ((hseen _ _).mp hnew)
      rw [hcanister]
      refine State.HeldWith.release hget heffect hpayload ?_ hheld
      -- the released account has advanced beyond the value of the withdrawal
      rintro rfl
      obtain rfl := hheld.eq_of_submitted hwellformed.tables.nonces hget
      exact h.not_current_of_landed hflight hlanded hlast

end Inv

/-! ## Runs -/

variable {world world' : NonceWorld}

/-- A step of the minter: a message that a task or a caller sends, whose nonce read, if it is one,
returned a stored value. -/
theorem step_minter_eq_some :
    world.step (.minter now action) = some world' ↔
      (∀ read ∈ world.config.nonceRead action, read.2 ∈ world.stored read.1) ∧
        ∃ config', world.config.step now action = some config' ∧
          world' = { world with config := config' } := by
  simp only [step]
  cases world.config.nonceRead action with
  | none => simp [eq_comm]
  | some read => simp [eq_comm]

theorem step_land_eq_some {position : ℕ} {nextValue : Hash} :
    world.step (.land position nextValue) = some world' ↔
      ∃ request account, world.config.signRequests[position]? = some request ∧
        request.message.advancedNonceAccount = some account ∧
        request.derivationPath = minterDerivationPath ∧
        (world.stored account).getLast? = some request.message.recentBlockhash ∧
        nextValue ∉ world.stored account ∧
        world' = { world with
          stored := Function.update world.stored account (world.stored account ++ [nextValue])
          landed := world.landed ++ [request.message] } := by
  simp only [step, Option.bind_eq_bind, Option.bind_eq_some_iff, Option.ite_none_right_eq_some,
    Option.some.injEq]
  grind

theorem Inv.step [SolanaSdk.Lawful] {bindings : List Binding} {action : NonceWorldAction}
    (h : world.Inv bindings) (hwellformed : world.config.Wellformed)
    (hstep : world.step action = some world') :
    world'.config.Wellformed ∧ ∃ bindings', world'.Inv bindings' := by
  cases action with
  | minter now action =>
      obtain ⟨hadmits, config', hconfig, rfl⟩ := step_minter_eq_some.mp hstep
      have hsteps := Config.steps_of_step hconfig
      exact ⟨hwellformed.steps hsteps, h.steps hwellformed hadmits hsteps⟩
  | land position nextValue =>
      obtain ⟨request, account, hrequest, haccount, hpath, hcurrent, hnext, rfl⟩ :=
        step_land_eq_some.mp hstep
      refine ⟨hwellformed, bindings, h.land (List.mem_of_getElem? hrequest) hpath haccount hcurrent
        hnext (Function.update_self ..) ?_⟩
      exact fun other hne => Function.update_of_ne hne ..

theorem inv_of_init {config : Config} {minterId : Principal} {args : InitArgs}
    (h : Config.init minterId args now = .ok config) (initialValue : Address → Hash) :
    Inv ⟨config, fun account => [initialValue account], []⟩ [] where
  tracks := Config.tracks_of_init h
  nodup _ := List.nodup_singleton _
  seen_stored hseen := by
    obtain ⟨binding, hbinding, -⟩ := ((Config.tracks_of_init h).signs.history.seen_iff _ _).mp hseen
    cases hbinding
  earlier_seen hearlier := by cases hearlier
  current_held _ hseen := by
    obtain ⟨binding, hbinding, -⟩ := ((Config.tracks_of_init h).signs.history.seen_iff _ _).mp hseen
    cases hbinding
  landed_earlier _ hlanded := by cases hlanded
  earlier_landed _ hbinding := by cases hbinding
  found_landed round hround := by
    obtain ⟨canister, -, rfl⟩ := Config.init_eq_ok.mp h
    cases hround

theorem inv_of_run [SolanaSdk.Lawful] {initialValue : Address → Hash} {minterId : Principal}
    {args : InitArgs} {actions : List NonceWorldAction}
    (h : runFrom initialValue minterId args now actions = some world) :
    world.config.Wellformed ∧ ∃ bindings, world.Inv bindings := by
  refine Machine.runFrom_induction (fun _ world => world.config.Wellformed ∧
    ∃ bindings, world.Inv bindings) ?_ ?_ h
  · intro world hworld
    obtain ⟨config, hconfig, rfl⟩ := Option.map_eq_some_iff.mp hworld
    have hinit := toOption_eq_some.mp hconfig
    exact ⟨Config.wellformed_of_init hinit, [], inv_of_init hinit initialValue⟩
  · rintro _ world action world' - ⟨hwellformed, bindings, hinv⟩ hstep
    exact hinv.step hwellformed hstep

/-! ## The oracle -/

/-- A withdrawal that a round of `finalize_transactions` reads the nonce account for, or is about
to. -/
def ReadsFor (world : NonceWorld) (withdrawal : InFlightWithdrawal) : Prop :=
  withdrawal ∈ world.config.canister.state.inFlightWithdrawals ∨
    ∃ minterAddress withdrawals unchanged advanced,
      world.config.finalization = some (.readingNonces minterAddress withdrawals unchanged advanced) ∧
        withdrawal ∈ withdrawals

/-- What the minter concludes from its nonce accounts is true on Solana. -/
structure OracleSound (world : NonceWorld) : Prop where
  /-- A created transaction binds the current value of its account. -/
  binds_current : ∀ {now : Timestamp} {action : Action} {world' : NonceWorld} {recorded : List Event},
    world.step (.minter now action) = some world' →
    world'.config.canister.log = world.config.canister.log ++ recorded →
    ∀ {timestamp : Timestamp} {burnIndices : List LedgerBurnIndex} {account : Address} {value : Hash},
    ⟨timestamp, .createdWithdrawalTransaction burnIndices account value⟩ ∈ recorded →
    (world.stored account).getLast? = some value
  /-- A withdrawal has landed when any read of its account, however old, is one of an advance. -/
  advanced_landed : ∀ withdrawal, world.ReadsFor withdrawal →
    ∀ value ∈ world.stored withdrawal.nonceAccount,
    world.config.canister.state.noncePool.classifyRead withdrawal.nonceAccount withdrawal.nonceValue
      value = .advanced → withdrawal.message ∈ world.landed
  /-- An account becomes free only once the transaction bound to it has landed. -/
  freed_landed : ∀ {now : Timestamp} {action : Action} {world' : NonceWorld} {account : Address}
    {seen seen' : OrdSet Hash}, world.step (.minter now action) = some world' →
    world.config.canister.state.noncePool.accounts[account]? = some ⟨.bound, seen⟩ →
    world'.config.canister.state.noncePool.accounts[account]? = some ⟨.free, seen'⟩ →
    ∃ signature message value submittedAt,
      world.config.canister.state.submittedTransactions.get signature =
        some (.withdrawal message account value submittedAt) ∧ message ∈ world.landed

variable {bindings : List Binding}

/-- The account is in use exactly while a transaction holds it. -/
theorem exists_heldWith_iff {config : Config} (hwellformed : config.Wellformed) :
    (∃ value, config.canister.state.HeldWith account value) ↔
      ∃ seen, config.canister.state.noncePool.accounts[account]? = some ⟨.bound, seen⟩ := by
  constructor
  · rintro ⟨value, reference, hrefers, -⟩
    obtain ⟨seen, hbound, -⟩ := hwellformed.tables.nonces.bound hrefers
    exact ⟨seen, hbound⟩
  · rintro ⟨seen, hbound⟩
    obtain ⟨reference, hrefers⟩ := hwellformed.tables.nonces.referred hbound
    exact ⟨_, reference, hrefers, rfl⟩

/-- The value of a new binding was read by the round that created it, and was not bound before. -/
theorem Inv.binds_current (h : world.Inv bindings) (hwellformed : world.config.Wellformed)
    {config' : Config} {recorded : List Event}
    (hadmits : ∀ read ∈ world.config.nonceRead action, read.2 ∈ world.stored read.1)
    (hsteps : world.config.Steps now action config')
    (hlog : config'.canister.log = world.config.canister.log ++ recorded) {timestamp : Timestamp}
    {burnIndices : List LedgerBurnIndex}
    (hmem : ⟨timestamp, .createdWithdrawalTransaction burnIndices account value⟩ ∈ recorded) :
    (world.stored account).getLast? = some value := by
  cases hsteps.nonceEffect hwellformed h.tracks.finalization with
  | quiet hrun =>
      obtain ⟨new, hnew, hquiet⟩ := hrun.log_append
      obtain rfl := List.append_cancel_left (hnew.symm.trans hlog)
      obtain ⟨state, hcreates, -⟩ := hquiet _ hmem
      exact absurd rfl (hcreates burnIndices account value)
  | binds hround hbatch hread hunseen hevent =>
      obtain ⟨state, -, hcanister⟩ := Canister.processEvent_eq_ok.mp hevent
      rw [hcanister] at hlog
      obtain rfl := List.append_cancel_left hlog
      obtain ⟨rfl, rfl, rfl, rfl⟩ : timestamp = now ∧ _ := by simpa using hmem
      exact h.current_of_unseen (Inv.stored_of_read hadmits hround hbatch hread) hunseen
  | releases hround hwithdrawal hget hpayload hevent =>
      obtain ⟨state, -, hcanister⟩ := Canister.processEvent_eq_ok.mp hevent
      rw [hcanister] at hlog
      obtain rfl := List.append_cancel_left hlog
      rcases hpayload with rfl | rfl <;> simp at hmem

/-- The only message that takes an account from its transaction is one that finalizes it. -/
theorem Inv.freed_landed (h : world.Inv bindings) (hwellformed : world.config.Wellformed)
    {config' : Config} (hsteps : world.config.Steps now action config')
    (hheld : world.config.canister.state.HeldWith account value)
    (hfreed : ¬ ∃ value, config'.canister.state.HeldWith account value) :
    ∃ signature message submittedAt,
      world.config.canister.state.submittedTransactions.get signature =
        some (.withdrawal message account value submittedAt) ∧ message ∈ world.landed := by
  cases hsteps.nonceEffect hwellformed h.tracks.finalization with
  | quiet hrun => exact absurd ⟨value, hheld.run hrun⟩ hfreed
  | @binds address batches batch position reply nonceValue _ _ _ _ hevent =>
      obtain ⟨state, happly, hcanister⟩ := Canister.processEvent_eq_ok.mp hevent
      rw [hcanister] at hfreed
      obtain ⟨hbound, hothers⟩ := State.HeldWith.bind (State.effect_of_apply happly)
      by_cases heq : account = batch.nonceAccount
      · exact absurd ⟨nonceValue, heq ▸ hbound⟩ hfreed
      · exact absurd ⟨value, hothers account value heq hheld⟩ hfreed
  | @releases withdrawals withdrawal position reply payload hround hwithdrawal hget hpayload hevent =>
      have hlanded := h.found_landed _ hround withdrawal (List.mem_of_getElem? hwithdrawal)
      obtain ⟨state, happly, hcanister⟩ := Canister.processEvent_eq_ok.mp hevent
      rw [hcanister] at hfreed
      by_cases heq : account = withdrawal.nonceAccount
      · subst heq
        obtain rfl := hheld.eq_of_submitted hwellformed.tables.nonces hget
        exact ⟨withdrawal.signature, withdrawal.message, withdrawal.submittedAt, hget, hlanded⟩
      · have heffect := State.effect_of_apply happly
        exact absurd ⟨value, hheld.release hget heffect hpayload heq⟩ hfreed

/-- In every run of the minter next to its nonce accounts, whatever reads are stale, the accounts tell
which withdrawals have landed. -/
theorem oracleSound_of_run [SolanaSdk.Lawful] {initialValue : Address → Hash} {minterId : Principal}
    {args : InitArgs} {now : Timestamp} {actions : List NonceWorldAction}
    (h : runFrom initialValue minterId args now actions = some world) : world.OracleSound := by
  obtain ⟨hwellformed, bindings, hinv⟩ := inv_of_run h
  refine ⟨?_, ?_, ?_⟩
  · intro now action world' recorded hstep hlog timestamp burnIndices account value hmem
    obtain ⟨hadmits, config', hconfig, rfl⟩ := step_minter_eq_some.mp hstep
    exact hinv.binds_current hwellformed hadmits (Config.steps_of_step hconfig) hlog hmem
  · intro withdrawal hreads value hstored hclass
    refine hinv.landed_of_advanced ?_ hstored hclass
    rcases hreads with hmem | ⟨address, withdrawals, unchanged, advanced, hround, hmem⟩
    · exact inFlight_of_mem hinv.tracks.signs.history hmem
    · exact (hinv.tracks.finalization _ hround).inFlight withdrawal (List.mem_append_left _ hmem)
  · intro now action world' account seen seen' hstep hbound hfree
    obtain ⟨-, config', hconfig, rfl⟩ := step_minter_eq_some.mp hstep
    have hsteps := Config.steps_of_step hconfig
    obtain ⟨value, hheld⟩ := (exists_heldWith_iff hwellformed).mpr ⟨seen, hbound⟩
    obtain ⟨signature, message, submittedAt, hget, hlanded⟩ :=
      hinv.freed_landed hwellformed hsteps hheld fun hheld' => by
        obtain ⟨seen, hbound'⟩ := (exists_heldWith_iff (hwellformed.steps hsteps)).mp hheld'
        rw [hfree] at hbound'
        simp at hbound'
    exact ⟨signature, message, value, submittedAt, hget, hlanded⟩

end NonceWorld

end NonceOracle

/-! ## A landing behind stale reads -/

section Sample

attribute [local instance] Solana.sdk

/-- The account first stores the bound value. The withdrawal lands after a first round, whose read is
still of that value, and is finalized by the second round. -/
def sampleLanding : List NonceWorldAction :=
  (sampleDeposit ++ sampleWithdrawal).map (fun entry => .minter entry.1 entry.2) ++
    [.minter 30 (.finalization .start), .minter 31 (.finalization (.nonceRead 0 (some ⟨7, 77⟩))),
      .land 1 78, .minter 32 (.finalization .trap),
      .minter 40 (.finalization .start), .minter 41 (.finalization (.nonceRead 0 (some ⟨7, 78⟩))),
      .minter 42 (.finalization .fetchLanded)]

theorem NonceWorld.oracleSound_sampleLanding :
    ∃ world, runFrom (fun _ => 77) sampleMinterId sampleInitArgs 0 sampleLanding = some world ∧
      world.landed.length = 1 ∧ world.OracleSound := by
  obtain ⟨world, hrun, hlength⟩ : ∃ world,
      runFrom (fun _ => 77) sampleMinterId sampleInitArgs 0 sampleLanding = some world ∧
      world.landed.length = 1 :=
    exists_of_any (by decide +kernel)
  have := Solana.lawful_sdk
  exact ⟨world, hrun, hlength, oracleSound_of_run hrun⟩

end Sample

end Cksol
