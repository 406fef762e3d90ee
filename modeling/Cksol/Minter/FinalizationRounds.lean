import Cksol.Minter.Finalizing
import Cksol.Minter.SweepRounds
import Cksol.State.Conclusions

/-! # Finalization rounds

A round of `finalize_transactions` keeps snapshots of the submitted transactions and of the finalized
sweeps. Only the round itself concludes the ones and settles the others, each of them once, so whatever
the replies are, recording their outcomes does not panic.
-/

namespace Cksol

open Std

/-! ## Statuses -/

section Statuses

variable {transactions : OrdMap Signature BlockHeight} {currentBlockHeight : Option BlockHeight}
  {replies : List (Option (List (Option SignatureStatus)))}

theorem nodup_checkedStatuses (transactions : OrdMap Signature BlockHeight)
    (replies : List (Option (List (Option SignatureStatus)))) :
    ((checkedStatuses (statusBatches transactions) replies).map Prod.fst).Nodup := by
  have hbatches : (statusBatches transactions).flatten.Sublist transactions.keys := by
    have htake := (List.take_sublist maxConcurrentRpcCalls
      (chunks maxSignaturesPerStatusCheck transactions.keys)).flatten
    rwa [flatten_chunks (by decide)] at htake
  exact (OrdMap.nodup_keys transactions).sublist
    ((sublist_checkedStatuses _ replies).trans hbatches)

theorem concludedSignature_sweepStatusEvents :
    (sweepStatusEvents transactions currentBlockHeight replies).filterMap
      EventType.concludedSignature =
    (checkTransactionStatuses (statusBatches transactions) replies).errored.keys ++
      (checkTransactionStatuses (statusBatches transactions) replies).succeeded.toList ++
      expiredTransactions (checkTransactionStatuses (statusBatches transactions) replies).notFound
        transactions currentBlockHeight := by
  have hmap : ∀ (event : Signature → EventType) (signatures : List Signature),
      (∀ signature, (event signature).concludedSignature = some signature) →
      (signatures.map event).filterMap EventType.concludedSignature = signatures := by
    intro event signatures hevent
    rw [List.filterMap_map, funext hevent (f := EventType.concludedSignature ∘ event)]
    exact List.filterMap_some
  rw [sweepStatusEvents, List.filterMap_append, List.filterMap_append, hmap _ _ fun _ => rfl,
    hmap _ _ fun _ => rfl, hmap _ _ fun _ => rfl]

theorem sublist_expiredTransactions (notFound : OrdSet Signature) :
    (expiredTransactions notFound transactions currentBlockHeight).Sublist notFound.toList := by
  unfold expiredTransactions
  split
  · exact List.nil_sublist _
  · exact List.filter_sublist

/-- The events of one status check have different signatures. -/
theorem nodup_sweepStatusEvents :
    ((sweepStatusEvents transactions currentBlockHeight replies).filterMap
      EventType.concludedSignature).Nodup := by
  have hchecked := nodup_checkedStatuses transactions replies
  -- a signature was paired with one status
  have hstatus : ∀ {signature status status'},
      (signature, status) ∈ checkedStatuses (statusBatches transactions) replies →
      (signature, status') ∈ checkedStatuses (statusBatches transactions) replies →
      status = status' :=
    fun h h' => congrArg Prod.snd (List.inj_on_of_nodup_map hchecked h h' rfl)
  rw [concludedSignature_sweepStatusEvents, List.nodup_append, List.nodup_append]
  refine ⟨⟨OrdMap.nodup_keys _, OrdSet.nodup_toList _, ?_⟩,
    (OrdSet.nodup_toList _).sublist (sublist_expiredTransactions _), ?_⟩
  · rintro signature herrored _ hsucceeded rfl
    obtain ⟨err, herr⟩ := mem_checkTransactionStatuses.2.1.mp (ExtTreeMap.mem_keys.mp herrored)
    have hok := mem_checkTransactionStatuses.1.mp (ExtTreeSet.mem_toList.mp hsucceeded)
    cases hstatus herr hok
  · rintro signature hfinal _ hexpired rfl
    have hnone := mem_checkTransactionStatuses.2.2.mp
      (ExtTreeSet.mem_toList.mp ((sublist_expiredTransactions _).subset hexpired))
    rcases List.mem_append.mp hfinal with herrored | hsucceeded
    · obtain ⟨err, herr⟩ := mem_checkTransactionStatuses.2.1.mp (ExtTreeMap.mem_keys.mp herrored)
      cases hstatus herr hnone
    · have hok := mem_checkTransactionStatuses.1.mp (ExtTreeSet.mem_toList.mp hsucceeded)
      cases hstatus hok hnone

end Statuses

/-! ## Recording outcomes -/

section Outcomes

variable [SolanaSdk] {canister : Canister}

theorem settledSignature_creditEvent {payload : EventType} {signature : Signature} {sweep : Sweep}
    {reply : Option Sweep.FetchedTransaction}
    (h : creditEvent signature sweep reply = some payload) :
    payload.settledSignature = some signature := by
  rcases creditEvent_eq_some h with ⟨_, _, -, -, rfl⟩ | rfl <;> rfl

theorem sublist_creditEvents (sweeps : List (Signature × Sweep))
    (replies : List (Option Sweep.FetchedTransaction)) :
    ((creditEvents sweeps replies).filterMap EventType.settledSignature).Sublist
      (sweeps.map Prod.fst) := by
  have hevents : ((creditEvents sweeps replies).filterMap EventType.settledSignature).Sublist
      ((sweeps.zip replies).map fun entry => entry.1.1) := by
    rw [creditEvents, List.filterMap_filterMap]
    refine sublist_filterMap (fun entry signature hsignature => ?_) _
    obtain ⟨payload, hpayload, hsettled⟩ := Option.bind_eq_some_iff.mp hsignature
    rw [settledSignature_creditEvent hpayload] at hsettled
    exact (Option.some.inj hsettled).symm
  have hzip := (sublist_map_fst_zip sweeps replies).map Prod.fst
  rw [List.map_map] at hzip
  exact hevents.trans hzip

namespace Canister.Consistent

/-- The outcomes of different sweeps are recorded one after the other. -/
theorem exists_processEvents_conclude (h : canister.Consistent) {payloads : List EventType}
    (hnodup : (payloads.filterMap EventType.concludedSignature).Nodup)
    (hsweeps : ∀ payload ∈ payloads, ∃ signature,
      IsSweep canister.state.submittedTransactions signature ∧
      (payload = .failedTransaction signature ∨ payload = .succeededTransaction signature ∨
        payload = .expiredTransaction signature)) (now : Timestamp) :
    ∃ canister', canister.processEvents payloads now = .ok canister' := by
  have hconcluded {payload : EventType} {signature : Signature}
      (hpayload : payload = .failedTransaction signature ∨ payload = .succeededTransaction signature ∨
        payload = .expiredTransaction signature) :
      payload.concludedSignature = some signature := by
    rcases hpayload with rfl | rfl | rfl <;> rfl
  refine exists_foldlM_eq_ok (P := fun rest (reached : Canister) => reached.Consistent ∧
    (rest.filterMap EventType.concludedSignature).Nodup ∧ ∀ payload ∈ rest, ∃ signature,
      IsSweep reached.state.submittedTransactions signature ∧
      (payload = .failedTransaction signature ∨ payload = .succeededTransaction signature ∨
        payload = .expiredTransaction signature)) ⟨h, hnodup, hsweeps⟩ ?_
  rintro payload rest reached ⟨hreached, hnodup, hsweeps⟩
  obtain ⟨signature, ⟨blockHeight, hget⟩, hpayload⟩ := hsweeps payload List.mem_cons_self
  obtain ⟨next, hnext⟩ : ∃ next, reached.processEvent payload now = .ok next := by
    rcases hpayload with rfl | rfl | rfl
    · exact hreached.exists_failedTransaction hget now
    · exact hreached.exists_succeededTransaction hget now
    · exact hreached.exists_expiredTransaction hget now
  rw [List.filterMap_cons_some (hconcluded hpayload), List.nodup_cons] at hnodup
  refine ⟨next, hnext, hreached.processEvent hnext, hnodup.2, fun payload' hmem => ?_⟩
  obtain ⟨signature', ⟨blockHeight', hget'⟩, hpayload'⟩ :=
    hsweeps payload' (List.mem_cons_of_mem _ hmem)
  obtain ⟨state, happly, rfl⟩ := processEvent_eq_ok.mp hnext
  refine ⟨signature', ⟨blockHeight', ?_⟩, hpayload'⟩
  -- the events that follow are about other signatures
  refine (State.effect_of_apply happly).get_submitted hget' fun heq => hnodup.1 ?_
  rw [hconcluded hpayload] at heq
  exact List.mem_filterMap.mpr ⟨payload', hmem, by rw [hconcluded hpayload', heq]⟩

/-- Whatever was fetched for a submitted withdrawal, its outcome can be recorded. -/
theorem exists_processEvents_landed (h : canister.Consistent) {withdrawal : InFlightWithdrawal}
    (hget : canister.state.submittedTransactions.get withdrawal.signature =
      some (.withdrawal withdrawal.message withdrawal.nonceAccount withdrawal.nonceValue
        withdrawal.submittedAt))
    (reply : Option Sweep.FetchedTransaction) (now : Timestamp) :
    ∃ canister', canister.processEvents (landedWithdrawalEvent withdrawal reply).toList now =
      .ok canister' := by
  cases hpayload : landedWithdrawalEvent withdrawal reply with
  | none => exact ⟨canister, rfl⟩
  | some payload =>
      obtain ⟨canister', hevent⟩ : ∃ canister', canister.processEvent payload now =
          .ok canister' := by
        rcases Config.landedWithdrawalEvent_eq_some hpayload with rfl | rfl
        · exact h.exists_succeededTransaction hget now
        · exact h.exists_failedTransaction hget now
      exact ⟨canister', by simp [processEvents, hevent]⟩

/-- The settlements of different finalized sweeps are recorded one after the other. -/
theorem exists_processEvents_settle (h : canister.Consistent) (hfits : SumsFit canister.log)
    {payloads : List EventType} (hnodup : (payloads.filterMap EventType.settledSignature).Nodup)
    (hsweeps : ∀ payload ∈ payloads, ∃ signature sweep reply,
      canister.state.deposits.finalized.bySignature[signature]? = some sweep ∧
      creditEvent signature sweep reply = some payload) (now : Timestamp) :
    ∃ canister', canister.processEvents payloads now = .ok canister' := by
  obtain ⟨view, hview⟩ := h.deposits
  refine exists_foldlM_eq_ok (P := fun rest (reached : Canister) => reached.Consistent ∧
    (rest.filterMap EventType.settledSignature).Nodup ∧ ∀ payload ∈ rest, ∃ signature sweep reply,
      reached.state.deposits.finalized.bySignature[signature]? = some sweep ∧
      sweep.RecordedIn canister.log ∧ creditEvent signature sweep reply = some payload)
    ⟨h, hnodup, fun payload hpayload => ?_⟩ ?_
  · obtain ⟨signature, sweep, reply, hsweep, hcredit⟩ := hsweeps payload hpayload
    exact ⟨signature, sweep, reply, hsweep, hview.finalized hsweep, hcredit⟩
  · rintro payload rest reached ⟨hreached, hnodup, hsweeps⟩
    obtain ⟨signature, sweep, reply, hsweep, hrecorded, hpayload⟩ :=
      hsweeps payload List.mem_cons_self
    obtain ⟨next, hnext⟩ : ∃ next, reached.processEvent payload now = .ok next := by
      rcases creditEvent_eq_some hpayload with ⟨fetched, settled, -, hsettle, rfl⟩ | rfl
      · exact hreached.exists_creditedSweep hsweep hrecorded hfits hsettle now
      · exact exists_quarantinedSweep hsweep now
    rw [List.filterMap_cons_some (settledSignature_creditEvent hpayload), List.nodup_cons] at hnodup
    refine ⟨next, hnext, hreached.processEvent hnext, hnodup.2, fun payload' hmem => ?_⟩
    obtain ⟨signature', sweep', reply', hsweep', hrecorded', hpayload'⟩ :=
      hsweeps payload' (List.mem_cons_of_mem _ hmem)
    obtain ⟨state, happly, rfl⟩ := processEvent_eq_ok.mp hnext
    refine ⟨signature', sweep', reply', ?_, hrecorded', hpayload'⟩
    refine (State.effect_of_apply happly).get_finalized hsweep' fun heq => hnodup.1 ?_
    rw [settledSignature_creditEvent hpayload] at heq
    exact List.mem_filterMap.mpr ⟨payload', hmem, by rw [settledSignature_creditEvent hpayload', heq]⟩

end Canister.Consistent

end Outcomes

/-! ## What a round keeps -/

/-- The finalized sweeps that the round fetches. -/
def FinalizeRound.finalized : FinalizeRound → List (Signature × Sweep)
  | crediting sweeps => sweeps
  | _ => []

/-- The round keeps what the state still has, each transaction once. -/
structure FinalizeRound.Current (state : State) (round : FinalizeRound) : Prop where
  checked : ∀ (signature : Signature) (blockHeight : BlockHeight),
    round.checked[signature]? = some blockHeight →
    state.submittedTransactions.get signature = some (.sweepDeposit blockHeight)
  inFlight : ∀ withdrawal ∈ round.inFlight,
    state.submittedTransactions.get withdrawal.signature =
      some (.withdrawal withdrawal.message withdrawal.nonceAccount withdrawal.nonceValue
        withdrawal.submittedAt)
  nodup_inFlight : (round.inFlight.map InFlightWithdrawal.signature).Nodup
  finalized : ∀ entry ∈ round.finalized,
    state.deposits.finalized.bySignature[entry.1]? = some entry.2
  nodup_finalized : (round.finalized.map Prod.fst).Nodup

theorem nodup_inFlightWithdrawals {state : State}
    (hordered : state.submittedTransactions.Ordered) :
    (state.inFlightWithdrawals.map InFlightWithdrawal.signature).Nodup := by
  rw [State.inFlightWithdrawals, List.map_filterMap]
  refine hordered.nodup_iter.sublist (sublist_filterMap ?_ _)
  rintro ⟨signature, transaction⟩ signature' hsome
  cases transaction <;> simp_all

/-- Only finalization records outcomes and settlements. -/
theorem EventType.concludes_nothing (payload : EventType) (h : payload.isFinalization = false) :
    payload.concludedSignature = none ∧ payload.settledSignature = none := by
  cases payload <;> first | exact ⟨rfl, rfl⟩ | cases h

namespace FinalizeRound.Current

open Canister (Run)

variable [SolanaSdk] {state state' : State} {round round' : FinalizeRound}

omit [SolanaSdk] in
/-- A round that keeps less. -/
theorem mono (h : round.Current state)
    (hchecked : round'.checked = round.checked ∨ round'.checked = ∅)
    (hinFlight : round'.inFlight.Subperm round.inFlight)
    (hfinalized : round'.finalized.Sublist round.finalized) : round'.Current state := by
  refine ⟨?_, fun withdrawal hmem => h.inFlight _ (hinFlight.subset hmem), ?_,
    fun entry hmem => h.finalized _ (hfinalized.subset hmem),
    h.nodup_finalized.sublist (hfinalized.map _)⟩
  · rcases hchecked with hsame | hempty
    · rw [hsame]
      exact h.checked
    · rw [hempty]
      exact fun _ _ hnone => by simp at hnone
  · obtain ⟨withdrawals, hperm, hsublist⟩ := hinFlight
    exact ((hperm.map _).nodup_iff).mp (h.nodup_inFlight.sublist (hsublist.map _))

/-- An event about other transactions. -/
theorem effect (h : round.Current state) {timestamp : Timestamp} {payload : EventType}
    (heffect : state.Effect timestamp payload state')
    (hchecked : ∀ signature ∈ round.checked, payload.concludedSignature ≠ some signature)
    (hinFlight : ∀ withdrawal ∈ round.inFlight,
      payload.concludedSignature ≠ some withdrawal.signature)
    (hfinalized : ∀ entry ∈ round.finalized, payload.settledSignature ≠ some entry.1) :
    round.Current state' :=
  ⟨fun signature _ hget => heffect.get_submitted (h.checked _ _ hget)
      (hchecked signature (OrdMap.mem_iff_exists.mpr ⟨_, hget⟩)),
    fun _ hmem => heffect.get_submitted (h.inFlight _ hmem) (hinFlight _ hmem),
    h.nodup_inFlight,
    fun _ hmem => heffect.get_finalized (h.finalized _ hmem) (hfinalized _ hmem),
    h.nodup_finalized⟩

/-- The events of the other tasks are about no transaction of the round. -/
theorem run {Emits : State → Timestamp → EventType → Prop} {canister canister' : Canister}
    (h : round.Current canister.state) (hrun : Run Emits canister canister')
    (hemits : ∀ state t payload, Emits state t payload → payload.isFinalization = false) :
    round.Current canister'.state := by
  refine hrun.invariant (fun canister => round.Current canister.state) ?_ ?_ h
  · intro canister transient h
    exact ⟨h.checked, h.inFlight, h.nodup_inFlight, h.finalized, h.nodup_finalized⟩
  · intro state log now payload state' hpayload h heffect
    obtain ⟨hconcluded, hsettled⟩ := payload.concludes_nothing (hemits _ _ _ hpayload)
    refine h.effect heffect ?_ ?_ ?_ <;> simp [hconcluded, hsettled]

end FinalizeRound.Current

section Rounds

variable [SolanaSdk]

omit [SolanaSdk] in
theorem FinalizeRound.current_readInFlightNonces {state : State}
    (hordered : state.submittedTransactions.Ordered) : (readInFlightNonces state).Current state := by
  unfold readInFlightNonces
  split
  · exact ⟨by simp [FinalizeRound.checked], by simp [inFlight], by simp [inFlight],
      by simp [finalized], by simp [finalized]⟩
  · refine ⟨by simp [FinalizeRound.checked], fun withdrawal hmem => ?_, ?_, by simp [finalized],
      by simp [finalized]⟩
    · exact get_of_mem_inFlightWithdrawals (by simpa [inFlight] using hmem)
    · simpa [inFlight] using nodup_inFlightWithdrawals hordered

omit [SolanaSdk] in
theorem FinalizeRound.current_crediting (state : State) :
    (FinalizeRound.crediting state.sweepsToCredit).Current state := by
  refine ⟨by simp [FinalizeRound.checked], by simp [inFlight], by simp [inFlight], ?_, ?_⟩
  · intro entry hmem
    exact OrdMap.mem_toList_iff.mp (List.mem_of_mem_take hmem)
  · refine List.Nodup.sublist ((List.take_sublist _ _).map _) ?_
    rw [ExtTreeMap.map_fst_toList_eq_keys]
    exact OrdMap.nodup_keys _

omit [SolanaSdk] in
/-- A nonce read moves a withdrawal between the lists of the round, or drops it. -/
theorem FinalizeRound.subperm_noteNonceRead {minterAddress : Address}
    {withdrawals unchanged advanced : List InFlightWithdrawal} {withdrawal : InFlightWithdrawal}
    {position : ℕ} (hwithdrawal : withdrawals[position]? = some withdrawal)
    (read : Option NonceRead) :
    (noteNonceRead minterAddress (withdrawals.eraseIdx position) unchanged advanced withdrawal
      read).inFlight.Subperm (withdrawals ++ advanced) := by
  obtain ⟨hposition, rfl⟩ := List.getElem?_eq_some_iff.mp hwithdrawal
  have herase : (withdrawals.eraseIdx position ++ advanced).Sublist (withdrawals ++ advanced) :=
    (List.eraseIdx_sublist _ _).append_right _
  have hmove : (withdrawals.eraseIdx position ++ (advanced ++ [withdrawals[position]])).Perm
      (withdrawals ++ advanced) := by
    have hperm := (List.getElem_cons_eraseIdx_perm hposition).append_right advanced
    refine List.Perm.trans ?_ hperm
    rw [← List.append_assoc]
    exact List.perm_append_singleton _ _
  unfold noteNonceRead
  split
  · exact herase.subperm
  · exact hmove.subperm
  · exact herase.subperm
  · exact herase.subperm

/-- The messages of a round. -/
theorem FinalizeRound.Steps.current {canister canister' : Canister} {now : Timestamp}
    {before after : Option FinalizeRound} {action : FinalizeAction}
    (h : ∀ round ∈ before, round.Current canister.state)
    (hordered : canister'.state.submittedTransactions.Ordered)
    (hsteps : FinalizeRound.Steps canister now before action (canister', after)) :
    ∀ round ∈ after, round.Current canister'.state := by
  intro round hround
  cases hsteps with
  | startReading hstart =>
      obtain rfl := Option.some.inj hround
      have hsame := current_readInFlightNonces hordered
      rw [Canister.startTask_eq_some hstart] at hsame ⊢
      exact hsame
  | startChecking hstart =>
      obtain rfl := Option.some.inj hround
      rw [Canister.startTask_eq_some hstart]
      exact ⟨fun _ _ => get_of_getElem?_blockhashTransactions, by simp [inFlight],
        by simp [inFlight], by simp [finalized], by simp [finalized]⟩
  | block =>
      obtain rfl := Option.some.inj hround
      exact (h _ rfl).mono (.inl rfl) (.refl _) (.refl _)
  | checked hevents =>
      obtain rfl := Option.some.inj hround
      exact current_readInFlightNonces hordered
  | nonceRead hwithdrawal =>
      obtain rfl := Option.some.inj hround
      refine (h _ rfl).mono (.inr ?_) (subperm_noteNonceRead hwithdrawal _) ?_
      · unfold noteNonceRead
        split <;> rfl
      · unfold noteNonceRead
        split <;> exact .refl _
  | fetchLanded =>
      obtain rfl := Option.some.inj hround
      exact (h _ rfl).mono (.inl rfl) (.refl _) (.refl _)
  | @undecided withdrawals position =>
      obtain rfl := Option.some.inj hround
      exact (h _ rfl).mono (.inl rfl) (List.eraseIdx_sublist withdrawals position).subperm
        (.refl _)
  | @landed withdrawals withdrawal position _ payload _ hwithdrawal hpayload hevent =>
      obtain rfl := Option.some.inj hround
      obtain ⟨state, happly, rfl⟩ := Canister.processEvent_eq_ok.mp hevent
      have hcurrent : (FinalizeRound.finalizing (withdrawals.eraseIdx position)).Current
          canister.state :=
        (h _ rfl).mono (.inl rfl) (List.eraseIdx_sublist withdrawals position).subperm
        (.refl _)
      refine hcurrent.effect (State.effect_of_apply happly) (by simp [FinalizeRound.checked]) ?_
        (by simp [finalized])
      -- the other withdrawals have other signatures
      intro other hother
      obtain ⟨hposition, rfl⟩ := List.getElem?_eq_some_iff.mp hwithdrawal
      have hnodup := (((List.getElem_cons_eraseIdx_perm hposition).map
        InFlightWithdrawal.signature).nodup_iff).mpr (h _ rfl).nodup_inFlight
      have hne := (List.nodup_cons.mp hnodup).1
      have hother := List.mem_map_of_mem (f := InFlightWithdrawal.signature) hother
      rcases Config.landedWithdrawalEvent_eq_some hpayload with rfl | rfl <;>
        exact fun heq => hne (Option.some.inj heq ▸ hother)
  | fetchFinalized =>
      obtain rfl := Option.some.inj hround
      exact current_crediting _
  | credited hevents => cases hround
  | ended => cases hround

/-- The events that a round records for a reply. -/
def FinalizeRound.events : FinalizeRound → FinalizeAction → List EventType
  | .checkingStatuses transactions currentBlockHeight, .statuses replies =>
      sweepStatusEvents transactions currentBlockHeight replies
  | .finalizing withdrawals, .landed position reply =>
      (withdrawals[position]?.bind (landedWithdrawalEvent · reply)).toList
  | .crediting sweeps, .finalized replies => creditEvents sweeps replies
  | _, _ => []

theorem FinalizeRound.Steps.mem_log {canister canister' : Canister} {now : Timestamp}
    {before after : Option FinalizeRound} {action : FinalizeAction}
    (hsteps : FinalizeRound.Steps canister now before action (canister', after)) {event : Event}
    (h : event ∈ canister'.log) :
    event ∈ canister.log ∨ ∃ round, before = some round ∧ event.payload ∈ round.events action := by
  cases hsteps with
  | startReading hstart | startChecking hstart =>
      rw [Canister.startTask_eq_some hstart] at h
      exact .inl h
  | @checked transactions currentBlockHeight replies _ hevents =>
      have hrun : Canister.Run (fun _ _ payload => payload ∈ sweepStatusEvents transactions
          currentBlockHeight replies) canister canister' := .processEvents (fun _ hmem _ => hmem) hevents
      exact (hrun.mem_log h).imp_right fun ⟨_, hmem⟩ => ⟨_, rfl, hmem⟩
  | @landed withdrawals withdrawal position reply payload _ hwithdrawal hpayload hevent =>
      have hrun : Canister.Run (fun _ _ payload' => payload' = payload) canister canister' :=
        .event hevent rfl
      refine (hrun.mem_log h).imp_right fun ⟨_, heq⟩ => ⟨_, rfl, ?_⟩
      rw [FinalizeRound.events, hwithdrawal, Option.bind_some, hpayload, heq]
      exact List.mem_singleton_self _
  | @credited sweeps replies canister' hevents =>
      have hrun : Canister.Run (fun _ _ payload => payload ∈ creditEvents sweeps replies) canister
          canister' := .processEvents (fun _ hmem _ => hmem) hevents
      exact (hrun.mem_log h).imp_right fun ⟨_, hmem⟩ => ⟨_, rfl, hmem⟩
  | _ => exact .inl h

namespace Config

open Canister (Run)

variable {config config' : Config} {now : Timestamp} {action : Action}

/-- Outcomes and settlements come from the round of finalization in progress. -/
theorem Steps.mem_log_finalization (hsteps : config.Steps now action config')
    (hreplay : config.canister.Replayable) {event : Event} (h : event ∈ config'.canister.log)
    (hkind : event.payload.isFinalization) :
    event ∈ config.canister.log ∨ ∃ round reply, config.finalization = some round ∧
      action = .finalization reply ∧ event.payload ∈ round.events reply := by
  rcases (hsteps.run hreplay).mem_log h with hold | ⟨_, hrecords⟩
  · exact .inl hold
  obtain ⟨reply, rfl⟩ := hrecords.recordedBy.finalization hkind
  cases hsteps with
  | finalization hsteps =>
      exact (hsteps.mem_log h).imp_right fun ⟨round, hround, hmem⟩ => ⟨round, _, hround, rfl, hmem⟩
  | unchanged | withdrawEnded | depositSolEnded => exact .inl h

/-- The round of finalization in progress, if any, is current. -/
def FinalizationCurrent (config : Config) : Prop :=
  ∀ round ∈ config.finalization, round.Current config.canister.state

theorem FinalizationCurrent.steps (h : config.FinalizationCurrent) (hwellformed : config.Wellformed)
    (hordered : config'.canister.state.submittedTransactions.Ordered)
    (hsteps : config.Steps now action config') : config'.FinalizationCurrent := by
  have hrun := hsteps.run hwellformed.replayable
  cases hsteps with
  | finalization hsteps => exact hsteps.current h hordered
  | unchanged => exact h
  | upgraded => exact nofun
  | withdrawEnded =>
      intro round hmem
      exact (h round hmem).run (Run.dropWithdrawalGuard _ : Run (fun _ _ _ => False) _ _)
        fun _ _ _ => False.elim
  | depositSolEnded =>
      intro round hmem
      exact (h round hmem).run (Run.dropDepositSolGuard _ : Run (fun _ _ _ => False) _ _)
        fun _ _ _ => False.elim
  | _ =>
      intro round hmem
      refine (h round hmem).run hrun fun state t payload hrecords => ?_
      cases payload with
      | succeededTransaction | failedTransaction | expiredTransaction | creditedSweep
      | quarantinedSweep =>
          obtain ⟨step, heq⟩ := hrecords.recordedBy
          cases heq
      | _ => rfl

theorem consistent_of_run {minterId : Principal} {args : InitArgs}
    {actions : List (Timestamp × Action)} (h : runFrom minterId args now actions = some config) :
    config.canister.Consistent := by
  obtain ⟨-, initial, hinit, hrun⟩ := emits_of_run h
  exact (Canister.Consistent.of_init hinit).run hrun

theorem finalizationCurrent_of_run {minterId : Principal} {args : InitArgs}
    {actions : List (Timestamp × Action)} (h : runFrom minterId args now actions = some config) :
    config.FinalizationCurrent := by
  refine runFrom_induction (fun _ config => config.FinalizationCurrent) ?_ ?_ h
  · intro config hinit
    obtain ⟨canister, hcanister, rfl⟩ := init_eq_ok.mp hinit
    intro round hround
    cases hround
  · intro done config t action config' hdone hcurrent hsteps
    have hwellformed := wellformed_of_run hdone
    have hconsistent := (consistent_of_run hdone).run (hsteps.run hwellformed.replayable)
    exact hcurrent.steps hwellformed hconsistent.ordered hsteps

/-- Whatever is replied to the round of finalization in progress, the events it records are applied.
Settlements need that the lamport sums of the log fit in 64 bits. Every submission has at most one
outcome, and only what was submitted as a sweep expires. -/
structure FinalizationSafe (config : Config) : Prop where
  statuses : ∀ transactions currentBlockHeight,
    config.finalization = some (.checkingStatuses transactions currentBlockHeight) →
    ∀ replies now, ∃ canister', config.canister.processEvents
      (sweepStatusEvents transactions currentBlockHeight replies) now = .ok canister'
  landed : ∀ withdrawals, config.finalization = some (.finalizing withdrawals) →
    ∀ withdrawal ∈ withdrawals, ∀ reply now, ∃ canister', config.canister.processEvents
      (landedWithdrawalEvent withdrawal reply).toList now = .ok canister'
  credits : SumsFit config.canister.log →
    ∀ sweeps, config.finalization = some (.crediting sweeps) →
    ∀ replies now, ∃ canister',
      config.canister.processEvents (creditEvents sweeps replies) now = .ok canister'
  settles : SumsFit config.canister.log →
    ∀ (signature : Signature) (sweep : Sweep),
    config.canister.state.deposits.finalized.bySignature[signature]? = some sweep →
    ∀ fetched settled, sweep.settle fetched = .ok settled →
    ∀ now, ∃ canister', config.canister.processEvent
      (.creditedSweep signature settled.amountReceived settled.mints) now = .ok canister'
  once : ∀ signature, (concludedSignatures config.canister.log).count signature ≤
    (submittedSignatures config.canister.log).count signature
  expired : ∀ before timestamp signature,
    before ++ [⟨timestamp, .expiredTransaction signature⟩] <+: config.canister.log →
    signature ∈ sweepSignatures before ∧ signature ∉ withdrawalSignatures before

theorem finalizationSafe_of_run {minterId : Principal} {args : InitArgs}
    {actions : List (Timestamp × Action)} (h : runFrom minterId args now actions = some config) :
    config.FinalizationSafe := by
  have hcurrent := finalizationCurrent_of_run h
  have hconsistent := consistent_of_run h
  obtain ⟨-, initial, hinit, hrun⟩ := emits_of_run h
  constructor
  case statuses =>
    intro transactions currentBlockHeight hround replies t
    refine hconsistent.exists_processEvents_conclude nodup_sweepStatusEvents ?_ t
    intro payload hpayload
    obtain ⟨signature, hmem, hcases⟩ := mem_sweepStatusEvents hpayload
    obtain ⟨blockHeight, hheight⟩ := OrdMap.mem_iff_exists.mp hmem
    exact ⟨signature, ⟨blockHeight, (hcurrent _ hround).checked _ _ hheight⟩, hcases⟩
  case landed =>
    intro withdrawals hround withdrawal hmem
    exact hconsistent.exists_processEvents_landed ((hcurrent _ hround).inFlight _ hmem)
  case credits =>
    intro hfits sweeps hround replies t
    refine hconsistent.exists_processEvents_settle hfits
      ((hcurrent _ hround).nodup_finalized.sublist (sublist_creditEvents sweeps replies)) ?_ t
    intro payload hpayload
    obtain ⟨entry, hentry, reply, hcredit⟩ := mem_creditEvents hpayload
    exact ⟨entry.1, entry.2, reply, (hcurrent _ hround).finalized _ hentry, hcredit⟩
  case settles =>
    intro hfits signature sweep hsweep fetched settled hsettle
    obtain ⟨view, hview⟩ := hconsistent.deposits
    exact hconsistent.exists_creditedSweep hsweep (hview.finalized hsweep) hfits hsettle
  case once => exact ((SignatureHistory.of_init hinit).run hrun).count_concluded_le
  case expired => exact ((ExpiryHistory.of_init hinit).run hrun).expired

end Config

end Rounds

section Sample

attribute [local instance] Solana.sdk

/-- A round of finalization is about to settle the sweep of a deposit. -/
theorem Config.finalizationSafe_sampleManualDeposit :
    ∃ config, runFrom sampleMinterId sampleInitArgs 0 (sampleManualDeposit.take 12) = some config ∧
      (config.finalization.any (· matches .crediting [_]) ∧ SumsFit config.canister.log) ∧
      config.FinalizationSafe := by
  obtain ⟨config, hconfig, htest⟩ : ∃ config,
      runFrom sampleMinterId sampleInitArgs 0 (sampleManualDeposit.take 12) = some config ∧
      config.finalization.any (· matches .crediting [_]) ∧ SumsFit config.canister.log :=
    exists_of_any (by decide +kernel)
  exact ⟨config, hconfig, htest, finalizationSafe_of_run hconfig⟩

end Sample

end Cksol
