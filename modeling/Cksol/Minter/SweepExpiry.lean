import Cksol.Minter.FinalizationRounds
import Cksol.Minter.World
import Cksol.Solana.Chain

/-! # Expired sweeps

A sweep is only dropped as expired when it had no status after a final height was read, at which its
blockhash was too old. Whatever blocks are produced and abandoned meanwhile, such a sweep has not landed
and never will.
-/

namespace Cksol

open Std
open Canister (Run)

variable {transactions : OrdMap Signature BlockHeight} {signature : Signature}

/-! ## Where expiries and sweeps come from -/

section Inversion

variable [SolanaSdk]

theorem Canister.Run.sweep_submitted {Emits : State → Timestamp → EventType → Prop}
    {canister canister' : Canister} (hrun : Run Emits canister canister')
    {blockHeight : BlockHeight}
    (h : canister'.state.submittedTransactions.get signature = some (.sweepDeposit blockHeight)) :
    canister.state.submittedTransactions.get signature = some (.sweepDeposit blockHeight) ∨
      ∃ state t message signers depositIds, Emits state t
        (.submittedTransaction signature message signers (.sweepDeposit depositIds blockHeight)) := by
  refine hrun.invariant (fun reached =>
    reached.state.submittedTransactions.get signature = some (.sweepDeposit blockHeight) →
    canister.state.submittedTransactions.get signature = some (.sweepDeposit blockHeight) ∨
      ∃ state t message signers depositIds, Emits state t
        (.submittedTransaction signature message signers (.sweepDeposit depositIds blockHeight)))
    ?_ ?_ .inl h
  · exact fun _ _ h => h
  · intro state log now payload state' hpayload h heffect hget
    rcases heffect.sweep_submitted hget with hold | ⟨message, signers, depositIds, rfl⟩
    · exact h hold
    · exact .inr ⟨_, _, _, _, _, hpayload⟩

namespace Config

variable {config config' : Config} {now : Timestamp} {action : Action}

/-- Only the check of the statuses lets transactions expire. -/
theorem Steps.expired (hsteps : config.Steps now action config')
    (hreplay : config.canister.Replayable) (h : signature ∈ expiredSignatures config'.canister.log) :
    signature ∈ expiredSignatures config.canister.log ∨
      ∃ transactions currentBlockHeight replies,
        config.finalization = some (.checkingStatuses transactions currentBlockHeight) ∧
        action = .finalization (.statuses replies) ∧
        .expiredTransaction signature ∈
          sweepStatusEvents transactions currentBlockHeight replies := by
  obtain ⟨⟨timestamp, payload⟩, hmem, hpayload⟩ := mem_expiredSignatures.mp h
  obtain rfl := hpayload
  rcases hsteps.mem_log_finalization hreplay hmem rfl with hold | ⟨round, reply, hround, rfl, hevent⟩
  · exact .inl (mem_expiredSignatures.mpr ⟨_, hold, rfl⟩)
  · unfold FinalizeRound.events at hevent
    split at hevent
    · exact .inr ⟨_, _, _, hround, rfl, hevent⟩
    · obtain ⟨withdrawal, -, hlanded⟩ := Option.bind_eq_some_iff.mp (Option.mem_toList.mp hevent)
      rcases landedWithdrawalEvent_eq_some hlanded with heq | heq <;> cases heq
    · obtain ⟨entry, -, reply, hcredit⟩ := mem_creditEvents hevent
      rcases creditEvent_eq_some hcredit with ⟨_, _, -, -, heq⟩ | heq <;> cases heq
    · cases hevent

/-- A submitted sweep was there before, or the round of sweeps received its signature. -/
theorem Steps.sweep_submitted (hsteps : config.Steps now action config')
    (hreplay : config.canister.Replayable) {blockHeight : BlockHeight}
    (h : config'.canister.state.submittedTransactions.get signature =
      some (.sweepDeposit blockHeight)) :
    config.canister.state.submittedTransactions.get signature = some (.sweepDeposit blockHeight) ∨
      ∃ planned position sweep, config.sweeps = some (.signing planned) ∧
        planned[position]? = some sweep ∧ action = .sweeps (.signed position (some signature)) ∧
        sweep.blockHeight = blockHeight := by
  rcases (hsteps.run hreplay).sweep_submitted h with hold | ⟨_, _, _, _, _, hrecords⟩
  · exact .inl hold
  obtain ⟨step, rfl⟩ := hrecords.recordedBy
  cases hsteps with
  | sweeps hsteps =>
      generalize hround : config.sweeps = before at hsteps
      cases hsteps with
      | start hstart =>
          rw [Canister.startTask_eq_some hstart] at h
          exact .inl h
      | @signed planned sweep position signature' _ hsweep hevent =>
          have hevents : Run (fun _ _ payload => payload = .submittedTransaction signature' sweep.message
              sweep.signers (.sweepDeposit sweep.sweep.deposits.keys sweep.blockHeight))
              config.canister _ := .event hevent rfl
          rcases hevents.sweep_submitted h with hold | ⟨_, _, _, _, _, heq⟩
          · exact .inl hold
          · cases heq
            exact .inr ⟨planned, position, sweep, rfl, hsweep, rfl, rfl⟩
      | _ => exact .inl h
  | unchanged | withdrawEnded | depositSolEnded => exact .inl h

/-- The sweeps that await their signatures were there before, or were planned with the block received. -/
theorem Steps.planned (hsteps : config.Steps now action config') {planned : List PlannedSweep}
    (h : config'.sweeps = some (.signing planned)) {sweep : PlannedSweep} (hsweep : sweep ∈ planned) :
    (∃ planned', config.sweeps = some (.signing planned') ∧ sweep ∈ planned') ∨
      ∃ block batch sweepDestination, action = .sweeps (.block (some block)) ∧
        planSweep batch block sweepDestination = .ok (some sweep) := by
  cases hsteps with
  | sweeps hsteps =>
      generalize hround : config.sweeps = before at hsteps
      dsimp only at h
      subst h
      cases hsteps with
      | planned hplanned =>
          obtain ⟨batch, -, hbatch⟩ := mem_planSweeps hplanned hsweep
          exact .inr ⟨_, _, _, rfl, hbatch⟩
      | notSigned => exact .inl ⟨_, rfl, List.mem_of_mem_eraseIdx hsweep⟩
      | signed => exact .inl ⟨_, rfl, List.mem_of_mem_eraseIdx hsweep⟩
  | upgraded => cases h
  | _ => exact .inl ⟨_, h, hsweep⟩

/-- The height that the statuses are checked against was there before, or was received. -/
theorem Steps.currentBlockHeight (hsteps : config.Steps now action config')
    {currentBlockHeight : BlockHeight}
    (h : config'.finalization = some (.checkingStatuses transactions (some currentBlockHeight))) :
    config.finalization = some (.checkingStatuses transactions (some currentBlockHeight)) ∨
      action = .finalization (.block (some currentBlockHeight)) := by
  cases hsteps with
  | finalization hsteps =>
      generalize hround : config.finalization = before at hsteps
      dsimp only at h
      cases hsteps with
      | startReading | checked =>
          rw [Option.some.injEq, FinalizeRound.readInFlightNonces] at h
          split at h <;> cases h
      | nonceRead =>
          rw [Option.some.injEq, FinalizeRound.noteNonceRead.eq_def] at h
          split at h <;> cases h
      | block =>
          cases h
          exact .inr rfl
      | _ => cases h
  | upgraded => cases h
  | _ => exact .inl h

end Config

end Inversion

/-! ## Expired transactions of a check -/

theorem mem_expiredTransactions {notFound : OrdSet Signature}
    {currentBlockHeight : Option BlockHeight}
    (h : signature ∈ expiredTransactions notFound transactions currentBlockHeight) :
    ∃ current blockHeight, currentBlockHeight = some current ∧ signature ∈ notFound ∧
      transactions[signature]? = some blockHeight ∧
      blockHeight + maxBlockhashAgeInBlocks < current := by
  unfold expiredTransactions at h
  split at h
  · cases h
  · obtain ⟨hnotFound, hany⟩ := List.mem_filter.mp h
    obtain ⟨blockHeight, hheight, hold⟩ := (Option.any_eq_true _ _).mp hany
    refine ⟨_, blockHeight, rfl, ExtTreeSet.mem_toList.mp hnotFound, hheight, ?_⟩
    exact Nat.add_comm _ _ ▸ Nat.add_lt_of_lt_sub (of_decide_eq_true hold)

/-- What a check lets expire had no status in the reply to its batch. -/
theorem expired_of_mem_sweepStatusEvents {currentBlockHeight : Option BlockHeight}
    {replies : List (Option (List (Option SignatureStatus)))} (h : .expiredTransaction signature ∈
      sweepStatusEvents transactions currentBlockHeight replies) :
    ∃ current blockHeight batch statuses, currentBlockHeight = some current ∧
      transactions[signature]? = some blockHeight ∧
      blockHeight + maxBlockhashAgeInBlocks < current ∧
      (batch, some statuses) ∈ (statusBatches transactions).zip replies ∧
      (signature, none) ∈ batch.zip statuses := by
  have hexpired : signature ∈ expiredTransactions
      (checkTransactionStatuses (statusBatches transactions) replies).notFound transactions
      currentBlockHeight := by
    simpa [sweepStatusEvents] using h
  obtain ⟨current, blockHeight, hcurrent, hnotFound, hheight, hold⟩ :=
    mem_expiredTransactions hexpired
  obtain ⟨⟨batch, reply⟩, hbatch, hnone⟩ :=
    List.mem_flatMap.mp (mem_checkTransactionStatuses.2.2.mp hnotFound)
  cases reply with
  | none => simp at hnone
  | some statuses =>
      exact ⟨current, blockHeight, batch, statuses, hcurrent, hheight, hold, hbatch, hnone⟩

/-! ## Sweeps on the chain -/

section SweepExpiry

open Solana (Chain ChainBlock ChainMove)

variable {signed : Signature → Message}

/-- The chain on which the transaction of a signature has the message that it signs. -/
abbrev SignedChain (signed : Signature → Message) : Type :=
  Chain fun signature => (signed signature).recentBlockhash

/-- What the minter is answered: the blockhash of a produced block with its height, a signature of the
message that was to be signed, a height that is final, and statuses that cover the blocks up to the
height that was read before. -/
def SignedChain.admits (config : Config) (chain : SignedChain signed) : Action → Bool
  | .sweeps (.block (some block)) => chain.produced.any fun known =>
      known.blockhash = block.blockhash ∧ known.height = block.blockHeight
  | .sweeps (.signed position (some signature)) =>
      match config.sweeps with
      | some (.signing planned) => planned[position]?.all (signed signature = ·.message)
      | _ => true
  | .finalization (.block (some currentBlockHeight)) => currentBlockHeight ≤ chain.finalized
  | .finalization (.statuses replies) =>
      match config.finalization with
      | some (.checkingStatuses transactions (some currentBlockHeight)) =>
          ((statusBatches transactions).zip replies).all fun entry =>
            entry.2.all fun statuses => chain.Answers currentBlockHeight entry.1 statuses
      | _ => true
  | _ => true

def SignedChain.environment (signed : Signature → Message) :
    Environment (SignedChain signed) ChainMove where
  admits := admits
  move _ chain move := chain.move move

/-- The message uses the blockhash of the block at the height. -/
def SignedChain.Uses (chain : SignedChain signed) (message : Message) (blockHeight : BlockHeight) :
    Prop :=
  ∃ block ∈ chain.produced, block.blockhash = message.recentBlockhash ∧ block.height = blockHeight

namespace World

/-- The recorded height of a sweep is that of its blockhash, from its plan on, the height that statuses
are checked against is final, and what has expired cannot land. -/
structure SweepsTraced (world : World (SignedChain signed)) : Prop where
  planned : ∀ planned, world.config.sweeps = some (.signing planned) → ∀ sweep ∈ planned,
    world.env.Uses sweep.message sweep.blockHeight
  submitted : ∀ signature blockHeight,
    world.config.canister.state.submittedTransactions.get signature =
      some (.sweepDeposit blockHeight) → world.env.Uses (signed signature) blockHeight
  final : ∀ transactions currentBlockHeight,
    world.config.finalization = some (.checkingStatuses transactions (some currentBlockHeight)) →
    currentBlockHeight ≤ world.env.finalized
  expired : ∀ signature ∈ expiredSignatures world.config.canister.log, world.env.Lapsed signature

namespace SweepsTraced

variable {world : World (SignedChain signed)}

theorem move (h : world.SweepsTraced) {move : ChainMove} {chain : SignedChain signed}
    (hmove : world.env.move move = some chain) : SweepsTraced ⟨world.config, chain⟩ := by
  obtain ⟨hproduced, hfinalized⟩ := Chain.move_mono hmove
  have huses {message : Message} {blockHeight : BlockHeight}
      (h : world.env.Uses message blockHeight) : SignedChain.Uses chain message blockHeight :=
    h.imp fun block ⟨hblock, hrest⟩ => ⟨hproduced block hblock, hrest⟩
  exact ⟨fun planned hround sweep hsweep => huses (h.planned planned hround sweep hsweep),
    fun signature blockHeight hget => huses (h.submitted signature blockHeight hget),
    fun transactions height hround => (h.final transactions height hround).trans hfinalized,
    fun signature hexpired => (h.expired signature hexpired).move hmove⟩

/-- What a check of the statuses lets expire cannot land. -/
theorem lapsed (h : world.SweepsTraced) (hcurrent : world.config.FinalizationCurrent)
    {currentBlockHeight : Option BlockHeight}
    {replies : List (Option (List (Option SignatureStatus)))}
    (hround : world.config.finalization = some (.checkingStatuses transactions currentBlockHeight))
    (hadmits : world.env.admits world.config (.finalization (.statuses replies)) = true)
    (hexpired : .expiredTransaction signature ∈
      sweepStatusEvents transactions currentBlockHeight replies) : world.env.Lapsed signature := by
  obtain ⟨current, blockHeight, batch, statuses, rfl, hheight, hold, hbatch, hnone⟩ :=
    expired_of_mem_sweepStatusEvents hexpired
  have hsubmitted := (hcurrent _ hround).checked signature blockHeight hheight
  obtain ⟨block, hblock, hhash, rfl⟩ := h.submitted signature blockHeight hsubmitted
  have hanswers : world.env.Answers current batch statuses := by
    simp only [SignedChain.admits, hround, List.all_eq_true] at hadmits
    simpa using hadmits _ hbatch
  exact Solana.Chain.lapsed_of_absent hblock hhash hold (h.final _ _ hround)
    (hanswers.notMem_of_none hnone)

theorem minter [SolanaSdk] [SolanaSdk.Lawful] (h : world.SweepsTraced)
    (hwellformed : world.config.Wellformed)
    (hcurrent : world.config.FinalizationCurrent) {now : Timestamp} {action : Action}
    {config' : Config} (hadmits : world.env.admits world.config action = true)
    (hsteps : world.config.Steps now action config') : SweepsTraced ⟨config', world.env⟩ := by
  have hreplay := hwellformed.replayable
  constructor
  case planned =>
    intro planned hround sweep hsweep
    rcases hsteps.planned hround hsweep with
      ⟨planned', hround', hmem⟩ | ⟨block, batch, destination, rfl, hplan⟩
    · exact h.planned planned' hround' sweep hmem
    · obtain ⟨-, hmessage, hheight, -⟩ := planSweep_eq_ok hplan
      -- the block that the round received is one of the chain
      obtain ⟨known, hknown, hsame⟩ := List.any_eq_true.mp hadmits
      obtain ⟨hhash, hknownHeight⟩ := of_decide_eq_true hsame
      refine ⟨known, hknown, ?_, hknownHeight.trans hheight.symm⟩
      rw [hmessage, hhash]
      exact (SolanaSdk.Lawful.recentBlockhash_new _ _ _).symm
  case submitted =>
    intro signature blockHeight hget
    rcases hsteps.sweep_submitted hreplay hget with
      hold | ⟨planned, position, sweep, hround, hsweep, rfl, rfl⟩
    · exact h.submitted signature blockHeight hold
    · have hsigned : signed signature = sweep.message := by
        simpa [SignedChain.admits, hround, hsweep] using hadmits
      rw [hsigned]
      exact h.planned planned hround sweep (List.mem_of_getElem? hsweep)
  case final =>
    intro transactions currentBlockHeight hround
    rcases hsteps.currentBlockHeight hround with hold | rfl
    · exact h.final _ _ hold
    · exact of_decide_eq_true hadmits
  case expired =>
    intro signature hmem
    rcases hsteps.expired hreplay hmem with
      hold | ⟨transactions, currentBlockHeight, replies, hround, rfl, hexpired⟩
    · exact h.expired signature hold
    · exact h.lapsed hcurrent hround hadmits hexpired

end SweepsTraced

/-- The transaction is in no block of the world, nor in any that it may produce. -/
def NeverLands [SolanaSdk] (world : World (SignedChain signed)) (signature : Signature) : Prop :=
  ∀ later world', world.run (SignedChain.environment signed) later = some world' →
    ∀ block ∈ world'.env.blocks, signature ∉ block.transactions

section Runs

variable [SolanaSdk] [SolanaSdk.Lawful] {world : World (SignedChain signed)} {minterId : Principal}
  {args : InitArgs} {now : Timestamp} {actions : List (WorldAction ChainMove)}

theorem sweepsTraced_of_run
    (h : runFrom (SignedChain.environment signed) .empty minterId args now actions = some world) :
    world.SweepsTraced ∧ ∃ done, Config.runFrom minterId args now done = some world.config := by
  refine runFrom_induction SweepsTraced ?_ ?_ ?_ h
  · intro config hinit
    obtain ⟨_, pool, -, -, rfl⟩ := Config.exists_of_init hinit
    refine ⟨nofun, ?_, nofun, ?_⟩ <;>
      simp [Config.idle, expiredSignatures, EventType.expiredSignature]
  · intro done world t action config' hdone htraced hadmits hstep
    exact htraced.minter (Config.wellformed_of_run hdone) (Config.finalizationCurrent_of_run hdone)
      hadmits (Config.steps_of_step hstep)
  · intro done world move chain _ htraced hmove
    exact htraced.move hmove

omit [SolanaSdk.Lawful] in
theorem neverLands_of_lapsed (h : world.env.Lapsed signature) :
    world.NeverLands signature := by
  intro later world' hrun
  have hlapsed : world'.env.Lapsed signature :=
    Machine.run_induction (fun _ world => world.env.Lapsed signature) h
      (fun _ world action next hlapsed hnext => ?_) hrun
  · exact hlapsed.absent
  · cases action with
    | minter t action =>
        obtain ⟨-, config', -, rfl⟩ := step_minter_eq_some.mp hnext
        exact hlapsed
    | move move =>
        obtain ⟨chain, hmove, rfl⟩ := step_move_eq_some.mp hnext
        exact hlapsed.move hmove

/-- Sweeps that expired never land, nor do those of the dropped deposits that have not failed. -/
structure ExpirySafe (world : World (SignedChain signed)) : Prop where
  expired : ∀ signature ∈ expiredSignatures world.config.canister.log, world.NeverLands signature
  dropped : ∀ (depositId : DepositSolId) (entry : SweptDeposit),
    world.config.canister.state.deposits.dropped[depositId]? = some entry →
    world.config.canister.state.failedTransactions.get entry.signature = none →
    world.NeverLands entry.signature

/-- In every run of the minter next to the chain, whatever blocks are produced or abandoned and whatever
status queries fail, no expired sweep has landed or can still land. -/
theorem expirySafe_of_run
    (h : runFrom (SignedChain.environment signed) .empty minterId args now actions = some world) :
    world.ExpirySafe := by
  obtain ⟨htraced, done, hdone⟩ := sweepsTraced_of_run h
  obtain ⟨-, initial, hinit, hrun⟩ := Config.emits_of_run hdone
  have hdropped := (DropHistory.of_init hinit).run hrun
  constructor
  case expired =>
    exact fun signature hmem => neverLands_of_lapsed (htraced.expired signature hmem)
  case dropped =>
    intro depositId entry hentry hfailed
    have hexpired := (hdropped depositId entry hentry).resolve_right (absurd hfailed)
    exact neverLands_of_lapsed (htraced.expired _ hexpired)

end Runs

end World

end SweepExpiry

/-! ## A sweep that misses its blocks -/

section Sample

attribute [local instance] Solana.sdk

/-- A sweep is signed with the blockhash of the block at height 1000; when it is checked, the block at
height 1151 is final, and a later one is abandoned. -/
def sampleExpiry : List (WorldAction Solana.ChainMove) :=
  [.move (.produce ⟨1000, 100, []⟩)] ++
    (sampleManualDeposit.take 7).map (fun entry => .minter entry.1 entry.2) ++
    [.move (.produce ⟨1151, 101, []⟩), .move (.produce ⟨1152, 102, []⟩),
      .move (.finalize 1151), .minter 8 (.finalization .start),
      .minter 9 (.finalization (.block (some 1151))), .move (.abandon 1151),
      .minter 10 (.finalization (.statuses [some [none]]))]

theorem World.expirySafe_sampleExpiry :
    ∃ world, runFrom (SignedChain.environment fun _ => sampleSweepMessage) .empty sampleMinterId
        sampleInitArgs 0 sampleExpiry = some world ∧
      (expiredSignatures world.config.canister.log = [5] ∧
        world.config.canister.state.deposits.dropped.size = 1) ∧ world.ExpirySafe := by
  obtain ⟨world, hworld, htest⟩ : ∃ world,
      runFrom (SignedChain.environment fun _ => sampleSweepMessage) .empty sampleMinterId
        sampleInitArgs 0 sampleExpiry = some world ∧
      expiredSignatures world.config.canister.log = [5] ∧
      world.config.canister.state.deposits.dropped.size = 1 :=
    exists_of_any (by decide +kernel)
  have := Solana.lawful_sdk
  exact ⟨world, hworld, htest, expirySafe_of_run hworld⟩

end Sample

end Cksol
