import Cksol.Minter.MainAddress
import Cksol.Minter.MintLedger
import Cksol.Minter.Payouts
import Cksol.Minter.Solvency

/-! # ckSOL is backed

The minter between its two ledgers: the main address on Solana, which sweeps credit and withdrawals
debit, and the ckSOL ledger, which mints for deposits and burns for withdrawals. Whatever the order in
which messages, landings and blocks happen, the ckSOL in circulation is covered by the lamports of the
main address, also once every accepted withdrawal is paid.
-/

namespace Cksol

open Std

/-! ## What the log mints and burns -/

section Log

/-- The mints that credits recorded. -/
def totalRecorded (log : List Event) : ℕ :=
  ((mintRecords log).map (·.amountToMint.toNat)).sum

theorem totalRecorded_append (log new : List Event) :
    totalRecorded (log ++ new) = totalRecorded log + totalRecorded new := by
  rw [totalRecorded, mintRecords_append, List.map_append, List.sum_append]
  rfl

/-- The index and the amount of an accepted burn. -/
def EventType.burn : EventType → Option (LedgerBurnIndex × ℕ)
  | acceptedWithdrawalRequest request => some (request.burnBlockIndex, request.burnedAmount.toNat)
  | _ => none

/-- The burns of the accepted withdrawals, by index. -/
def acceptedBurns (log : List Event) : List (LedgerBurnIndex × ℕ) :=
  log.filterMap fun event => event.payload.burn

theorem acceptedBurns_append (log new : List Event) :
    acceptedBurns (log ++ new) = acceptedBurns log ++ acceptedBurns new :=
  List.filterMap_append

theorem map_fst_acceptedBurns (log : List Event) :
    (acceptedBurns log).map Prod.fst = acceptedIndices log := by
  rw [acceptedBurns, List.map_filterMap, acceptedIndices]
  refine List.filterMap_congr fun event _ => ?_
  obtain ⟨timestamp, payload⟩ := event
  cases payload <;> rfl

theorem sum_acceptedBurns (log : List Event) :
    ((acceptedBurns log).map Prod.snd).sum = totalBurned log := by
  induction log with
  | nil => rfl
  | cons event log ih =>
      have htotal : totalBurned (event :: log) = event.payload.burnedAmount + totalBurned log := rfl
      rw [htotal, ← ih, acceptedBurns, List.filterMap_cons]
      cases event.payload <;> simp [EventType.burn, EventType.burnedAmount, acceptedBurns]

variable [SolanaSdk]

/-- Every event moves the mints of the deposits by the mints that it records. -/
theorem State.Effect.totalMints_eq {state state' : State} {timestamp : Timestamp}
    {payload : EventType} {view : View} (htracks : Tracks state.deposits view)
    (heffect : state.Effect timestamp payload state') :
    state'.deposits.totalMints = state.deposits.totalMints + totalRecorded [⟨timestamp, payload⟩] := by
  cases heffect with
  | creditedSweep hcredit =>
      rw [Deposits.totalMints_creditSweep hcredit, totalRecorded, mintRecords_singleton]
      simp only [Event.mintRecords, List.map_map, Function.comp_def]
  | minted hmint => exact Deposits.totalMints_mint htracks hmint
  | quarantinedPendingMint hquarantine =>
      exact Deposits.totalMints_quarantinePendingMint htracks hquarantine
  | quarantinedSweep hquarantine => exact Deposits.totalMints_quarantineSweep htracks hquarantine
  | sweptDeposits _ _ _ _ hsweep =>
      obtain ⟨_, _, -, -, -, -, -, -, rfl⟩ := Deposits.sweep_eq_ok hsweep
      rfl
  | succeededSweep _ _ _ hfinalize =>
      obtain ⟨_, -, -, rfl⟩ := Deposits.finalizeSwept_eq_ok hfinalize
      rfl
  | failedSweep _ _ _ hdrop | expiredSweep _ _ _ hdrop =>
      obtain ⟨_, -, -, rfl⟩ := Deposits.dropSwept_eq_ok hdrop
      rfl
  | queuedDeposit hqueue =>
      obtain ⟨-, -, _, -, rfl⟩ := Deposits.queue_eq_ok hqueue
      rfl
  | _ => rfl

theorem Canister.Run.totalRecorded_eq {Emits : State → Timestamp → EventType → Prop}
    {canister canister' : Canister} {view : View}
    (hdeposits : DepositHistory canister.log canister.state.deposits view)
    (h : totalRecorded canister.log = canister.state.deposits.totalMints)
    (hrun : Canister.Run Emits canister canister') :
    totalRecorded canister'.log = canister'.state.deposits.totalMints := by
  refine (hrun.invariant (fun canister => (∃ view, DepositHistory canister.log
    canister.state.deposits view) ∧ totalRecorded canister.log =
      canister.state.deposits.totalMints) ?_ ?_ ⟨⟨view, hdeposits⟩, h⟩).2
  · rintro canister transient ⟨⟨view, hdeposits⟩, h⟩
    exact ⟨⟨view, hdeposits.withWatchlist _⟩, h⟩
  · rintro state log now payload state' - ⟨⟨view, hdeposits⟩, h⟩ heffect
    refine ⟨hdeposits.effect heffect, ?_⟩
    rw [totalRecorded_append, heffect.totalMints_eq hdeposits.tracks, h]

/-- The mints of a run are those that its credits recorded. -/
theorem Config.totalRecorded_of_run {minterId : Principal} {args : InitArgs} {now : Timestamp}
    {actions : List (Timestamp × Action)} {config : Config}
    (h : runFrom minterId args now actions = some config) :
    totalRecorded config.canister.log = config.canister.state.deposits.totalMints := by
  obtain ⟨-, initial, hinit, hrun⟩ := emits_of_run h
  refine hrun.totalRecorded_eq (DepositHistory.of_init hinit) ?_
  obtain ⟨_, pool, -, -, rfl⟩ := Canister.exists_of_init hinit
  simp [totalRecorded, Event.mintRecords, Deposits.totalMints, Deposits.default]

end Log

/-! ## The ckSOL ledger -/

/-- A burn that the ledger executed for a `withdraw` call, with the index of its block. -/
structure Burn where
  blockIndex : ℕ
  call : WithdrawCall
deriving DecidableEq

/-- The ledger with its mints and the burns for withdrawals; a burn is a block that is no mint. -/
structure TokenLedger where
  mints : MintLedger
  burns : List Burn

/-- What the ckSOL ledger executes on its own schedule. -/
inductive TokenLedgerMove where
  | mint (move : MintLedgerMove)
  /-- The burn of the `withdraw` call at the position is executed. -/
  | burn (position : ℕ)

namespace TokenLedger

def initial (otherBlocks : ℕ) : TokenLedger := ⟨.initial otherBlocks, []⟩

def burn (ledger : TokenLedger) (call : WithdrawCall) : TokenLedger :=
  ⟨{ ledger.mints with blocks := ledger.mints.blocks ++ [none] },
    ledger.burns ++ [⟨ledger.mints.blocks.length, call⟩]⟩

def move (config : Config) (ledger : TokenLedger) : TokenLedgerMove → Option TokenLedger
  | .mint move => (ledger.mints.move config move).map fun mints => { ledger with mints }
  | .burn position => config.withdrawCalls[position]?.map ledger.burn

/-- A burn is reported to a call that asked for it, and never again once it was accepted. -/
def admits (config : Config) (ledger : TokenLedger) : Action → Bool
  | .burned position (.blockIndex blockIndex) =>
      blockIndex ∉ acceptedIndices config.canister.log ∧
        config.withdrawCalls[position]?.all fun call => ⟨blockIndex, call⟩ ∈ ledger.burns
  | action => MintLedger.admits config ledger.mints action

def environment : Environment TokenLedger TokenLedgerMove := ⟨admits, move⟩

/-- The transfers that were executed as mints. -/
def executed (ledger : TokenLedger) : List TransferArg :=
  ledger.mints.blocks.filterMap id

def burned (ledger : TokenLedger) : ℕ :=
  (ledger.burns.map (·.call.amountToBurn.toNat)).sum

/-- The ckSOL that was minted for deposits and not burned for withdrawals. -/
def supply (ledger : TokenLedger) : ℤ :=
  (ledger.executed.map TransferArg.amount).sum - ledger.burned

end TokenLedger

section Ledger

variable [SolanaSdk] {minterId : Principal} {args : InitArgs} {now : Timestamp}
  {actions : List (WorldAction TokenLedgerMove)} {otherBlocks : ℕ} {world : World TokenLedger}

namespace World

/-- The mints of the ledger behave as those of a ledger without burns. -/
theorem runFrom_mints (h : runFrom TokenLedger.environment (.initial otherBlocks) minterId args now
      actions = some world) :
    ∃ others, runFrom MintLedger.environment (.initial otherBlocks) minterId args now others =
      some ⟨world.config, world.env.mints⟩ := by
  refine runFrom_view TokenLedger.mints (fun config ledger action hadmits => ?_)
    (fun config ledger move next hnext => ?_) h
  · change TokenLedger.admits config ledger action = true at hadmits
    unfold TokenLedger.admits at hadmits
    split at hadmits
    · rfl
    · exact hadmits
  · cases move with
    | mint move =>
        obtain ⟨mints, hmove, rfl⟩ := Option.map_eq_some_iff.mp hnext
        exact ⟨[move], by simp [Environment.moves, MintLedger.environment, hmove]⟩
    | burn position =>
        obtain ⟨call, -, rfl⟩ := Option.map_eq_some_iff.mp hnext
        exact ⟨[.otherBlock], rfl⟩

omit [SolanaSdk] in
/-- A transfer that was executed is in one block only. -/
theorem nodup_executed {ledger : TokenLedger} {transfers : List TransferArg}
    (h : ledger.mints.Serves transfers) : ledger.executed.Nodup := by
  rw [TokenLedger.executed, List.Nodup, List.pairwise_filterMap, List.pairwise_iff_getElem]
  intro i j hi hj hlt arg harg arg' harg' heq
  subst heq
  have hfirst : MintLedger.Holds ledger.mints.blocks i arg :=
    List.getElem?_eq_some_iff.mpr ⟨hi, harg⟩
  have hsecond : MintLedger.Holds ledger.mints.blocks j arg :=
    List.getElem?_eq_some_iff.mpr ⟨hj, harg'⟩
  exact hlt.ne (h.once hfirst hsecond)

/-- The ledger mints at most what the deposits stand for. -/
theorem executed_le_totalMints (h : runFrom TokenLedger.environment (.initial otherBlocks) minterId
      args now actions = some world) :
    (world.env.executed.map TransferArg.amount).sum ≤
      world.config.canister.state.deposits.totalMints := by
  obtain ⟨others, hothers⟩ := runFrom_mints h
  obtain ⟨hledgered, done, hdone⟩ := ledgered_of_run hothers
  obtain ⟨hmints, view, hdeposits⟩ := Config.mintHistory_of_run hdone
  have hcalls := Config.callsRecorded_of_run hdone
  rw [← Config.totalRecorded_of_run hdone]
  -- an executed transfer is matched with the record of its mint
  refine sum_le_sum_of_matched (fun arg record => ∃ id pending, arg = mintTransferArg id pending ∧
    record = pending.record id ∧ RecordedMint world.config.canister.log id pending)
    (nodup_executed hledgered.serves) ?_ ?_
  · intro arg harg
    obtain ⟨block, hblock, rfl⟩ := List.mem_filterMap.mp harg
    obtain ⟨index, hindex⟩ := List.mem_iff_getElem?.mp hblock
    obtain ⟨id, pending, hrecorded, rfl⟩ := hcalls.transfers arg (hledgered.serves.requested hindex)
    exact ⟨_, hrecorded.2, ⟨id, pending, rfl, rfl, hrecorded⟩, Nat.le_refl _⟩
  · rintro arg arg' record ⟨id, pending, rfl, rfl, hrecorded⟩ ⟨id', pending', rfl, heq, hrecorded'⟩
    obtain rfl : id = id' := congrArg MintRecord.depositId heq
    rw [hmints.recordedMint_unique hdeposits hrecorded hrecorded']

/-- The accepted withdrawals are backed by burns, each by one of its own. -/
structure BurnsExecuted (world : World TokenLedger) : Prop where
  nodup : (acceptedIndices world.config.canister.log).Nodup
  executed : ∀ burn ∈ acceptedBurns world.config.canister.log,
    burn ∈ world.env.burns.map fun burn => (burn.blockIndex, burn.call.amountToBurn.toNat)

/-- A withdrawal is accepted for a burn that the ledger reported. -/
theorem BurnsExecuted.minter {t : Timestamp} {action : Action} {config' : Config}
    (h : world.BurnsExecuted) (hwellformed : world.config.Wellformed)
    (hadmits : TokenLedger.admits world.config world.env action = true)
    (hsteps : world.config.Steps t action config') : BurnsExecuted ⟨config', world.env⟩ := by
  obtain ⟨new, hlog, hnew⟩ := (hsteps.run hwellformed.replayable).log_append
  -- the events split by whether the message handles the reply to a burn
  by_cases haccepts : ∃ position blockIndex, action = .burned position (.blockIndex blockIndex)
  · obtain ⟨position, blockIndex, rfl⟩ := haccepts
    cases hsteps with
    | burned hcall hindex hamount hevent =>
        obtain ⟨state, -, rfl⟩ := Canister.processEvent_eq_ok.mp hevent
        simp only [TokenLedger.admits, hcall, Option.all_some, decide_eq_true_eq] at hadmits
        obtain ⟨hfresh, hburn⟩ := hadmits
        constructor
        · refine (Withdrawals.acceptedIndices_append _).symm ▸ List.Nodup.append h.nodup
            (List.nodup_singleton _) ?_
          intro i hi hlast
          obtain rfl := List.mem_singleton.mp hlast
          exact hfresh hi
        · intro burn hmem
          change burn ∈ acceptedBurns (world.config.canister.log ++ [_]) at hmem
          rw [acceptedBurns_append, List.mem_append] at hmem
          rcases hmem with hold | hlast
          · exact h.executed burn hold
          · obtain rfl := List.mem_singleton.mp hlast
            exact List.mem_map.mpr ⟨_, hburn, rfl⟩
    | unchanged | withdrawEnded | depositSolEnded => exact ⟨h.nodup, h.executed⟩
  · -- no other message accepts a withdrawal
    have hnone : ∀ event ∈ new, event.payload.burn = none := by
      intro event hevent
      obtain ⟨state, hrecords⟩ := hnew event hevent
      cases hpayload : event.payload with
      | acceptedWithdrawalRequest request =>
          rw [hpayload] at hrecords
          obtain ⟨position, heq⟩ := hrecords.recordedBy
          exact absurd ⟨position, _, heq⟩ haccepts
      | _ => rfl
    have hsame : acceptedBurns config'.canister.log = acceptedBurns world.config.canister.log := by
      have hnil : acceptedBurns new = [] := List.filterMap_eq_nil_iff.mpr hnone
      rw [hlog, acceptedBurns_append, hnil, List.append_nil]
    constructor
    · rw [← map_fst_acceptedBurns, hsame, map_fst_acceptedBurns]
      exact h.nodup
    · dsimp only
      rw [hsame]
      exact h.executed

theorem burnsExecuted_of_run (h : runFrom TokenLedger.environment (.initial otherBlocks) minterId args
    now actions = some world) : world.BurnsExecuted := by
  refine (runFrom_induction BurnsExecuted ?_ ?_ ?_ h).1
  · intro config hinit
    simp only [Config.init, Canister.init, bind_eq_ok, mapError_eq_ok, pure_eq_ok] at hinit
    obtain ⟨_, ⟨state, -, rfl⟩, rfl⟩ := hinit
    exact ⟨List.nodup_nil, fun burn hburn => absurd hburn List.not_mem_nil⟩
  · intro done world t action config' hdone hburns hadmits hstep
    exact hburns.minter (Config.wellformed_of_run hdone) hadmits (Config.steps_of_step hstep)
  · intro done world move ledger hdone hburns hmove
    refine ⟨hburns.nodup, fun burn hmem => ?_⟩
    have hold := hburns.executed burn hmem
    cases move with
    | mint move =>
        obtain ⟨mints, -, rfl⟩ := Option.map_eq_some_iff.mp hmove
        exact hold
    | burn position =>
        obtain ⟨call, -, rfl⟩ := Option.map_eq_some_iff.mp hmove
        dsimp only [TokenLedger.burn]
        rw [List.map_append]
        exact List.mem_append_left _ hold

omit [SolanaSdk] in
/-- What was accepted as burned was burned. -/
theorem BurnsExecuted.totalBurned_le (h : world.BurnsExecuted) :
    totalBurned world.config.canister.log ≤ world.env.burned := by
  have hnodup : (acceptedBurns world.config.canister.log).Nodup := by
    refine List.Nodup.of_map Prod.fst ?_
    rw [map_fst_acceptedBurns]
    exact h.nodup
  have hle := sum_le_sum_of_nodup_of_subset (f := Prod.snd) hnodup h.executed
  rwa [sum_acceptedBurns, List.map_map] at hle

end World

end Ledger

/-! ## Both ledgers -/

section Backing

variable [SolanaSdk]

namespace World

/-- The accepted withdrawals that are not created yet. -/
def promised (world : World (MainAddress × TokenLedger)) : ℕ :=
  world.config.canister.state.pendingWithdrawalRequests.sumBy State.transferAmount

/-- The ckSOL in circulation and the withdrawals still to be created are covered by the tracked
balance, and with the created ones that have not landed by what the main address holds. -/
structure Backed (world : World (MainAddress × TokenLedger)) : Prop where
  tracked : world.env.2.supply + world.promised ≤ world.config.canister.state.balance.toNat
  held : world.env.2.supply + world.promised + outstanding ⟨world.config, world.env.1⟩ ≤
    world.env.1.lamports

variable [SolanaSdk.Lawful] {minterId : Principal} {args : InitArgs} {now : Timestamp}

/-- In every run with both ledgers whose withdrawals each burned the fee of a transaction, ckSOL is
backed. -/
theorem backed_of_run {lamports otherBlocks : ℕ} {stored : Address → Hash}
    {actions : List (WorldAction (MainAddressMove ⊕ TokenLedgerMove))}
    {world : World (MainAddress × TokenLedger)}
    (h : runFrom (MainAddress.environment.prod TokenLedger.environment)
      (.initial lamports stored, .initial otherBlocks) minterId args now actions = some world)
    (hburned : FeesBurned world.config.canister.log) (hfits : SumsFit world.config.canister.log) :
    world.Backed := by
  obtain ⟨_, hmain⟩ := runFrom_fst h
  obtain ⟨_, hledger⟩ := runFrom_snd h
  have hheld := balance_add_outstanding_le hmain
  obtain ⟨-, done, hdone⟩ := landed_of_run hmain
  have hminted := executed_le_totalMints hledger
  have hburns := (burnsExecuted_of_run hledger).totalBurned_le
  have hsolvent : world.config.canister.Solvent := by
    obtain ⟨-, initial, hinit, hrun⟩ := Config.emits_of_run hdone
    have hsettled := hrun.mono fun _ _ _ hemits => hemits.settled
    exact Canister.solvent_of_accounts
      (Canister.MintsConserved.run (.of_init hinit) (.of_init hinit) hsettled hfits)
      (Canister.BalanceAccounted.run (.of_init hinit) (.of_init hinit) hrun hfits)
      (Canister.BurnsCover.run (.of_init hinit) (.of_init hinit) hrun hburned)
  have htracked : world.env.2.supply + world.promised ≤
      world.config.canister.state.balance.toNat := by
    simp only [Canister.Solvent, Canister.liabilities, TokenLedger.supply, promised] at hsolvent ⊢
    dsimp only at hminted hburns
    omega
  exact ⟨htracked, by dsimp only at hheld; omega⟩

end World

end Backing

section Sample

attribute [local instance] Solana.sdk

/-- Whether an event that accepts a withdrawal burns a transaction fee beyond what it transfers. -/
def EventType.burnsFee : EventType → Bool
  | acceptedWithdrawalRequest request =>
      request.amountToTransfer.toNat + batchWithdrawalTxFee.toNat ≤ request.burnedAmount.toNat
  | _ => true

theorem feesBurned_of_all {log : List Event} (h : log.all (·.payload.burnsFee) = true) :
    FeesBurned log :=
  fun _ _ hmem => of_decide_eq_true (List.all_eq_true.mp h _ hmem)

/-- A deposit is swept and minted, then part of it is withdrawn, with the landings and the blocks in
between. -/
def sampleBacking : List (WorldAction (MainAddressMove ⊕ TokenLedgerMove)) :=
  let minter (actions : List (Timestamp × Action)) :
      List (WorldAction (MainAddressMove ⊕ TokenLedgerMove)) :=
    actions.map fun entry => .minter entry.1 entry.2
  minter (sampleManualDeposit.take 6) ++ [.move (.inl (.landSweep 0 5))] ++
    minter ((sampleManualDeposit.drop 6).take 7) ++
    minter [(14, .mints .start), (15, .mints .next)] ++ [.move (.inr (.mint (.execute 0)))] ++
    minter [(16, .mints (.reply (.blockIndex 2))), (17, .mints .finish)] ++
    minter ((sampleManualDeposit.drop 13).take 1) ++ [.move (.inr (.burn 0))] ++
    minter (sampleManualDeposit.drop 14) ++ minter [(24, .withdrawals .requestSignatures)] ++
    [.move (.inl (.landWithdrawal 1 [(5, 1_995_000)] true 78))]

theorem World.backed_sampleBacking :
    ∃ world, runFrom (MainAddress.environment.prod TokenLedger.environment)
        (.initial 0 fun _ => 77, .initial 2) sampleMinterId sampleInitArgs 0 sampleBacking =
          some world ∧
      (world.env.2.supply = 27_104_120 ∧ world.env.1.lamports = 27_104_120) ∧ world.Backed := by
  obtain ⟨world, hworld, hamounts, hfits, hburned⟩ : ∃ world,
      runFrom (MainAddress.environment.prod TokenLedger.environment) (.initial 0 fun _ => 77,
        .initial 2) sampleMinterId sampleInitArgs 0 sampleBacking = some world ∧
      (world.env.2.supply = 27_104_120 ∧ world.env.1.lamports = 27_104_120) ∧
      SumsFit world.config.canister.log ∧
      world.config.canister.log.all (·.payload.burnsFee) = true :=
    exists_of_any (by decide +kernel)
  have := Solana.lawful_sdk
  exact ⟨world, hworld, hamounts, backed_of_run hworld (feesBurned_of_all hburned) hfits⟩

end Sample

end Cksol
