import Cksol.Minter.Emissions
import Cksol.Minter.World
import Cksol.State.MintHistory

/-! # At most one mint per deposit

The ledger handles the transfers that the minter has requested, in any order and at any later time,
also when the minter has given up on the reply. It never executes the same arguments twice. Every
transfer for a deposit carries the arguments that the credit of its sweep recorded, so retries after
lost replies, traps and upgrades never mint a deposit a second time.
-/

namespace Cksol

open Std
open Canister (Run)

variable {minterId : Principal} {args : InitArgs}

/-- The transfer is a mint for the deposit. -/
def TransferArg.MintOf (arg : TransferArg) (depositId : DepositSolId) : Prop :=
  ∃ signature, arg.memo = some (Memo.encode (.mint (.sweep signature depositId)))

/-- A transfer is a mint for one deposit. -/
theorem TransferArg.MintOf.depositId_eq {depositId id : DepositSolId} {pending : PendingMint}
    (h : (mintTransferArg depositId pending).MintOf id) (hdepositId : depositId < 2 ^ 64)
    (hid : id < 2 ^ 64) : depositId = id := by
  obtain ⟨signature, hmemo⟩ := h
  exact Memo.depositId_of_encode_eq hdepositId hid (Option.some.inj hmemo)

section Minter

variable [SolanaSdk]

/-! ## The calls of the minter -/

namespace Config

variable {config config' : Config} {now : Timestamp} {action : Action}

theorem mintHistory_of_run {actions : List (Timestamp × Action)}
    (h : runFrom minterId args now actions = some config) :
    MintHistory config.canister.log config.canister.state.deposits ∧
      ∃ view, DepositHistory config.canister.log config.canister.state.deposits view := by
  obtain ⟨-, initial, hinit, hrun⟩ := emits_of_run h
  exact ⟨(MintHistory.of_init hinit).run (DepositHistory.of_init hinit) hrun,
    (DepositHistory.of_init hinit).run hrun⟩

/-- The mints of a round and the transfers requested so far are those that the log records. -/
structure CallsRecorded (config : Config) : Prop where
  remaining : ∀ round, config.mints = some round → ∀ entry ∈ round.remaining,
    RecordedMint config.canister.log entry.1 entry.2
  inFlight : ∀ round call, config.mints = some round → round.inFlight = some call →
    RecordedMint config.canister.log call.depositId call.pending ∧
      config.transfers[call.call]? = some (mintTransferArg call.depositId call.pending)
  transfers : ∀ arg ∈ config.transfers, ∃ depositId pending,
    RecordedMint config.canister.log depositId pending ∧ arg = mintTransferArg depositId pending

/-- A message requests transfers after those requested before. -/
theorem Steps.transfers_append (h : config.Steps now action config') :
    ∃ new, config'.transfers = config.transfers ++ new := by
  cases h with
  | mints => exact ⟨_, rfl⟩
  | _ => exact ⟨[], (List.append_nil _).symm⟩

namespace CallsRecorded

omit [SolanaSdk] in
/-- A message outside the rounds of mints. -/
theorem frame (h : config.CallsRecorded) {new : List Event}
    (hlog : config'.canister.log = config.canister.log ++ new)
    (hmints : config'.mints = none ∨ config'.mints = config.mints)
    (htransfers : config'.transfers = config.transfers) : config'.CallsRecorded := by
  have hmints' : ∀ round, config'.mints = some round → config.mints = some round := by
    intro round hround
    rcases hmints with hnone | hsame
    · rw [hnone] at hround
      cases hround
    · rwa [hsame] at hround
  refine ⟨fun round hround entry hentry => ?_, fun round call hround hcall => ?_, fun arg harg => ?_⟩
  · rw [hlog]
    exact (h.remaining round (hmints' round hround) entry hentry).append new
  · obtain ⟨hrecorded, hget⟩ := h.inFlight round call (hmints' round hround) hcall
    rw [hlog, htransfers]
    exact ⟨hrecorded.append new, hget⟩
  · rw [htransfers] at harg
    obtain ⟨depositId, pending, hrecorded, rfl⟩ := h.transfers arg harg
    rw [hlog]
    exact ⟨depositId, pending, hrecorded.append new, rfl⟩

omit [SolanaSdk] in
/-- A message of a round of mints, from what it leaves of the round and the transfers it requests. -/
theorem mintStep (h : config.CallsRecorded) {new : List Event} {transfers : List TransferArg}
    (hlog : config'.canister.log = config.canister.log ++ new)
    (htransfers : config'.transfers = config.transfers ++ transfers)
    (hround : ∀ round, config'.mints = some round →
      (∀ entry ∈ round.remaining, RecordedMint config.canister.log entry.1 entry.2) ∧
        ∀ call, round.inFlight = some call →
          RecordedMint config.canister.log call.depositId call.pending ∧
            config'.transfers[call.call]? = some (mintTransferArg call.depositId call.pending))
    (hnew : ∀ arg ∈ transfers, ∃ depositId pending,
      RecordedMint config.canister.log depositId pending ∧ arg = mintTransferArg depositId pending) :
    config'.CallsRecorded := by
  refine ⟨fun round hmints entry hentry => ?_, fun round call hmints hcall => ?_, fun arg harg => ?_⟩
  · rw [hlog]
    exact ((hround round hmints).1 entry hentry).append new
  · obtain ⟨hrecorded, hget⟩ := (hround round hmints).2 call hcall
    rw [hlog]
    exact ⟨hrecorded.append new, hget⟩
  · rw [htransfers, List.mem_append] at harg
    obtain ⟨depositId, pending, hrecorded, rfl⟩ := harg.elim (h.transfers arg) (hnew arg)
    rw [hlog]
    exact ⟨depositId, pending, hrecorded.append new, rfl⟩

theorem mints (h : config.CallsRecorded)
    (hpending : ∀ {id : DepositSolId} {pending : PendingMint},
      config.canister.state.deposits.pendingMints[id]? = some pending →
      RecordedMint config.canister.log id pending)
    {action : MintAction} {canister : Canister} {round : Option MintRound}
    {transfers : List TransferArg}
    (hsteps : MintRound.Steps config.canister config.transfers.length now config.mints action
      (canister, round, transfers)) :
    CallsRecorded { config with
      canister, mints := round, transfers := config.transfers ++ transfers } := by
  obtain ⟨new, hlog, -⟩ := hsteps.run.log_append
  generalize hmints : config.mints = before at hsteps
  cases hsteps with
  -- the round takes pending mints, which the log has recorded
  | start hstart =>
      refine h.mintStep hlog rfl ?_ (by simp)
      rintro _ ⟨⟩
      refine ⟨fun entry hentry => hpending (OrdMap.mem_toList_iff.mp (List.mem_of_mem_take hentry)), ?_⟩
      rintro _ ⟨⟩
  | @expired depositId pending remaining canister' hexpired hevent =>
      refine h.mintStep hlog rfl ?_ (by simp)
      rintro _ ⟨⟩
      refine ⟨fun entry hentry => h.remaining _ hmints entry (List.mem_cons_of_mem _ hentry), ?_⟩
      rintro _ ⟨⟩
  | @called depositId pending remaining hlive =>
      have hrecorded := h.remaining _ hmints (depositId, pending) List.mem_cons_self
      refine h.mintStep hlog rfl ?_ ?_
      · rintro _ ⟨⟩
        refine ⟨fun entry hentry => h.remaining _ hmints entry (List.mem_cons_of_mem _ hentry), ?_⟩
        rintro _ ⟨⟩
        exact ⟨hrecorded, List.getElem?_concat_length⟩
      · intro arg harg
        exact ⟨depositId, pending, hrecorded, List.mem_singleton.mp harg⟩
  | minted | rejected | retried =>
      refine h.mintStep hlog rfl ?_ (by simp)
      rintro _ ⟨⟩
      refine ⟨fun entry hentry => h.remaining _ hmints entry hentry, ?_⟩
      rintro _ ⟨⟩
  | quarantinedOnTrap | stuck | ended =>
      refine h.mintStep hlog rfl ?_ (by simp)
      intro round hround
      cases hround

theorem steps (h : config.CallsRecorded) (hreplay : config.canister.Replayable)
    (hpending : ∀ {id : DepositSolId} {pending : PendingMint},
      config.canister.state.deposits.pendingMints[id]? = some pending →
      RecordedMint config.canister.log id pending)
    (hsteps : config.Steps now action config') : config'.CallsRecorded := by
  obtain ⟨new, hlog, -⟩ := (hsteps.run hreplay).log_append
  cases hsteps with
  | mints hsteps => exact h.mints hpending hsteps
  | upgraded => exact h.frame hlog (.inl rfl) rfl
  | _ => exact h.frame hlog (.inr rfl) rfl

end CallsRecorded

theorem callsRecorded_of_run {actions : List (Timestamp × Action)}
    (h : runFrom minterId args now actions = some config) :
    config.CallsRecorded := by
  refine runFrom_induction (fun _ config => config.CallsRecorded) ?_ ?_ h
  · intro config hinit
    obtain ⟨canister, -, rfl⟩ := init_eq_ok.mp hinit
    refine ⟨fun round hround => ?_, fun round call hround => ?_, fun arg harg => ?_⟩
    · cases hround
    · cases hround
    · cases harg
  · intro done config t action config' hdone hcalls hsteps
    obtain ⟨hmints, view, hdeposits⟩ := mintHistory_of_run hdone
    exact hcalls.steps (wellformed_of_run hdone).replayable (hmints.recordedMint hdeposits) hsteps

end Config

/-! ## Minted deposits -/

section Minted

variable {id : DepositSolId} {minted : MintedSweep}

/-- Without a minting event, no deposit gets minted. -/
theorem Canister.Run.minted_of_not {Emits : State → Timestamp → EventType → Prop}
    {canister canister' : Canister} (hrun : Run Emits canister canister')
    (hnot : ∀ state t id block, ¬ Emits state t (.mintedSweptDeposit id block))
    (h : canister'.state.deposits.minted[id]? = some minted) :
    canister.state.deposits.minted[id]? = some minted := by
  refine hrun.invariant (fun reached => reached.state.deposits.minted[id]? = some minted →
    canister.state.deposits.minted[id]? = some minted) ?_ ?_ (fun h => h) h
  · exact fun reached transient h => h
  · intro state log t payload state' hemits h heffect hminted
    rcases heffect.minted_cases hminted with hold | ⟨rfl, -⟩
    · exact h hold
    · exact absurd hemits (hnot _ _ _ _)

/-- A deposit gets minted by a reply to its transfer only, from its pending mint. -/
theorem MintRound.Steps.minted_cases {canister canister' : Canister} {calls : ℕ} {now : Timestamp}
    {round round' : Option MintRound} {action : MintAction} {transfers : List TransferArg}
    (hsteps : MintRound.Steps canister calls now round action (canister', round', transfers))
    (h : canister'.state.deposits.minted[id]? = some minted) :
    canister.state.deposits.minted[id]? = some minted ∨
      ∃ reply remaining call pending, action = .reply reply ∧
        round = some ⟨remaining, some call⟩ ∧ call.depositId = id ∧
        reply.mintBlock = some minted.mintBlockIndex ∧
        canister.state.deposits.pendingMints[id]? = some pending ∧
        minted = ⟨pending.deposit, pending.amountToMint, minted.mintBlockIndex⟩ := by
  -- the other messages of a round record at most a quarantine
  have hframe (hrun : Run (fun _ _ payload => ∃ id, payload = .quarantinedPendingMint id)
      canister canister') : canister.state.deposits.minted[id]? = some minted :=
    hrun.minted_of_not (by simp) h
  cases hsteps with
  | minted hreply hindex hevent =>
      obtain ⟨state, happly, rfl⟩ := Canister.processEvent_eq_ok.mp hevent
      rcases (State.effect_of_apply happly).minted_cases h with
        hold | ⟨heq, pending, hpending, hminted⟩
      · exact .inl hold
      · obtain ⟨hid, hblock⟩ := EventType.mintedSweptDeposit.inj heq
        exact .inr ⟨_, _, _, pending, rfl, rfl, hid, hblock ▸ hreply, hpending, hminted⟩
  | start hstart => exact .inl (hframe (.startTask hstart))
  | expired _ hevent | rejected _ hevent => exact .inl (hframe (.event hevent ⟨_, rfl⟩))
  | quarantinedOnTrap hevent =>
      exact .inl (hframe ((Run.event hevent ⟨_, rfl⟩).trans (Run.endTask _)))
  | ended => exact .inl (hframe (.endTask _))
  | _ => exact .inl h

theorem Config.Steps.minted_cases {config config' : Config} {now : Timestamp} {action : Action}
    (hreplay : config.canister.Replayable) (hsteps : config.Steps now action config')
    (h : config'.canister.state.deposits.minted[id]? = some minted) :
    config.canister.state.deposits.minted[id]? = some minted ∨
      ∃ reply remaining call pending, action = .mints (.reply reply) ∧
        config.mints = some ⟨remaining, some call⟩ ∧ call.depositId = id ∧
        reply.mintBlock = some minted.mintBlockIndex ∧
        config.canister.state.deposits.pendingMints[id]? = some pending ∧
        minted = ⟨pending.deposit, pending.amountToMint, minted.mintBlockIndex⟩ := by
  by_cases hmints : ∃ step, action = .mints step
  · obtain ⟨step, rfl⟩ := hmints
    cases hsteps with
    | mints hsteps =>
        rcases hsteps.minted_cases h with hold | ⟨reply, remaining, call, pending, rfl, hcall⟩
        · exact .inl hold
        · exact .inr ⟨reply, remaining, call, pending, rfl, hcall⟩
    | unchanged | withdrawEnded | depositSolEnded => exact .inl h
  · refine .inl ((hsteps.run hreplay).minted_of_not (fun state t id block hrecords => ?_) h)
    exact hmints hrecords.recordedBy

end Minted

end Minter

/-! ## The ledger -/

/-- The blocks of the ledger, `none` for a transaction that is no mint, and its replies to the calls of
the minter. -/
structure MintLedger where
  blocks : List (Option TransferArg)
  replies : List (ℕ × TransferReply)

/-- Blocks of the ledger, between the calls of the minter. -/
inductive MintLedgerMove where
  | otherBlock
  /-- The transfer of the call is executed. -/
  | execute (call : ℕ)
  /-- The transfer of the call is refused. -/
  | refuse (call : ℕ) (error : TransferError)

namespace MintLedger

/-- No call has been handled yet. -/
def initial (otherBlocks : ℕ) : MintLedger := ⟨.replicate otherBlocks none, []⟩

/-- A transfer with arguments that were executed before is not executed. -/
def execute (ledger : MintLedger) (call : ℕ) (arg : TransferArg) : Option MintLedger :=
  if some arg ∈ ledger.blocks then none
  else some ⟨ledger.blocks ++ [some arg],
    ledger.replies ++ [(call, .blockIndex ledger.blocks.length)]⟩

/-- Only a transfer with the same arguments makes a duplicate; the other errors are possible at any
time. -/
def canRefuse (ledger : MintLedger) (arg : TransferArg) : TransferError → Bool
  | .duplicate duplicateOf => ledger.blocks[duplicateOf]? = some (some arg)
  | _ => true

/-- A refused transfer changes nothing but the replies. -/
def refuse (ledger : MintLedger) (call : ℕ) (arg : TransferArg) (error : TransferError) :
    Option MintLedger :=
  if ledger.canRefuse arg error then
    some { ledger with replies := ledger.replies ++ [(call, .error error)] }
  else none

def move (config : Config) (ledger : MintLedger) : MintLedgerMove → Option MintLedger
  | .otherBlock => some { ledger with blocks := ledger.blocks ++ [none] }
  | .execute call => config.transfers[call]?.bind (ledger.execute call)
  | .refuse call error => config.transfers[call]?.bind (ledger.refuse call · error)

/-- The call in flight gets a reply of the ledger, or a call error whatever the ledger does with it. -/
def admits (config : Config) (ledger : MintLedger) : Action → Bool
  | .mints (.reply reply) =>
      (config.mints.bind MintRound.inFlight).all fun call =>
        reply = .callError ∨ (call.call, reply) ∈ ledger.replies
  | _ => true

def environment : Environment MintLedger MintLedgerMove := ⟨admits, move⟩

/-- The block at the index is a transfer with the arguments. -/
def Holds (blocks : List (Option TransferArg)) (index : ℕ) (arg : TransferArg) : Prop :=
  blocks[index]? = some (some arg)

/-- What a move of the ledger can be. -/
inductive Moves (config : Config) (ledger : MintLedger) : MintLedger → Prop
  | otherBlock : Moves config ledger { ledger with blocks := ledger.blocks ++ [none] }
  | executed {call : ℕ} {arg : TransferArg} (hcall : config.transfers[call]? = some arg)
      (hnew : some arg ∉ ledger.blocks) :
      Moves config ledger ⟨ledger.blocks ++ [some arg],
        ledger.replies ++ [(call, .blockIndex ledger.blocks.length)]⟩
  | refused {call : ℕ} {arg : TransferArg} {error : TransferError}
      (hcall : config.transfers[call]? = some arg)
      (hduplicate : ∀ index, error = .duplicate index → Holds ledger.blocks index arg) :
      Moves config ledger { ledger with replies := ledger.replies ++ [(call, .error error)] }

theorem moves_of_move {config : Config} {ledger ledger' : MintLedger} {move : MintLedgerMove}
    (h : ledger.move config move = some ledger') : ledger.Moves config ledger' := by
  cases move with
  | otherBlock =>
      obtain rfl := Option.some.inj h
      exact .otherBlock
  | execute call =>
      obtain ⟨arg, hcall, h⟩ := Option.bind_eq_some_iff.mp h
      simp only [execute, Option.ite_none_left_eq_some, Option.some.injEq] at h
      obtain ⟨hnew, rfl⟩ := h
      exact .executed hcall hnew
  | refuse call error =>
      obtain ⟨arg, hcall, h⟩ := Option.bind_eq_some_iff.mp h
      simp only [refuse, Option.ite_none_right_eq_some, Option.some.injEq] at h
      obtain ⟨hrefuse, rfl⟩ := h
      refine .refused hcall ?_
      rintro index rfl
      exact of_decide_eq_true (p := _ = _) hrefuse

section Holds

variable {blocks : List (Option TransferArg)} {block : Option TransferArg} {index : ℕ}
  {arg : TransferArg}

theorem holds_concat : Holds (blocks ++ [block]) index arg ↔
    Holds blocks index arg ∨ index = blocks.length ∧ block = some arg := by
  unfold Holds
  by_cases hlt : index < blocks.length
  · simp [List.getElem?_append_left hlt, hlt.ne]
  · have hge : blocks.length ≤ index := Nat.le_of_not_lt hlt
    rw [List.getElem?_append_right hge, List.getElem?_eq_none_iff.mpr hge, List.getElem?_singleton]
    split
    · simp
      omega
    · simp
      omega

theorem Holds.concat (h : Holds blocks index arg) (block : Option TransferArg) :
    Holds (blocks ++ [block]) index arg :=
  holds_concat.mpr (.inl h)

end Holds

/-- Blocks stay. -/
theorem Holds.moves {config : Config} {ledger ledger' : MintLedger} {index : ℕ} {arg : TransferArg}
    (h : Holds ledger.blocks index arg) (hmoves : ledger.Moves config ledger') :
    Holds ledger'.blocks index arg := by
  cases hmoves with
  | otherBlock | executed => exact h.concat _
  | refused => exact h

/-- The ledger holds transfers that were requested, each of them once, and a reply that names a block
names the one of its call. -/
structure Serves (ledger : MintLedger) (transfers : List TransferArg) : Prop where
  requested : ∀ {index arg}, Holds ledger.blocks index arg → arg ∈ transfers
  once : ∀ {index index' arg}, Holds ledger.blocks index arg → Holds ledger.blocks index' arg →
    index = index'
  replies : ∀ entry ∈ ledger.replies, ∃ arg, transfers[entry.1]? = some arg ∧
    ∀ index, entry.2.mintBlock = some index → Holds ledger.blocks index arg

namespace Serves

variable {ledger ledger' : MintLedger} {transfers : List TransferArg}

theorem initial (otherBlocks : ℕ) : (MintLedger.initial otherBlocks).Serves [] := by
  have hnone {index : ℕ} {arg : TransferArg} :
      ¬ Holds (MintLedger.initial otherBlocks).blocks index arg := by
    intro hholds
    cases List.eq_of_mem_replicate (List.mem_of_getElem? hholds)
  exact ⟨fun h => absurd h hnone, fun h => absurd h hnone, fun _ h => absurd h List.not_mem_nil⟩

theorem append (h : ledger.Serves transfers) (new : List TransferArg) :
    ledger.Serves (transfers ++ new) := by
  refine ⟨fun hholds => List.mem_append_left _ (h.requested hholds), h.once, fun entry hentry => ?_⟩
  obtain ⟨arg, hget, hblock⟩ := h.replies entry hentry
  exact ⟨arg, (List.getElem?_append_left (List.getElem?_eq_some_iff.mp hget).1).trans hget, hblock⟩

theorem moves {config : Config} (h : ledger.Serves config.transfers)
    (hmoves : ledger.Moves config ledger') : ledger'.Serves config.transfers := by
  cases hmoves with
  | otherBlock =>
      have hholds {index : ℕ} {arg : TransferArg} (hlater : Holds (ledger.blocks ++ [none]) index arg) :
          Holds ledger.blocks index arg := by
        simpa [holds_concat] using hlater
      refine ⟨fun hlater => h.requested (hholds hlater),
        fun hlater hlater' => h.once (hholds hlater) (hholds hlater'), fun entry hentry => ?_⟩
      obtain ⟨arg, hget, hblock⟩ := h.replies entry hentry
      exact ⟨arg, hget, fun index hindex => (hblock index hindex).concat none⟩
  | @executed call arg hcall hnew =>
      -- the ledger executes a transfer only if no block holds its arguments
      have hfresh {index : ℕ} : ¬ Holds ledger.blocks index arg :=
        fun hholds => hnew (List.mem_of_getElem? hholds)
      refine ⟨fun {index other} hlater => ?_, fun {index index' other} hlater hlater' => ?_,
        fun entry hentry => ?_⟩
      · rcases holds_concat.mp hlater with hholds | ⟨-, heq⟩
        · exact h.requested hholds
        · obtain rfl := Option.some.inj heq
          exact List.mem_of_getElem? hcall
      · rcases holds_concat.mp hlater with hholds | ⟨hindex, heq⟩ <;>
          rcases holds_concat.mp hlater' with hholds' | ⟨hindex', heq'⟩
        · exact h.once hholds hholds'
        · obtain rfl := Option.some.inj heq'
          exact absurd hholds hfresh
        · obtain rfl := Option.some.inj heq
          exact absurd hholds' hfresh
        · rw [hindex, hindex']
      · rcases List.mem_append.mp hentry with hold | hlast
        · obtain ⟨arg, hget, hblock⟩ := h.replies entry hold
          exact ⟨arg, hget, fun index hindex => (hblock index hindex).concat _⟩
        · obtain rfl := List.mem_singleton.mp hlast
          refine ⟨arg, hcall, fun index hindex => holds_concat.mpr (.inr ⟨?_, rfl⟩)⟩
          exact (Option.some.inj hindex).symm
  | @refused call arg error hcall hduplicate =>
      refine ⟨h.requested, h.once, fun entry hentry => ?_⟩
      rcases List.mem_append.mp hentry with hold | hlast
      · exact h.replies entry hold
      · obtain rfl := List.mem_singleton.mp hlast
        refine ⟨arg, hcall, fun index hindex => hduplicate index ?_⟩
        cases error <;> simp_all [TransferReply.mintBlock]

end Serves

end MintLedger

/-! ## The minter and the ledger -/

section World

variable [SolanaSdk]

/-- The block at the index is the mint of the deposit, as the credit of its sweep recorded it. -/
def World.MintsAt (world : World MintLedger) (id : DepositSolId) (pending : PendingMint) (index : ℕ) :
    Prop :=
  RecordedMint world.config.canister.log id pending ∧
    MintLedger.Holds world.env.blocks index (mintTransferArg id pending)

/-- Every minted deposit has its mint at the recorded index. -/
structure World.Ledgered (world : World MintLedger) : Prop where
  serves : world.env.Serves world.config.transfers
  minted : ∀ {id minted}, world.config.canister.state.deposits.minted[id]? = some minted →
    ∃ pending, minted = ⟨pending.deposit, pending.amountToMint, minted.mintBlockIndex⟩ ∧
      world.MintsAt id pending minted.mintBlockIndex

namespace World.Ledgered

variable {world : World MintLedger} {config config' : Config} {now : Timestamp} {action : Action}

theorem of_init (h : Config.init minterId args now = .ok config) (otherBlocks : ℕ) :
    Ledgered ⟨config, .initial otherBlocks⟩ := by
  obtain ⟨_, pool, -, -, rfl⟩ := Config.exists_of_init h
  refine ⟨.initial otherBlocks, fun {id minted} hminted => ?_⟩
  simp [Config.idle, Deposits.default] at hminted

theorem steps (h : world.Ledgered) (hwellformed : world.config.Wellformed)
    (hcalls : world.config.CallsRecorded)
    (hpending : ∀ {id pending pending'},
      world.config.canister.state.deposits.pendingMints[id]? = some pending →
      RecordedMint world.config.canister.log id pending' → pending = pending')
    (hadmits : MintLedger.admits world.config world.env action = true)
    (hsteps : world.config.Steps now action config') : Ledgered ⟨config', world.env⟩ := by
  obtain ⟨new, hlog, -⟩ := (hsteps.run hwellformed.replayable).log_append
  obtain ⟨transfers, htransfers⟩ := hsteps.transfers_append
  have hmints {id : DepositSolId} {pending : PendingMint} {index : ℕ}
      (hat : world.MintsAt id pending index) :
      World.MintsAt ⟨config', world.env⟩ id pending index := by
    refine ⟨?_, hat.2⟩
    rw [hlog]
    exact hat.1.append new
  refine ⟨?_, fun {id minted} hminted => ?_⟩
  · rw [htransfers]
    exact h.serves.append transfers
  · rcases hsteps.minted_cases hwellformed.replayable hminted with
      hold | ⟨reply, remaining, call, pending, rfl, hround, rfl, hblock, hget, heq⟩
    · obtain ⟨pending, heq, hat⟩ := h.minted hold
      exact ⟨pending, heq, hmints hat⟩
    · -- the reply is one of the ledger to this call, whose transfer is the recorded mint
      obtain ⟨hrecorded, htransfer⟩ := hcalls.inFlight _ call hround rfl
      obtain rfl := hpending hget hrecorded
      simp only [MintLedger.admits, hround, Option.bind_some, Option.all_some, decide_eq_true_eq]
        at hadmits
      rcases hadmits with rfl | hreply
      · cases hblock
      · obtain ⟨arg, harg, hholds⟩ := h.serves.replies _ hreply
        obtain rfl := Option.some.inj (htransfer.symm.trans harg)
        exact ⟨call.pending, heq, hmints ⟨hrecorded, hholds _ hblock⟩⟩

omit [SolanaSdk] in
theorem moves (h : world.Ledgered) {ledger : MintLedger}
    (hmoves : world.env.Moves world.config ledger) : Ledgered ⟨world.config, ledger⟩ := by
  refine ⟨h.serves.moves hmoves, fun {id minted} hminted => ?_⟩
  obtain ⟨pending, heq, hrecorded, hholds⟩ := h.minted hminted
  exact ⟨pending, heq, hrecorded, hholds.moves hmoves⟩

end World.Ledgered

theorem World.ledgered_of_run {otherBlocks : ℕ} {now : Timestamp}
    {actions : List (WorldAction MintLedgerMove)} {world : World MintLedger}
    (h : runFrom MintLedger.environment (.initial otherBlocks) minterId args now actions =
      some world) :
    world.Ledgered ∧ ∃ done, Config.runFrom minterId args now done = some world.config := by
  refine runFrom_induction World.Ledgered ?_ ?_ ?_ h
  · exact fun config hinit => .of_init hinit otherBlocks
  · intro done world t action config' hdone hledgered hadmits hstep
    obtain ⟨hmints, view, hdeposits⟩ := Config.mintHistory_of_run hdone
    exact hledgered.steps (Config.wellformed_of_run hdone) (Config.callsRecorded_of_run hdone)
      (fun hpending hrecorded => hmints.recordedMint_unique hdeposits
        (hmints.recordedMint hdeposits hpending) hrecorded) hadmits (Config.steps_of_step hstep)
  · exact fun done world move ledger hdone hledgered hmove =>
      hledgered.moves (MintLedger.moves_of_move hmove)

/-- The mints of the ledger: at most one for each deposit, with the account of the deposit and the
amount that the credit of its sweep recorded. -/
structure World.MintsOnce (world : World MintLedger) : Prop where
  /-- The minter made no other mints. -/
  recorded : ∀ {index arg}, MintLedger.Holds world.env.blocks index arg →
    ∃ id pending, world.MintsAt id pending index ∧ arg = mintTransferArg id pending
  atMostOne : ∀ {id pending pending' index index'}, world.MintsAt id pending index →
    world.MintsAt id pending' index' → pending = pending' ∧ index = index'
  /-- While deposit ids fit in a `u64`, the memo of a mint names no other deposit. -/
  memo : world.config.canister.state.deposits.nextId ≤ 2 ^ 64 →
    ∀ {id id' pending index arg}, world.MintsAt id pending index →
      MintLedger.Holds world.env.blocks index arg → id' < 2 ^ 64 → arg.MintOf id' → id' = id
  /-- A minted deposit has exactly one mint, at the recorded index. -/
  minted : ∀ {id minted}, world.config.canister.state.deposits.minted[id]? = some minted →
    ∃ pending, minted = ⟨pending.deposit, pending.amountToMint, minted.mintBlockIndex⟩ ∧
      ∀ pending' index, world.MintsAt id pending' index ↔
        pending' = pending ∧ index = minted.mintBlockIndex

/-- Whatever the ledger answers, and whenever calls fail, callbacks trap or the canister is upgraded,
each deposit is minted at most once. -/
theorem World.mintsOnce_of_run {otherBlocks : ℕ} {minterId : Principal} {args : InitArgs}
    {now : Timestamp} {actions : List (WorldAction MintLedgerMove)} {world : World MintLedger}
    (h : runFrom MintLedger.environment (.initial otherBlocks) minterId args now actions =
      some world) : world.MintsOnce := by
  obtain ⟨hledgered, done, hdone⟩ := ledgered_of_run h
  obtain ⟨hmints, view, hdeposits⟩ := Config.mintHistory_of_run hdone
  have hcalls := Config.callsRecorded_of_run hdone
  have hunique {id : DepositSolId} {pending pending' : PendingMint} {index index' : ℕ}
      (hat : world.MintsAt id pending index) (hat' : world.MintsAt id pending' index') :
      pending = pending' ∧ index = index' := by
    obtain rfl := hmints.recordedMint_unique hdeposits hat.1 hat'.1
    exact ⟨rfl, hledgered.serves.once hat.2 hat'.2⟩
  refine ⟨fun {index arg} hholds => ?_, hunique, ?_, fun {id minted} hminted => ?_⟩
  · obtain ⟨id, pending, hrecorded, rfl⟩ := hcalls.transfers arg (hledgered.serves.requested hholds)
    exact ⟨id, pending, ⟨hrecorded, hholds⟩, rfl⟩
  · intro hfits id id' pending index arg hat hholds hid' hmint
    obtain rfl : mintTransferArg id pending = arg :=
      Option.some.inj (Option.some.inj (hat.2.symm.trans hholds))
    have hid : id < 2 ^ 64 := (MintHistory.lt_nextId hdeposits hat.1).trans_le hfits
    exact (hmint.depositId_eq hid hid').symm
  · obtain ⟨pending, heq, hat⟩ := hledgered.minted hminted
    refine ⟨pending, heq, fun pending' index => ⟨fun hat' => hunique hat' hat, ?_⟩⟩
    rintro ⟨rfl, rfl⟩
    exact hat

end World

section Sample

attribute [local instance] Solana.sdk

/-- The reply to the transfer of the deposit is lost, and the retry of the next round is a duplicate. -/
def sampleMint : List (WorldAction MintLedgerMove) :=
  sampleDeposit.map (fun entry => .minter entry.1 entry.2) ++
    [.minter 20 (.mints .start), .minter 21 (.mints .next), .move (.execute 0),
      .minter 22 (.mints (.reply .callError)), .minter 23 (.mints .finish), .move .otherBlock,
      .minter 24 (.mints .start), .minter 25 (.mints .next), .move (.refuse 1 (.duplicate 3)),
      .minter 26 (.mints (.reply (.error (.duplicate 3)))), .minter 27 (.mints .finish)]

theorem World.mintsOnce_sampleMint :
    ∃ world, runFrom MintLedger.environment (.initial 3) sampleMinterId sampleInitArgs 0 sampleMint =
        some world ∧ world.env.blocks.length = 5 ∧
      (world.config.canister.state.deposits.minted[0]?.map (·.mintBlockIndex)) = some 3 ∧
      world.MintsOnce := by
  obtain ⟨world, hrun, hblocks, hminted⟩ : ∃ world,
      runFrom MintLedger.environment (.initial 3) sampleMinterId sampleInitArgs 0 sampleMint =
        some world ∧
      world.env.blocks.length = 5 ∧
      world.config.canister.state.deposits.minted[0]?.map (·.mintBlockIndex) = some 3 :=
    exists_of_any (by decide +kernel)
  exact ⟨world, hrun, hblocks, hminted, mintsOnce_of_run hrun⟩

end Sample

end Cksol
