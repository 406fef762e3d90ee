import Cksol.Common.Sums
import Cksol.Minter.Accounting
import Cksol.Minter.FinalizationRounds
import Cksol.Minter.World

/-! # The main address on Solana

Sweeps that land credit the main address and withdrawals that land debit it, whenever that happens
relative to the messages of the minter. The tracked balance is credited after a sweep has landed and
debited before a withdrawal can, so it never exceeds what the address holds.
-/

namespace Cksol

open Std
open Canister (Run)

variable {planned : PlannedSweep} {signature : Signature}

/-! ## What the log credits -/

/-- The signature and the amount that an event credits. -/
def EventType.credit : EventType → Option (Signature × ℕ)
  | creditedSweep signature amountReceived _ => some (signature, amountReceived.toNat)
  | _ => none

/-- The credited sweeps, with what they brought in. -/
def credits (log : List Event) : List (Signature × ℕ) :=
  log.filterMap fun event => event.payload.credit

theorem map_fst_credits (log : List Event) :
    (credits log).map Prod.fst = creditedSignatures log := by
  rw [credits, List.map_filterMap, creditedSignatures]
  refine List.filterMap_congr fun event _ => ?_
  cases event.payload <;> rfl

theorem sum_credits (log : List Event) : ((credits log).map Prod.snd).sum = totalReceived log := by
  induction log with
  | nil => rfl
  | cons event log ih =>
      have htotal : totalReceived (event :: log) =
          event.payload.amountReceived + totalReceived log := rfl
      rw [htotal, ← ih, credits, List.filterMap_cons]
      cases event.payload <;> simp [EventType.credit, EventType.amountReceived, credits]

/-! ## The main address -/

section MainAddress

variable [SolanaSdk]

/-- Whether one of the messages carries the nonce value that the debit is for. -/
def Debit.carriedBy (debit : Debit) (messages : List Message) : Bool :=
  messages.any fun message => message.advancedNonceAccount = some debit.nonceAccount ∧
    message.recentBlockhash = debit.nonceValue

/-- What the main address holds, the values that the nonce accounts store, and what has landed: the
messages of withdrawals, and the sweeps by their signatures. -/
structure MainAddress where
  lamports : ℤ
  stored : Address → Hash
  landedWithdrawals : List Message
  landedSweeps : List (Signature × PlannedSweep)

/-- What happens to the main address on chain. -/
inductive MainAddressMove where
  /-- The withdrawal of the signing request at the position lands, with the transfers of its message. -/
  | landWithdrawal (position : ℕ) (transfers : List (Address × Lamport)) (succeeded : Bool)
      (nextValue : Hash)
  /-- The sweep of the signing request at the position lands under the signature. -/
  | landSweep (position : ℕ) (signature : Signature)
  | receive (amount : ℕ)

namespace MainAddress

variable {main main' : MainAddress}

/-- Nothing has landed yet. -/
def initial (lamports : ℕ) (stored : Address → Hash) : MainAddress := ⟨lamports, stored, [], []⟩

/-- What a landing withdrawal costs: the fee in any case, the transfers if it succeeds. -/
def cost (transfers : List (Address × Lamport)) (succeeded : Bool) : ℕ :=
  (if succeeded then (transfers.map (·.2.toNat)).sum else 0) + batchWithdrawalTxFee.toNat

/-- A message lands once, while its nonce value is the stored one. -/
def landWithdrawal (main : MainAddress) (message : Message) (transfers : List (Address × Lamport))
    (succeeded : Bool) (nextValue : Hash) : Option MainAddress := do
  let account ← message.advancedNonceAccount
  let payer ← message.accountKeys.head?
  if message ∉ main.landedWithdrawals ∧ main.stored account = message.recentBlockhash ∧
      (buildBatchWithdrawalMessage payer account message.recentBlockhash transfers).toOption =
        some message then
    some { main with
      lamports := main.lamports - cost transfers succeeded
      stored := Function.update main.stored account nextValue
      landedWithdrawals := main.landedWithdrawals ++ [message] }
  else none

/-- A landing sweep brings in what was planned. -/
def landSweep (main : MainAddress) (planned : PlannedSweep) (signature : Signature) :
    Option MainAddress :=
  if signature ∉ main.landedSweeps.map Prod.fst then
    some { main with
      lamports := main.lamports + planned.sweep.expectedReceived.toNat
      landedSweeps := main.landedSweeps ++ [(signature, planned)] }
  else none

def move (config : Config) (main : MainAddress) : MainAddressMove → Option MainAddress
  | .landWithdrawal position transfers succeeded nextValue =>
      match config.signRequests[position]? with
      | some (.withdrawal withdrawal) =>
          main.landWithdrawal withdrawal.message transfers succeeded nextValue
      | _ => none
  | .landSweep position signature =>
      match config.signRequests[position]? with
      | some (.sweep planned _) => main.landSweep planned signature
      | _ => none
  | .receive amount => some { main with lamports := main.lamports + amount }

/-- A transaction that is reported as executed without an error has landed, with the message reported. -/
def admits (config : Config) (main : MainAddress) : Action → Bool
  | .finalization (.finalized replies) =>
      match config.finalization with
      | some (.crediting sweeps) =>
          (sweeps.zip replies).all fun entry => entry.2.all fun fetched =>
            fetched.status.all fun status => status.err.isSome ||
              main.landedSweeps.any fun landed =>
                landed.1 = entry.1.1 ∧ fetched.message = .legacy landed.2.message
      | _ => true
  | _ => true

def environment : Environment MainAddress MainAddressMove := ⟨admits, move⟩

/-- What the sweeps that landed brought in. -/
def swept (main : MainAddress) : ℕ :=
  (main.landedSweeps.map (·.2.sweep.expectedReceived.toNat)).sum

theorem landWithdrawal_eq_some {message : Message} {transfers : List (Address × Lamport)}
    {succeeded : Bool} {nextValue : Hash}
    (h : main.landWithdrawal message transfers succeeded nextValue = some main') :
    message ∉ main.landedWithdrawals ∧ ∃ account payer,
      message.advancedNonceAccount = some account ∧
      buildBatchWithdrawalMessage payer account message.recentBlockhash transfers = .ok message ∧
      main' = { main with
        lamports := main.lamports - cost transfers succeeded
        stored := Function.update main.stored account nextValue
        landedWithdrawals := main.landedWithdrawals ++ [message] } := by
  simp only [landWithdrawal, Option.bind_eq_bind, Option.bind_eq_some_iff,
    Option.ite_none_right_eq_some, Option.some.injEq] at h
  obtain ⟨account, haccount, payer, -, ⟨hnew, -, hbuild⟩, rfl⟩ := h
  refine ⟨hnew, account, payer, haccount, ?_, rfl⟩
  cases hresult : buildBatchWithdrawalMessage payer account message.recentBlockhash transfers with
  | error _ =>
      rw [hresult] at hbuild
      cases hbuild
  | ok built =>
      rw [hresult] at hbuild
      rw [Option.some.inj hbuild]

omit [SolanaSdk] in
theorem landSweep_eq_some (h : main.landSweep planned signature = some main') :
    main' = { main with
      lamports := main.lamports + planned.sweep.expectedReceived.toNat
      landedSweeps := main.landedSweeps ++ [(signature, planned)] } := by
  simp only [landSweep, Option.ite_none_right_eq_some, Option.some.injEq] at h
  exact h.2.symm

/-- What a move of the main address can be. -/
theorem move_cases {config : Config} {move : MainAddressMove}
    (h : main.move config move = some main') :
    (∃ withdrawal transfers succeeded nextValue, .withdrawal withdrawal ∈ config.signRequests ∧
      main.landWithdrawal withdrawal.message transfers succeeded nextValue = some main') ∨
    (∃ planned signer signature, .sweep planned signer ∈ config.signRequests ∧
      main.landSweep planned signature = some main') ∨
    ∃ amount : ℕ, main' = { main with lamports := main.lamports + amount } := by
  unfold MainAddress.move at h
  split at h
  · split at h
    · next hrequest => exact .inl ⟨_, _, _, _, List.mem_of_getElem? hrequest, h⟩
    · cases h
  · split at h
    · next hrequest => exact .inr (.inl ⟨_, _, _, List.mem_of_getElem? hrequest, h⟩)
    · cases h
  · exact .inr (.inr ⟨_, (Option.some.inj h).symm⟩)

end MainAddress

/-! ## The requests of sweeps -/

namespace Config

variable {config config' : Config} {now : Timestamp} {action : Action}

theorem Steps.mem_signRequests (hsteps : config.Steps now action config') {request : SignRequest}
    (h : request ∈ config.signRequests) : request ∈ config'.signRequests := by
  cases hsteps with
  | withdrawals | sweeps => exact List.mem_append_left _ h
  | _ => exact h

/-- Signatures are requested for sweeps that were planned. -/
theorem planned_of_run {minterId : Principal} {args : InitArgs}
    {actions : List (Timestamp × Action)} (h : runFrom minterId args now actions = some config)
    {signer : Signer} (hmem : .sweep planned signer ∈ config.signRequests) :
    ∃ batch block destination, planSweep batch block destination = .ok (some planned) := by
  refine runFrom_induction (fun _ config => ∀ planned signer,
    .sweep planned signer ∈ config.signRequests →
      ∃ batch block destination, planSweep batch block destination = .ok (some planned))
    ?_ ?_ h planned signer hmem
  · intro config hinit
    obtain ⟨canister, -, rfl⟩ := init_eq_ok.mp hinit
    intro planned signer hmem
    cases hmem
  · intro done config t action config' _ ih hsteps planned signer hmem
    -- two rounds request signatures, and only one of them for sweeps
    cases hsteps with
    | withdrawals hsteps =>
        rcases List.mem_append.mp hmem with hold | hnew
        · exact ih planned signer hold
        · obtain ⟨withdrawal, -, heq⟩ := List.mem_map.mp hnew
          cases heq
    | sweeps hsteps =>
        rcases List.mem_append.mp hmem with hold | hnew
        · exact ih planned signer hold
        · obtain ⟨sweep, hsweep, hrequest⟩ := List.mem_flatMap.mp hnew
          obtain ⟨signer, -, heq⟩ := List.mem_map.mp hrequest
          cases heq
          generalize config.sweeps = before at hsteps
          cases hsteps with
          | planned hplanned =>
              obtain ⟨batch, -, hbatch⟩ := mem_planSweeps hplanned hsweep
              exact ⟨_, _, _, hbatch⟩
          | _ => cases hsweep
    | _ => exact ih planned signer hmem

end Config

/-! ## What has landed -/

namespace World

variable {world : World MainAddress}

/-- What the log credits has landed, and the main address holds at least what landed sweeps brought in
beyond the debits of the landed withdrawals. -/
structure Landed (world : World MainAddress) : Prop where
  planned : ∀ landed ∈ world.env.landedSweeps, ∃ batch block destination,
    planSweep batch block destination = .ok (some landed.2)
  requested : ∀ message ∈ world.env.landedWithdrawals, ∃ withdrawal,
    .withdrawal withdrawal ∈ world.config.signRequests ∧ withdrawal.message = message
  credited : ∀ credit ∈ credits world.config.canister.log, ∃ planned,
    (credit.1, planned) ∈ world.env.landedSweeps ∧
      credit.2 = planned.sweep.expectedReceived.toNat
  covered : (world.env.swept : ℤ) ≤ world.env.lamports +
    sumWhere (·.carriedBy world.env.landedWithdrawals) Debit.amount
      (createdDebits world.config.canister.log)

namespace Landed

/-- A sweep is credited with what it brought in when it landed. -/
theorem credit [SolanaSdk.Lawful] (h : world.Landed) (hcurrent : world.config.FinalizationCurrent)
    (hconsistent : world.config.canister.Consistent) {sweeps : List (Signature × Sweep)}
    {replies : List (Option Sweep.FetchedTransaction)}
    (hround : world.config.finalization = some (.crediting sweeps))
    (hadmits : world.env.admits world.config (.finalization (.finalized replies)) = true)
    {amountReceived : Lamport} {mints : List CreditedDeposit}
    (hmem : .creditedSweep signature amountReceived mints ∈ creditEvents sweeps replies) :
    ∃ planned, (signature, planned) ∈ world.env.landedSweeps ∧
      amountReceived = planned.sweep.expectedReceived := by
  obtain ⟨⟨⟨signature', sweep⟩, reply⟩, hentry, hevent⟩ := List.mem_filterMap.mp hmem
  rcases creditEvent_eq_some hevent with ⟨fetched, settled, rfl, hsettle, heq⟩ | heq
  · cases heq
    obtain ⟨hreceived, -, message, hmessage, hbuilt, status, hstatus, herr⟩ :=
      Sweep.settle_eq_ok hsettle
    -- the transaction has landed with the message that was settled
    have hlanded : ∃ landed ∈ world.env.landedSweeps, landed.1 = signature' ∧
        fetched.message = .legacy landed.2.message := by
      simp only [MainAddress.admits, hround, List.all_eq_true] at hadmits
      simpa [hstatus, herr] using hadmits _ hentry
    obtain ⟨⟨_, planned⟩, hlanded, rfl, hfetched⟩ := hlanded
    refine ⟨planned, hlanded, ?_⟩
    obtain ⟨batch, block, destination, hplanned⟩ := h.planned _ hlanded
    obtain ⟨hplan, hplannedMessage, -⟩ := planSweep_eq_ok hplanned
    have hfinalized := (hcurrent _ hround).finalized _ (List.of_mem_zip hentry).1
    obtain ⟨view, hview⟩ := hconsistent.deposits
    obtain ⟨deposits, minterAddress, hrecorded, -⟩ := hview.finalized hfinalized
    have hsame : message = planned.message := by
      rw [hmessage] at hfetched
      cases hfetched
      rfl
    have hmessages := (hbuilt.symm.trans hsame).trans hplannedMessage
    rw [hreceived]
    exact Sweep.expectedReceived_of_sweepMessage hrecorded hplan hmessages
  · cases heq

theorem minter [SolanaSdk.Lawful] (h : world.Landed) (hwellformed : world.config.Wellformed)
    (hcurrent : world.config.FinalizationCurrent) (hconsistent : world.config.canister.Consistent)
    {now : Timestamp} {action : Action} {config' : Config}
    (hadmits : world.env.admits world.config action = true)
    (hsteps : world.config.Steps now action config') : Landed ⟨config', world.env⟩ := by
  have hreplay := hwellformed.replayable
  constructor
  case planned => exact h.planned
  case requested =>
    intro message hmem
    obtain ⟨withdrawal, hrequest, heq⟩ := h.requested message hmem
    exact ⟨withdrawal, hsteps.mem_signRequests hrequest, heq⟩
  case credited =>
    intro credit hcredit
    obtain ⟨⟨timestamp, payload⟩, hmem, hpayload⟩ := List.mem_filterMap.mp hcredit
    cases payload with
    | creditedSweep signature amountReceived mints =>
        obtain rfl := Option.some.inj hpayload
        rcases hsteps.mem_log_finalization hreplay hmem rfl with
          hold | ⟨round, reply, hround, rfl, hevent⟩
        · exact h.credited _ (List.mem_filterMap.mpr ⟨_, hold, rfl⟩)
        · unfold FinalizeRound.events at hevent
          split at hevent
          · obtain ⟨_, -, heq | heq | heq⟩ := mem_sweepStatusEvents hevent <;> cases heq
          · obtain ⟨withdrawal, -, hlanded⟩ :=
              Option.bind_eq_some_iff.mp (Option.mem_toList.mp hevent)
            rcases Config.landedWithdrawalEvent_eq_some hlanded with heq | heq <;> cases heq
          · obtain ⟨planned, hlanded, rfl⟩ := h.credit hcurrent hconsistent hround hadmits hevent
            exact ⟨planned, hlanded, rfl⟩
          · cases hevent
    | _ => cases hpayload
  case covered =>
    obtain ⟨new, hlog, -⟩ := (hsteps.run hreplay).log_append
    -- a new debit has not landed, so it does not count yet
    obtain ⟨debits, hdebits⟩ := exists_createdDebits_append world.config.canister.log new
    have hcovered := h.covered
    rw [hlog, hdebits, sumWhere_append]
    dsimp only
    omega

/-- A withdrawal lands once, and costs at most what was debited when it was created. -/
theorem landWithdrawal [SolanaSdk.Lawful] (h : world.Landed) {bindings : List Binding}
    (hsigns : world.config.Signs bindings) {withdrawal : BoundWithdrawal}
    (hrequest : .withdrawal withdrawal ∈ world.config.signRequests)
    {transfers : List (Address × Lamport)} {succeeded : Bool} {nextValue : Hash} {main : MainAddress}
    (hland : world.env.landWithdrawal withdrawal.message transfers succeeded nextValue = some main) :
    Landed ⟨world.config, main⟩ := by
  obtain ⟨hnew, account, payer, haccount, hbuild, rfl⟩ := MainAddress.landWithdrawal_eq_some hland
  obtain ⟨binding, hbinding, -, -, hbuilds⟩ := hsigns.requested hrequest
  obtain ⟨hcarriesAccount, hcarriesValue⟩ := hbuilds.carries
  have hdebit := hsigns.history.debited binding hbinding
  have hcost : MainAddress.cost transfers succeeded ≤ binding.debit.amount := by
    obtain ⟨key, -, hbuild'⟩ := hbuilds
    have hamounts := congrArg (List.map UInt64.toNat) (map_amount_of_build hbuild hbuild')
    simp only [State.withdrawalTransfers, List.map_map, Function.comp_def] at hamounts
    have hamount : binding.debit.amount =
        (binding.requests.map (·.amountToTransfer.toNat)).sum + batchWithdrawalTxFee.toNat := rfl
    rw [MainAddress.cost, hamounts, hamount]
    split <;> omega
  -- nothing with the same nonce value has landed
  have hnotLanded : binding.debit.carriedBy world.env.landedWithdrawals = false := by
    refine List.any_eq_false.mpr fun message hmessage hsame => hnew ?_
    obtain ⟨withdrawal', hrequest', rfl⟩ := h.requested message hmessage
    obtain ⟨haccount', hvalue'⟩ := of_decide_eq_true hsame
    rwa [hsigns.message_unique hrequest hrequest' (hcarriesAccount.trans haccount'.symm)
      (hcarriesValue.trans hvalue'.symm)]
  constructor
  case planned => exact h.planned
  case requested =>
    intro message hmem
    rcases List.mem_append.mp hmem with hold | hlast
    · exact h.requested message hold
    · exact ⟨withdrawal, hrequest, (List.mem_singleton.mp hlast).symm⟩
  case credited => exact h.credited
  case covered =>
    have hsum : sumWhere (·.carriedBy world.env.landedWithdrawals) Debit.amount
        (createdDebits world.config.canister.log) + binding.debit.amount ≤
        sumWhere (·.carriedBy (world.env.landedWithdrawals ++ [withdrawal.message])) Debit.amount
          (createdDebits world.config.canister.log) := by
      refine sumWhere_add_le_of_imp (fun debit hlanded => ?_) hdebit hnotLanded ?_
      · rw [Debit.carriedBy, List.any_append, Bool.or_eq_true]
        exact .inl hlanded
      · simp [Debit.carriedBy, hcarriesAccount, hcarriesValue, Binding.debit]
    have hcovered := h.covered
    dsimp only [MainAddress.swept] at hcovered ⊢
    omega

theorem landSweep (h : world.Landed)
    (hplanned : ∃ batch block destination, planSweep batch block destination = .ok (some planned))
    {main : MainAddress} (hland : world.env.landSweep planned signature = some main) :
    Landed ⟨world.config, main⟩ := by
  obtain rfl := MainAddress.landSweep_eq_some hland
  constructor
  case planned =>
    intro landed hlanded
    rcases List.mem_append.mp hlanded with hold | hlast
    · exact h.planned landed hold
    · obtain rfl := List.mem_singleton.mp hlast
      exact hplanned
  case requested => exact h.requested
  case credited =>
    intro credit hcredit
    obtain ⟨planned', hlanded, hamount⟩ := h.credited credit hcredit
    exact ⟨planned', List.mem_append_left _ hlanded, hamount⟩
  case covered =>
    have hcovered := h.covered
    dsimp only [MainAddress.swept] at hcovered ⊢
    rw [List.map_append, List.sum_append, List.map_singleton, List.sum_singleton]
    dsimp only
    omega

end Landed

section Runs

variable [SolanaSdk.Lawful] {minterId : Principal} {args : InitArgs} {now : Timestamp}
  {actions : List (WorldAction MainAddressMove)} {lamports : ℕ} {stored : Address → Hash}

theorem landed_of_run (h : runFrom MainAddress.environment (.initial lamports stored) minterId args now
      actions = some world) :
    world.Landed ∧ ∃ done, Config.runFrom minterId args now done = some world.config := by
  refine runFrom_induction Landed ?_ ?_ ?_ h
  · intro config hinit
    obtain ⟨_, pool, -, -, rfl⟩ := Config.exists_of_init hinit
    constructor <;> simp [MainAddress.initial, MainAddress.swept, Config.idle, credits,
      EventType.credit, createdDebits, withdrawalRecord, WithdrawalRecord.apply,
      WithdrawalRecord.empty, sumWhere]
  · intro done world t action config' hdone hlanded hadmits hstep
    exact hlanded.minter (Config.wellformed_of_run hdone) (Config.finalizationCurrent_of_run hdone)
      (Config.consistent_of_run hdone) hadmits (Config.steps_of_step hstep)
  · intro done world move main hdone hlanded hmove
    rcases MainAddress.move_cases hmove with
      ⟨withdrawal, transfers, succeeded, nextValue, hrequest, hland⟩ |
        ⟨planned, signer, signature, hrequest, hland⟩ | ⟨amount, rfl⟩
    · obtain ⟨-, bindings, hsigns⟩ := Config.signs_of_run hdone
      exact hlanded.landWithdrawal hsigns hrequest hland
    · exact hlanded.landSweep (Config.planned_of_run hdone hrequest) hland
    · have hcovered := hlanded.covered
      refine ⟨hlanded.planned, hlanded.requested, hlanded.credited, ?_⟩
      dsimp only [MainAddress.swept] at hcovered ⊢
      omega

/-- The debits of created withdrawals that have not landed. -/
def outstanding (world : World MainAddress) : ℕ :=
  sumWhere (fun debit => !debit.carriedBy world.env.landedWithdrawals) Debit.amount
    (createdDebits world.config.canister.log)

omit [SolanaSdk.Lawful] in
/-- What the log credits is at most what the landed sweeps brought in. -/
theorem Landed.totalReceived_le (h : world.Landed) (hcredits : CreditHistory
    world.config.canister.log world.config.canister.state) :
    totalReceived world.config.canister.log ≤ world.env.swept := by
  have hnodup : (credits world.config.canister.log).Nodup := by
    refine List.Nodup.of_map Prod.fst ?_
    rw [map_fst_credits]
    exact hcredits.nodup
  have hsubset : credits world.config.canister.log ⊆
      world.env.landedSweeps.map fun landed => (landed.1, landed.2.sweep.expectedReceived.toNat) := by
    intro credit hmem
    obtain ⟨planned, hlanded, hamount⟩ := h.credited credit hmem
    exact List.mem_map.mpr ⟨_, hlanded, Prod.ext rfl hamount.symm⟩
  have hle := sum_le_sum_of_nodup_of_subset (f := Prod.snd) hnodup hsubset
  rwa [sum_credits, List.map_map] at hle

/-- What the tracked balance and the withdrawals still to land come to is on the main address. -/
theorem balance_add_outstanding_le
    (h : runFrom MainAddress.environment (.initial lamports stored) minterId args now actions =
      some world) :
    (world.config.canister.state.balance.toNat + world.outstanding : ℤ) ≤ world.env.lamports := by
  obtain ⟨hlanded, done, hdone⟩ := landed_of_run h
  obtain ⟨-, initial, hinit, hrun⟩ := Config.emits_of_run hdone
  have hbounded : world.config.canister.BalanceBounded :=
    Canister.BalanceBounded.run (.of_init hinit) (Canister.BalanceAccounted.of_init hinit).le hrun
  have hreceived := hlanded.totalReceived_le (Config.consistent_of_run hdone).credits
  have hcovered := hlanded.covered
  -- what has landed and what has not are all of the debits
  have hsplit := sumWhere_add_sumWhere_not (Debit.carriedBy · world.env.landedWithdrawals)
    Debit.amount (createdDebits world.config.canister.log)
  simp only [Canister.BalanceBounded, totalDebited, outstanding] at hbounded ⊢
  omega

/-- The tracked balance is at most what the main address holds, also once every created withdrawal
has landed. -/
structure BalanceCovered (world : World MainAddress) : Prop where
  balance_le : (world.config.canister.state.balance.toNat : ℤ) ≤ world.env.lamports
  balance_add_le : (world.config.canister.state.balance.toNat + world.outstanding : ℤ) ≤
    world.env.lamports

theorem balanceCovered_of_run (h : runFrom MainAddress.environment (.initial lamports stored) minterId
    args now actions = some world) : world.BalanceCovered := by
  have hle := balance_add_outstanding_le h
  exact ⟨by omega, hle⟩

end Runs

end World

end MainAddress

section Sample

attribute [local instance] Solana.sdk

/-- A sweep lands before it is settled, a withdrawal after it was created. -/
def sampleLandings : List (WorldAction MainAddressMove) :=
  (sampleManualDeposit.take 6).map (fun entry => .minter entry.1 entry.2) ++
    [.move (.landSweep 0 5)] ++
    (sampleManualDeposit.drop 6).map (fun entry => .minter entry.1 entry.2) ++
    [.minter 24 (.withdrawals .requestSignatures), .move (.receive 3),
      .move (.landWithdrawal 1 [(5, 1_995_000)] true 78)]

theorem World.balanceCovered_sampleLandings :
    ∃ world, runFrom MainAddress.environment (.initial 0 fun _ => 77) sampleMinterId sampleInitArgs 0
        sampleLandings = some world ∧
      (world.config.canister.state.balance = 27_104_120 ∧ world.env.lamports = 27_104_123) ∧
      world.BalanceCovered := by
  obtain ⟨world, hworld, htest⟩ : ∃ world,
      runFrom MainAddress.environment (.initial 0 fun _ => 77) sampleMinterId sampleInitArgs 0
        sampleLandings = some world ∧
      world.config.canister.state.balance = 27_104_120 ∧ world.env.lamports = 27_104_123 :=
    exists_of_any (by decide +kernel)
  have := Solana.lawful_sdk
  exact ⟨world, hworld, htest, balanceCovered_of_run hworld⟩

end Sample

end Cksol
