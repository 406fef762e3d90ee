import Cksol.Solana.Compile
import Cksol.State.PlanOrder

/-! # Messages that determine their sweeps

A compiled message resolves to one payer and one list of transfers. The message of a plan therefore
determines what the plan pays, and recovery accepts no other message.
-/

namespace Cksol

open Std SolanaSdk

section Messages

variable [SolanaSdk]

/-- The source, the target and the amount of a transfer. -/
abbrev ResolvedTransfer := Address × Address × Lamport

/-- Under its account keys, the message is paid for by the payer and executes the transfers. -/
structure Message.Pays (message : Message) (payer : Address) (transfers : List ResolvedTransfer) :
    Prop where
  payer_first : message.accountKeys.head? = some payer
  resolves : List.Forall₂ (Resolves message.accountKeys)
    (transfers.map fun entry => transfer entry.1 entry.2.1 entry.2.2) message.instructions

namespace Message

variable [Lawful] {message : Message}

/-- A compiled instruction resolves to one transfer. -/
theorem resolves_transfer_unique {accountKeys : List Address} {compiled : CompiledInstruction}
    {entry entry' : ResolvedTransfer}
    (h : Resolves accountKeys (transfer entry.1 entry.2.1 entry.2.2) compiled)
    (h' : Resolves accountKeys (transfer entry'.1 entry'.2.1 entry'.2.2) compiled) :
    entry = entry' := by
  have haccounts := h.accounts.symm.trans h'.accounts
  have hkeys : ∀ entry : ResolvedTransfer,
      (transfer entry.1 entry.2.1 entry.2.2).accounts.map (some ·.pubkey) =
        [some entry.1, some entry.2.1] := by
    intro entry
    have hpubkeys := congrArg (List.map some) (Lawful.transfer_accounts entry.1 entry.2.1 entry.2.2)
    rwa [List.map_map] at hpubkeys
  rw [hkeys, hkeys] at haccounts
  obtain ⟨hsource, htarget⟩ := List.cons.inj haccounts
  have hamount := Lawful.transfer_data_injective _ _ _ _ _ _ (h.data.symm.trans h'.data)
  exact Prod.ext (Option.some.inj hsource)
    (Prod.ext (Option.some.inj (List.cons.inj htarget).1) hamount)

theorem resolves_transfers_unique {accountKeys : List Address} {instructions : List CompiledInstruction}
    {transfers transfers' : List ResolvedTransfer}
    (h : List.Forall₂ (Resolves accountKeys)
      (transfers.map fun entry => transfer entry.1 entry.2.1 entry.2.2) instructions)
    (h' : List.Forall₂ (Resolves accountKeys)
      (transfers'.map fun entry => transfer entry.1 entry.2.1 entry.2.2) instructions) :
    transfers = transfers' := by
  induction instructions generalizing transfers transfers' with
  | nil =>
      rw [List.forall₂_nil_right_iff, List.map_eq_nil_iff] at h h'
      rw [h, h']
  | cons compiled instructions ih =>
      obtain ⟨instruction, rest, hfirst, hrest, hmap⟩ := List.forall₂_cons_right_iff.mp h
      obtain ⟨instruction', rest', hfirst', hrest', hmap'⟩ := List.forall₂_cons_right_iff.mp h'
      obtain ⟨entry, transfers, rfl, rfl, rfl⟩ := List.map_eq_cons_iff.mp hmap
      obtain ⟨entry', transfers', rfl, rfl, rfl⟩ := List.map_eq_cons_iff.mp hmap'
      rw [resolves_transfer_unique hfirst hfirst', ih hrest hrest']

/-- A message pays one list of transfers, for one payer. -/
theorem Pays.unique {payer payer' : Address} {transfers transfers' : List ResolvedTransfer}
    (h : message.Pays payer transfers) (h' : message.Pays payer' transfers') :
    payer = payer' ∧ transfers = transfers' :=
  ⟨Option.some.inj (h.payer_first.symm.trans h'.payer_first),
    resolves_transfers_unique h.resolves h'.resolves⟩

end Message

namespace Sweep

variable {deposits : List (DepositSolId × QueuedDeposit)} {minterAddress : Address} {sweep : Sweep}

/-- The transfers as the message of the sweep pays them. -/
def resolvedTransfers (sweep : Sweep) : List ResolvedTransfer :=
  sweep.transfers.map fun transfer => (transfer.source, sweep.minterAddress, transfer.amount)

/-- The address of the deposit that pays the fee. -/
def feePayerAddress (sweep : Sweep) : Option Address :=
  (sweep.deposits[sweep.feePayer]?).map QueuedDeposit.address

omit [SolanaSdk] in
theorem feePayerAddress_eq (h : plan deposits minterAddress = .ok sweep) :
    sweep.feePayerAddress = sweep.transfers.head?.map Transfer.source := by
  obtain ⟨payer, payerAmount, others, hperm, horders⟩ := exists_orders h
  obtain ⟨-, -, hunique, -⟩ := plan_eq_ok h
  have hpayer := ((unique_eq_ok hunique).2 _ _).mpr (hperm.subset List.mem_cons_self)
  rw [feePayerAddress, horders.feePayer, hpayer, horders.head?_transfers]
  rfl

section Lawful

variable [Lawful]

/-- The message of a plan pays what was planned. -/
theorem pays_sweepMessage (h : plan deposits minterAddress = .ok sweep) (blockhash : Hash) :
    ∃ payer, sweep.feePayerAddress = some payer ∧
      (sweep.sweepMessage blockhash).Pays payer sweep.resolvedTransfers := by
  obtain ⟨payer, payerAmount, others, -, horders⟩ := exists_orders h
  have hhead := horders.head?_transfers
  refine ⟨payer.2.address, by rw [feePayerAddress_eq h, hhead, Option.map_some], ?_, ?_⟩
  · rw [sweepMessage, hhead]
    exact Lawful.payer_first _ _ _
  · rw [resolvedTransfers, List.map_map]
    exact Lawful.resolves_new _ _ _

theorem recentBlockhash_sweepMessage (sweep : Sweep) (blockhash : Hash) :
    (sweep.sweepMessage blockhash).recentBlockhash = blockhash :=
  Lawful.recentBlockhash_new _ _ _

/-- Recovery accepts a message only if it pays exactly what was planned. -/
theorem recover_of_pays (h : plan deposits minterAddress = .ok sweep) {message : Message}
    {payer : Address} {transfers : List ResolvedTransfer} (hpays : message.Pays payer transfers)
    (hother : sweep.feePayerAddress ≠ some payer ∨ transfers ≠ sweep.resolvedTransfers) :
    ∃ error, recover deposits minterAddress message = .ok (.error error) := by
  have hne : sweep.sweepMessage message.recentBlockhash ≠ message := by
    intro heq
    obtain ⟨payer', hpayer, hpays'⟩ := pays_sweepMessage h message.recentBlockhash
    rw [heq] at hpays'
    obtain ⟨rfl, rfl⟩ := hpays.unique hpays'
    exact hother.elim (fun hne => hne hpayer) fun hne => hne rfl
  refine ⟨.unexpectedMessage (sweep.sweepMessage message.recentBlockhash) message, ?_⟩
  simp [recover, h, hne]

/-- The message of a sweep determines what it pays, and recovers the sweep. -/
structure MessageDetermines (sweep : Sweep) (deposits : List (DepositSolId × QueuedDeposit))
    (minterAddress : Address) : Prop where
  /-- Plans with one message agree on the blockhash, the fee payer, the destination and the ordered
  sources and amounts. -/
  unique : ∀ deposits' minterAddress' sweep' blockhash blockhash',
    plan deposits' minterAddress' = .ok sweep' →
    sweep.sweepMessage blockhash = sweep'.sweepMessage blockhash' →
    blockhash = blockhash' ∧ sweep.feePayerAddress = sweep'.feePayerAddress ∧
      minterAddress = minterAddress' ∧
      sweep.transfers.map (fun transfer => (transfer.source, transfer.amount)) =
        sweep'.transfers.map (fun transfer => (transfer.source, transfer.amount))
  recovers : ∀ deposits' : List (DepositSolId × QueuedDeposit), deposits'.Perm deposits →
    ∀ blockhash, recover deposits' minterAddress (sweep.sweepMessage blockhash) = .ok (.ok sweep)
  /-- A message with another payer, source, destination, amount or order is rejected. -/
  rejects : ∀ deposits' : List (DepositSolId × QueuedDeposit), deposits'.Perm deposits →
    ∀ (message : Message) payer transfers, message.Pays payer transfers →
      (sweep.feePayerAddress ≠ some payer ∨ transfers ≠ sweep.resolvedTransfers) →
      ∃ error, recover deposits' minterAddress message = .ok (.error error)

/-- The transfers of a message name their sources and amounts, from which the plan is recovered. -/
theorem messageDetermines_of_plan (h : plan deposits minterAddress = .ok sweep) :
    sweep.MessageDetermines deposits minterAddress := by
  obtain ⟨-, -, hunique, -, -, -, hminter, -⟩ := plan_eq_ok h
  have hnodup := (unique_eq_ok hunique).1
  have hplan : ∀ deposits' : List (DepositSolId × QueuedDeposit), deposits'.Perm deposits →
      plan deposits' minterAddress = .ok sweep :=
    fun deposits' hperm => (plan_perm hnodup hperm minterAddress).trans h
  constructor
  case unique =>
    intro deposits' minterAddress' sweep' blockhash blockhash' h' heq
    obtain ⟨payer, hpayer, hpays⟩ := pays_sweepMessage h blockhash
    obtain ⟨payer', hpayer', hpays'⟩ := pays_sweepMessage h' blockhash'
    rw [heq] at hpays
    obtain ⟨rfl, htransfers⟩ := hpays.unique hpays'
    have hblockhash := congrArg Message.recentBlockhash heq
    rw [recentBlockhash_sweepMessage, recentBlockhash_sweepMessage] at hblockhash
    refine ⟨hblockhash, hpayer.trans hpayer'.symm, ?_, ?_⟩
    · -- both plans have a first transfer
      obtain ⟨-, -, -, -, -, -, hminter', -⟩ := plan_eq_ok h'
      obtain ⟨payer₁, amount₁, others₁, -, horders⟩ := exists_orders h
      obtain ⟨payer₂, amount₂, others₂, -, horders'⟩ := exists_orders h'
      have hhead := congrArg List.head? htransfers
      rw [resolvedTransfers, resolvedTransfers, List.head?_map, List.head?_map,
        horders.head?_transfers, horders'.head?_transfers] at hhead
      have hfirst := Option.some.inj hhead
      rw [← hminter, ← hminter']
      exact congrArg (·.2.1) hfirst
    · have hpairs := congrArg (List.map fun entry : ResolvedTransfer => (entry.1, entry.2.2)) htransfers
      rwa [resolvedTransfers, resolvedTransfers, List.map_map, List.map_map] at hpairs
  case recovers =>
    exact fun deposits' hperm blockhash => recover_sweepMessage (hplan deposits' hperm) blockhash
  case rejects =>
    intro deposits' hperm message payer transfers hpays hother
    exact recover_of_pays (hplan deposits' hperm) hpays hother

end Lawful

end Sweep

end Messages

section Sample

attribute [local instance] Solana.sdk

theorem Sweep.messageDetermines_sampleDeposits : ∃ sweep, plan sampleDeposits 7 = .ok sweep ∧
    sweep.MessageDetermines sampleDeposits 7 := by
  obtain ⟨sweep, hplan⟩ : ∃ sweep, plan sampleDeposits 7 = .ok sweep :=
    exists_plan_of_covered (by decide) List.mem_cons_self (by decide) 7
  have := Solana.lawful_sdk
  exact ⟨sweep, hplan, messageDetermines_of_plan hplan⟩

end Sample

end Cksol
