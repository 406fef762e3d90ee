import Cksol.Deposit.MessageSize
import Cksol.Minter.Backing
import Cksol.Minter.Burns
import Cksol.Minter.Destinations
import Cksol.Minter.RentFloor
import Cksol.Solana.Runtime

/-! # Executing withdrawals

The checks of `withdraw`, the constraints on the parameters and the reserve that a round holds back
together make every signed withdrawal succeed when it is executed, however long that takes: its
destinations can be written and become rent exempt, and the main address pays and stays rent exempt.
-/

namespace Cksol

open Std Canister

section Execution

variable [SolanaSdk]

/-! ## The requests of a message -/

omit [SolanaSdk] in
theorem Accepts.append {log : List Event} {i : LedgerBurnIndex} {accepted : PendingWithdrawalRequest}
    (h : Accepts log i accepted) (new : List Event) : Accepts (log ++ new) i accepted :=
  ⟨List.mem_append_left _ h.1, h.2⟩

/-- The incomplete requests were accepted under their indices. -/
def State.IncompleteAccepted (state : State) (log : List Event) : Prop :=
  ∀ stage i accepted, State.IsIncomplete stage → state.withdrawalAt stage i = some accepted →
    Accepts log i accepted

theorem State.IncompleteAccepted.effect {state state' : State} {log : List Event}
    {timestamp : Timestamp} {payload : EventType} (h : state.IncompleteAccepted log)
    (heffect : state.Effect timestamp payload state') :
    state'.IncompleteAccepted (log ++ [⟨timestamp, payload⟩]) := by
  intro stage i accepted hstage hget
  rcases heffect.incomplete hstage hget with ⟨stage', hstage', hold⟩ | rfl
  · exact (h stage' i accepted hstage' hold).append _
  · generalize hrequest : accepted.request = request at heffect
    cases heffect with
    | acceptedWithdrawal hnew =>
        rcases hstage with rfl | rfl | rfl
        · rw [withdrawalAt, OrdMap.getElem?_insert_eq] at hget
          split at hget
          case isTrue hindex =>
            obtain rfl := Option.some.inj hget
            exact ⟨List.mem_append_right _ (List.mem_singleton_self _), hindex⟩
          case isFalse => exact (h .pending i accepted (.inl rfl) hget).append _
        · exact (h .created i accepted (.inr (.inl rfl)) hget).append _
        · exact (h .sent i accepted (.inr (.inr rfl)) hget).append _

theorem Canister.Run.incompleteAccepted {Emits : State → Timestamp → EventType → Prop}
    {canister canister' : Canister} (hrun : Run Emits canister canister')
    (h : canister.state.IncompleteAccepted canister.log) :
    canister'.state.IncompleteAccepted canister'.log := by
  refine hrun.invariant (fun reached => reached.state.IncompleteAccepted reached.log) ?_ ?_ h
  · exact fun reached transient h => h
  · exact fun state log now payload state' _ h heffect => h.effect heffect

namespace Config

variable {config config' : Config} {now : Timestamp} {action : Action}
  {withdrawal : BoundWithdrawal}

/-- The message pays the requests that were accepted under the indices of the withdrawal. -/
def PaysFor (config : Config) (withdrawal : BoundWithdrawal) (requests : List WithdrawalRequest) :
    Prop :=
  (∃ key nonceValue, config.canister.state.minterPublicKey = some key ∧
    buildBatchWithdrawalMessage (minterAddress key) withdrawal.nonceAccount nonceValue
      (State.withdrawalTransfers requests) = .ok withdrawal.message) ∧
  List.Forall₂ (fun i request => ∃ createdAt, Accepts config.canister.log i ⟨request, createdAt⟩)
    withdrawal.burnIndices requests

theorem PaysFor.steps {requests : List WithdrawalRequest} (h : config.PaysFor withdrawal requests)
    (hwellformed : config.Wellformed) (hsteps : config.Steps now action config') :
    config'.PaysFor withdrawal requests := by
  obtain ⟨⟨key, nonceValue, hkey, hbuild⟩, hrequests⟩ := h
  have hrun := hsteps.run hwellformed.replayable
  obtain ⟨new, hlog, -⟩ := hrun.log_append
  refine ⟨⟨key, nonceValue, hrun.minterPublicKey hkey, hbuild⟩, hrequests.imp ?_⟩
  rintro i request ⟨createdAt, haccepts⟩
  rw [hlog]
  exact ⟨createdAt, haccepts.append new⟩

/-- A message that is bound for signing pays the created requests of its indices. -/
theorem paysFor_of_bound
    (hincomplete : config.canister.state.IncompleteAccepted config.canister.log)
    {key : SchnorrPublicKey} (hkey : config.canister.state.minterPublicKey = some key)
    {withdrawals : List BoundWithdrawal}
    (hbound : boundWithdrawals config.canister.state (minterAddress key) = .ok withdrawals)
    (hmem : withdrawal ∈ withdrawals) :
    ∃ requests, config.PaysFor withdrawal requests := by
  obtain ⟨nonceAccount, created, -, hwithdrawal⟩ := mem_boundWithdrawals hbound hmem
  obtain ⟨requests, hrequests, haccount, hindices, hbuilds⟩ := boundWithdrawal_eq_ok hwithdrawal
  refine ⟨requests, ⟨key, created.nonceValue, hkey, haccount ▸ hbuilds⟩, ?_⟩
  rw [hindices]
  have hmatched : List.Forall₂ (fun i request => config.canister.state.createdWithdrawalRequests[i]?.map
      PendingWithdrawalRequest.request = some request) created.burnIndices requests := by
    have heq : List.Forall₂ Eq (config.canister.state.createdRequests created.burnIndices)
        (requests.map some) := List.forall₂_eq_eq_eq ▸ hrequests
    exact List.forall₂_map_left_iff.mp (List.forall₂_map_right_iff.mp heq)
  refine hmatched.imp fun i request hrequest => ?_
  obtain ⟨accepted, haccepted, rfl⟩ := Option.map_eq_some_iff.mp hrequest
  exact ⟨accepted.createdAt, hincomplete .created i accepted (.inr (.inl rfl)) haccepted⟩

/-- Every message that was passed to the signer for a withdrawal pays accepted requests. -/
theorem paysFor_of_run {minterId : Principal} {args : InitArgs}
    {actions : List (Timestamp × Action)} (h : runFrom minterId args now actions = some config)
    (hmem : .withdrawal withdrawal ∈ config.signRequests) :
    ∃ requests, config.PaysFor withdrawal requests := by
  refine (runFrom_induction (fun _ config =>
    config.canister.state.IncompleteAccepted config.canister.log ∧
      ∀ withdrawal, .withdrawal withdrawal ∈ config.signRequests →
        ∃ requests, config.PaysFor withdrawal requests) ?_ ?_ h).2 withdrawal hmem
  · intro config hinit
    obtain ⟨_, pool, -, -, rfl⟩ := Config.exists_of_init hinit
    refine ⟨?_, by simp [idle]⟩
    rintro stage i accepted (rfl | rfl | rfl) hget <;> simp [idle, State.withdrawalAt] at hget
  · rintro done config t action config' hdone ⟨hincomplete, hpays⟩ hsteps
    obtain ⟨hwellformed, bindings, hsigns⟩ := signs_of_run hdone
    refine ⟨(hsteps.run hwellformed.replayable).incompleteAccepted hincomplete, ?_⟩
    have hold (withdrawal : BoundWithdrawal) (hrequest : .withdrawal withdrawal ∈ config.signRequests) :
        ∃ requests, config'.PaysFor withdrawal requests := by
      obtain ⟨requests, hrequests⟩ := hpays withdrawal hrequest
      exact ⟨requests, hrequests.steps hwellformed hsteps⟩
    intro withdrawal hrequest
    -- only the withdrawal round passes withdrawals to the signer
    cases hsteps with
    | withdrawals hround =>
        rcases List.mem_append.mp hrequest with hbefore | hnew
        · exact hold withdrawal hbefore
        · obtain ⟨bound, hbound, heq⟩ := List.mem_map.mp hnew
          cases heq
          generalize hwithdrawals : config.withdrawals = before at hround
          cases hround with
          | requested hround =>
              obtain ⟨key, hkey, rfl⟩ := hsigns.creating hwithdrawals
              exact paysFor_of_bound hincomplete hkey hround hbound
          | _ => cases hbound
    | sweeps =>
        rcases List.mem_append.mp hrequest with hbefore | hnew
        · exact hold withdrawal hbefore
        · obtain ⟨sweep, -, hsweep⟩ := List.mem_flatMap.mp hnew
          obtain ⟨signer, -, heq⟩ := List.mem_map.mp hsweep
          cases heq
    | _ => exact hold withdrawal hrequest

/-! ## The destinations and amounts of accepted requests -/

/-- The request pays the rent exemption threshold at least, to an address that is neither reserved nor
the main one. -/
structure Executable (config : Config) (request : WithdrawalRequest) : Prop where
  notReserved : request.solanaAddress ∉ SolanaSdk.reservedAccountKeys
  notMain : ∃ key, config.canister.state.minterPublicKey = some key ∧
    request.solanaAddress ≠ minterAddress key
  rentExempt : rentExemptionThreshold ≤ request.amountToTransfer

/-- Accepted requests are executable, unless their amounts reach the end of the range of a `u64`. -/
def AcceptsExecutable (config : Config) : Prop :=
  ∀ timestamp request, ⟨timestamp, .acceptedWithdrawalRequest request⟩ ∈ config.canister.log →
    request.burnedAmount.toNat + rentExemptionThreshold.toNat < 2 ^ 64 → config.Executable request

theorem AcceptsExecutable.steps (h : config.AcceptsExecutable) (hwellformed : config.Wellformed)
    (hpaysOut : config.PaysOut) (hburns : config.BurnsMinimum)
    (hvalid : config.canister.state.validate = .ok ⟨⟩) (hsteps : config.Steps now action config') :
    config'.AcceptsExecutable := by
  intro timestamp request hmem hfits
  have hrun := hsteps.run hwellformed.replayable
  have hkeep (hrequest : config.Executable request) : config'.Executable request := by
    obtain ⟨key, hkey, hne⟩ := hrequest.notMain
    exact ⟨hrequest.notReserved, ⟨key, hrun.minterPublicKey hkey, hne⟩, hrequest.rentExempt⟩
  rcases hrun.mem_log hmem with hold | ⟨_, hrecords⟩
  · exact hkeep (h timestamp request hold hfits)
  obtain ⟨position, haction⟩ := hrecords.recordedBy
  generalize request.burnBlockIndex = blockIndex at haction
  subst haction
  cases hsteps with
  | burned hcall hindex hamount hevent =>
      obtain ⟨state, -, rfl⟩ := processEvent_eq_ok.mp hevent
      rcases List.mem_append.mp hmem with hold | hnew
      · exact hkeep (h timestamp request hold hfits)
      · obtain ⟨-, heq⟩ := Event.mk.inj (List.mem_singleton.mp hnew)
        obtain rfl := EventType.acceptedWithdrawalRequest.inj heq
        have hpayable := hpaysOut.calls _ (List.mem_of_getElem? hcall)
        have hsum := checkedSub_eq_some.mp hamount
        have hminimum := UInt64.le_iff_toNat_le.mp (hburns _ (List.mem_of_getElem? hcall))
        dsimp only at hfits
        have hfee := State.withdrawalFee_add_le hvalid (by omega)
        refine hkeep ⟨hpayable.notReserved, hpayable.notMinterAddress, UInt64.le_iff_toNat_le.mpr ?_⟩
        dsimp only
        omega
  | unchanged | withdrawEnded | depositSolEnded => exact hkeep (h timestamp request hmem hfits)

theorem acceptsExecutable_of_run {minterId : Principal} {args : InitArgs}
    {actions : List (Timestamp × Action)} (h : runFrom minterId args now actions = some config) :
    config.AcceptsExecutable := by
  refine runFrom_induction (fun _ config => config.AcceptsExecutable) ?_ ?_ h
  · intro config hinit
    simp only [init, Canister.init, bind_eq_ok, mapError_eq_ok, pure_eq_ok] at hinit
    obtain ⟨_, ⟨state, -, rfl⟩, rfl⟩ := hinit
    simp [AcceptsExecutable, idle]
  · intro done config t action config' hdone hexecutable hsteps
    exact hexecutable.steps (wellformed_of_run hdone) (paysOut_of_run hdone) (burnsMinimum_of_run hdone)
      (validate_of_run hdone) hsteps

end Config

/-! ## Execution -/

/-- No burned amount is within the rent exemption threshold of the end of the range. -/
def BurnsFit (log : List Event) : Prop :=
  ∀ event ∈ log, event.payload.burnedAmount + rentExemptionThreshold.toNat < 2 ^ 64

instance (log : List Event) : Decidable (BurnsFit log) :=
  inferInstanceAs (Decidable (∀ event ∈ log, _))

/-! ## The message on chain -/

namespace Bank

variable {bank : Bank} {main nonceAccount : Address} {value next : Hash}
  {transfers : List (Address × Lamport)}

/-- What the message of a batch of withdrawals is compiled from. -/
def withdrawalContent (main nonceAccount : Address) (value : Hash)
    (transfers : List (Address × Lamport)) : TransferMessage where
  payer := main
  nonceAccount := some nonceAccount
  blockhash := value
  transfers := transfers.map fun entry => ⟨main, entry.1, entry.2⟩

theorem message_withdrawalContent : (withdrawalContent main nonceAccount value transfers).message =
    batchWithdrawalMessage main nonceAccount value transfers := by
  rw [TransferMessage.message, TransferMessage.instructions, withdrawalContent, List.map_map]
  rfl

/-- The minter alone signs a batch of withdrawals. -/
theorem fee_withdrawalContent [SolanaSdk.LawfulLayout] :
    (withdrawalContent main nonceAccount value transfers).fee = batchWithdrawalTxFee.toNat := by
  rw [TransferMessage.fee, message_withdrawalContent, numRequiredSignatures_batchWithdrawalMessage]
  rfl

/-- The accounts of a withdrawal before it is executed: the main address can pay and stays rent exempt
after all it pays, the nonce account stores the value of the message, and the destinations are paid
what makes them rent exempt. -/
structure Affords (bank : Bank) (main nonceAccount : Address) (value next : Hash)
    (transfers : List (Address × Lamport)) : Prop where
  includes : bank.Includes (withdrawalContent main nonceAccount value transfers) next
  destinations : ∀ entry ∈ transfers, entry.1 ∉ SolanaSdk.reservedAccountKeys ∧ entry.1 ≠ main ∧
    rentExemptionThreshold ≤ entry.2
  covers : (transfers.map (·.2.toNat)).sum + batchWithdrawalTxFee.toNat +
    rentExemptionThreshold.toNat ≤ bank.lamports main
  exempt : ∀ address, bank.kind address = .wallet ∨
    (bank.kind address).rentExemption ≤ bank.lamports address

/-- The bank after a withdrawal with the given transfers: the main address has paid them and the fee,
every other account has received its own, and only the nonce account has changed otherwise. -/
structure Withdrawn (bank after : Bank) (main nonceAccount : Address) (next : Hash)
    (transfers : List (Address × Lamport)) : Prop where
  paid : after.lamports main + (transfers.map (·.2.toNat)).sum + batchWithdrawalTxFee.toNat =
    bank.lamports main
  received : ∀ address ≠ main, after.lamports address =
    bank.lamports address + sumWhere (fun entry => entry.1 = address) (·.2.toNat) transfers
  kind : after.kind = Function.update bank.kind nonceAccount (.nonce ⟨main, next⟩)

theorem lamports_charged [SolanaSdk.LawfulLayout] :
    (bank.charged (withdrawalContent main nonceAccount value transfers) next).lamports =
      Function.update bank.lamports main (bank.lamports main - batchWithdrawalTxFee.toNat) := by
  rw [charged, fee_withdrawalContent]
  rfl

namespace Affords

variable [SolanaSdk.LawfulLayout] (h : bank.Affords main nonceAccount value next transfers)

include h

/-- A failed withdrawal costs the fee. -/
theorem withdrawn_charged : bank.Withdrawn
    (bank.charged (withdrawalContent main nonceAccount value transfers) next) main nonceAccount next
    [] := by
  have hcovers := h.covers
  refine ⟨?_, fun address haddress => ?_, rfl⟩
  · rw [lamports_charged, Function.update_self, List.map_nil, List.sum_nil]
    omega
  · rw [lamports_charged, Function.update_of_ne haddress]
    rfl

/-- The main address covers its transfers. -/
theorem exists_payAll : ∃ lamports,
    payAll (bank.charged (withdrawalContent main nonceAccount value transfers) next).lamports
        (withdrawalContent main nonceAccount value transfers).payments = some lamports ∧
      bank.Withdrawn
        { bank.charged (withdrawalContent main nonceAccount value transfers) next with lamports }
        main nonceAccount next transfers := by
  have hcovers := h.covers
  have hpaid : ∀ payment ∈ transfers.map fun entry =>
      (⟨main, entry.1, entry.2.toNat⟩ : Payment Address),
      payment.source = main ∧ payment.target ≠ main := by
    intro payment hpayment
    obtain ⟨entry, hentry, rfl⟩ := List.mem_map.mp hpayment
    exact ⟨rfl, (h.destinations entry hentry).2.1⟩
  have hpayments : (withdrawalContent main nonceAccount value transfers).payments =
      transfers.map fun entry => ⟨main, entry.1, entry.2.toNat⟩ := by
    rw [TransferMessage.payments, withdrawalContent, List.map_map]
    rfl
  have hsum : ((transfers.map fun entry =>
      (⟨main, entry.1, entry.2.toNat⟩ : Payment Address)).map Payment.amount).sum =
        (transfers.map (·.2.toNat)).sum := by
    rw [List.map_map]
    rfl
  have hfunds : ((transfers.map fun entry =>
      (⟨main, entry.1, entry.2.toNat⟩ : Payment Address)).map Payment.amount).sum ≤
        Function.update bank.lamports main (bank.lamports main - batchWithdrawalTxFee.toNat) main := by
    rw [hsum, Function.update_self]
    omega
  obtain ⟨lamports, hpayAll, hmain, hothers⟩ := exists_payAll_of_source hpaid hfunds
  rw [hsum, Function.update_self] at hmain
  refine ⟨lamports, ?_, by dsimp only; omega, fun address haddress => ?_, rfl⟩
  · rw [lamports_charged, hpayments, hpayAll]
  · dsimp only
    rw [hothers address haddress, Function.update_of_ne haddress, incoming, sumWhere, List.filter_map,
      List.map_map]
    rfl

omit [SolanaSdk.LawfulLayout] in
/-- No account is left below its minimum. -/
theorem rentKept {after : Bank} (hafter : bank.Withdrawn after main nonceAccount next transfers)
    (address : Address) : bank.RentKept after.lamports address := by
  by_cases heq : address = main
  · subst heq
    have hpaid := hafter.paid
    have hcovers := h.covers
    have hmain : bank.kind address = .wallet := h.includes.payer.1
    refine .inr ?_
    rw [hmain, AccountKind.rentExemption]
    omega
  · have hreceived := hafter.received address heq
    have hpays : ∀ entry ∈ transfers, rentExemptionThreshold.toNat ≤ entry.2.toNat :=
      fun entry hentry => UInt64.le_iff_toNat_le.mp (h.destinations entry hentry).2.2
    rcases sumWhere_eq_zero_or_le (fun entry => entry.1 = address) hpays with hzero | hle
    · exact .inl (by omega)
    · refine .inr ?_
      rcases h.exempt address with hwallet | hexempt
      · rw [hwallet, AccountKind.rentExemption]
        omega
      · omega

end Affords

end Bank

namespace World

variable {world : World MainAddress}

/-- The accounts of a withdrawal that has not landed: the main address can pay and holds what is
expected of it, the nonce account stores the value that the message carries, and accounts with data are
rent exempt. -/
structure Mirrors (world : World MainAddress) (bank : Bank) (main : Address)
    (withdrawal : BoundWithdrawal) : Prop where
  pays : bank.Pays main
  lamports_le : world.env.lamports ≤ bank.lamports main
  stored : bank.kind withdrawal.nonceAccount = .nonce ⟨main, withdrawal.message.recentBlockhash⟩
  exempt : ∀ address, bank.kind address = .wallet ∨
    (bank.kind address).rentExemption ≤ bank.lamports address

/-- What executing a withdrawal for the requests leaves: it succeeds unless a destination is a program,
and otherwise costs the fee and uses up the nonce value. -/
structure Executed [SolanaRuntime] (bank after : Bank) (succeeded : Bool) (main : Address)
    (withdrawal : BoundWithdrawal) (next : Hash) (requests : List WithdrawalRequest) : Prop where
  execute_eq : SolanaRuntime.execute bank withdrawal.message next = some (after, succeeded)
  succeeded_iff : succeeded = true ↔
    ∀ request ∈ requests, bank.kind request.solanaAddress ≠ .program
  withdrawn : bank.Withdrawn after main withdrawal.nonceAccount next
    (if succeeded then State.withdrawalTransfers requests else [])

theorem debit_le_outstanding {debit : Debit} (hmem : debit ∈ createdDebits world.config.canister.log)
    (hnot : debit.carriedBy world.env.landedWithdrawals = false) :
    debit.amount ≤ world.outstanding := by
  have hle : sumWhere (fun _ => false) Debit.amount (createdDebits world.config.canister.log) +
      debit.amount ≤ world.outstanding :=
    sumWhere_add_le_of_imp (by simp) hmem rfl (by simp [hnot])
  omega

section Runs

variable [SolanaSdk.Lawful] [SolanaSdk.LawfulLayout] {minterId : Principal} {args : InitArgs}
  {now : Timestamp} {actions : List (WorldAction MainAddressMove)} {lamports : ℕ}
  {stored : Address → Hash}

/-- The main address affords a signed withdrawal that has not landed. -/
theorem affords_of_run
    (h : runFrom MainAddress.environment (.initial lamports stored) minterId args now actions =
      some world) (hfits : SumsFit world.config.canister.log)
    (hburns : BurnsFit world.config.canister.log) {withdrawal : BoundWithdrawal}
    (hrequest : .withdrawal withdrawal ∈ world.config.signRequests)
    (hnew : withdrawal.message ∉ world.env.landedWithdrawals) {key : SchnorrPublicKey}
    (hkey : world.config.canister.state.minterPublicKey = some key) {bank : Bank}
    (hbank : world.Mirrors bank (minterAddress key) withdrawal) {next : Hash}
    (hnext : withdrawal.message.recentBlockhash ≠ next) :
    ∃ requests, List.Forall₂ (fun i request => ∃ createdAt,
        Accepts world.config.canister.log i ⟨request, createdAt⟩) withdrawal.burnIndices requests ∧
      withdrawal.message = batchWithdrawalMessage (minterAddress key) withdrawal.nonceAccount
        withdrawal.message.recentBlockhash (State.withdrawalTransfers requests) ∧
      bank.Affords (minterAddress key) withdrawal.nonceAccount withdrawal.message.recentBlockhash next
        (State.withdrawalTransfers requests) := by
  obtain ⟨hlanded, done, hdone⟩ := landed_of_run h
  obtain ⟨-, bindings, hsigns⟩ := Config.signs_of_run hdone
  obtain ⟨requests, ⟨key', nonceValue, hkey', hbuild⟩, hrequests⟩ := Config.paysFor_of_run hdone hrequest
  obtain rfl := Option.some.inj (hkey.symm.trans hkey')
  obtain ⟨binding, hbinding, -, -, hbuilds⟩ := hsigns.requested hrequest
  have hdebit := hsigns.history.debited binding hbinding
  obtain rfl := recentBlockhash_of_build hbuild
  obtain ⟨hsize, hmessage⟩ := buildBatchWithdrawalMessage_eq_ok.mp hbuild
  -- nothing that carries the nonce value has landed
  have hnotLanded : binding.debit.carriedBy world.env.landedWithdrawals = false := by
    refine List.any_eq_false.mpr fun message hlandedMessage hsame => hnew ?_
    obtain ⟨withdrawal', hrequest', rfl⟩ := hlanded.requested message hlandedMessage
    obtain ⟨haccount, hvalue⟩ := of_decide_eq_true hsame
    rwa [hsigns.message_unique hrequest hrequest' (hbuilds.carries.1.trans haccount.symm)
      (hbuilds.carries.2.trans hvalue.symm)]
  have hamount : binding.debit.amount = ((State.withdrawalTransfers requests).map (·.2.toNat)).sum +
      batchWithdrawalTxFee.toNat := by
    obtain ⟨key', -, hbuild'⟩ := hbuilds
    have hamounts := congrArg (List.map UInt64.toNat) (map_amount_of_build hbuild hbuild')
    simp only [List.map_map, Function.comp_def] at hamounts
    rw [hamounts, State.withdrawalTransfers, List.map_map]
    rfl
  have hcovered := balance_add_outstanding_le h
  have houtstanding := debit_le_outstanding hdebit hnotLanded
  have hrent := (Config.rentHeld_of_run hdone hfits).balance (List.ne_nil_of_mem hdebit)
  have hlamports := hbank.lamports_le
  have hcovers : ((State.withdrawalTransfers requests).map (·.2.toNat)).sum +
      batchWithdrawalTxFee.toNat + rentExemptionThreshold.toNat ≤
        bank.lamports (minterAddress key) := by
    omega
  refine ⟨requests, hrequests, hmessage, ⟨?_, hbank.pays, ?_, ?_, ?_⟩, ?_, hcovers, hbank.exempt⟩
  · rwa [Bank.message_withdrawalContent, ← hmessage]
  · rw [Bank.fee_withdrawalContent]
    exact (Nat.add_le_add_right (Nat.le_add_left _ _) _).trans hcovers
  · rintro ⟨⟩
  · rintro account ⟨⟩
    exact ⟨hbank.stored, hnext⟩
  · intro entry hentry
    obtain ⟨request, hmem, rfl⟩ := List.mem_map.mp hentry
    obtain ⟨i, -, createdAt, haccepts, -⟩ := exists_left_of_forall₂ hrequests hmem
    have hexecutable := Config.acceptsExecutable_of_run hdone _ request haccepts (hburns _ haccepts)
    obtain ⟨key', hkey', hne⟩ := hexecutable.notMain
    obtain rfl := Option.some.inj (hkey.symm.trans hkey')
    exact ⟨hexecutable.notReserved, hne, hexecutable.rentExempt⟩

end Runs

end World

end Execution

section Sample

attribute [local instance] Solana.sdk Solana.runtime

/-- The accounts before the withdrawal of `sampleLandings` lands, with the given destination. -/
def sampleBank (destination : AccountKind) : Bank where
  lamports address := if address = Solana.productionKey then 29_104_123 else 1_447_680
  kind address := if address = 4 then .nonce ⟨Solana.productionKey, 77⟩
    else if address = 5 then destination else .wallet
  recentBlockhashes := []

/-- The withdrawal that a message is signed for. -/
def SignRequest.withdrawal? : SignRequest → Option BoundWithdrawal
  | withdrawal bound => some bound
  | sweep .. => none

theorem SignRequest.mem_of_withdrawal? {requests : List SignRequest} {bound : BoundWithdrawal}
    (h : bound ∈ requests.filterMap withdrawal?) : .withdrawal bound ∈ requests := by
  obtain ⟨request, hmem, hrequest⟩ := List.mem_filterMap.mp h
  cases request with
  | withdrawal => exact Option.some.inj hrequest ▸ hmem
  | sweep => cases hrequest

def sampleBound : BoundWithdrawal where
  nonceAccount := 4
  burnIndices := [3]
  message := SolanaSdk.newWithBlockhash
    (batchWithdrawalInstructions Solana.productionKey 4 [(5, 1_995_000)]) (some Solana.productionKey) 77

end Sample

end Cksol
