import Cksol.Solana.Bincode
import Cksol.Solana.Compile
import Cksol.State.Audit

/-! # `state/event/candid`

The events as `get_events` returns them, and their conversion back. Addresses, hashes and signatures
are converted to the types of `sol_rpc_types`, messages and keys to bytes. A client fetches the log
page by page, converts the events back and replays them.
-/

namespace Cksol

/-- The types of `sol_rpc_types` and their conversions. -/
class CandidTypes where
  CandidAddress : Type
  CandidHash : Type
  CandidSignature : Type
  fromAddress : Address → CandidAddress
  toAddress : CandidAddress → Address
  fromHash : Hash → CandidHash
  toHash : CandidHash → Hash
  fromSignature : Signature → CandidSignature
  toSignature : CandidSignature → Signature

open CandidTypes

/-- What is written can be read back. -/
class CandidTypes.Lawful [CandidTypes] : Prop where
  toAddress_fromAddress : ∀ address, toAddress (fromAddress address) = address
  toHash_fromHash : ∀ hash, toHash (fromHash hash) = hash
  toSignature_fromSignature : ∀ signature, toSignature (fromSignature signature) = signature

/-! ## Candid events -/

/-- A signer, as clients see it. -/
inductive CandidSigner where
  | minter
  | account (account : Account)

/-- The purpose of a transaction, as clients see it. -/
inductive CandidTransactionPurpose where
  | sweepDeposit (depositIds : List ℕ) (blockHeight : ℕ)
  | withdrawal (burnIndices : List ℕ)

/-- A credited deposit, as clients see it. -/
structure CandidCreditedDeposit where
  depositId : ℕ
  amountToMint : Lamport

/-- A legacy message, serialized with bincode. -/
inductive VersionedTransactionMessage where
  | legacy (bytes : List UInt8)

/-- The payload of an event, as clients see it. -/
inductive CandidEventType [CandidTypes] where
  | init (args : InitArgs)
  | upgrade (args : UpgradeArgs)
  | acceptedWithdrawalRequest (account : Account) (solanaAddress : CandidAddress)
      (burnBlockIndex : ℕ) (burnedAmount amountToTransfer : Lamport)
  | submittedTransaction (signature : CandidSignature) (transaction : VersionedTransactionMessage)
      (signers : List CandidSigner) (purpose : CandidTransactionPurpose)
  | succeededTransaction (signature : CandidSignature)
  | failedTransaction (signature : CandidSignature)
  | expiredTransaction (signature : CandidSignature)
  | queuedDeposit (depositId : ℕ) (account : Account) (address : CandidAddress) (balance : Lamport)
      (depositFee : Option Lamport)
  | creditedSweep (signature : CandidSignature) (amountReceived : Lamport)
      (mints : List CandidCreditedDeposit)
  | quarantinedSweep (signature : CandidSignature)
  | minterPublicKeyFetched (publicKey chainCode : List UInt8)
  | mintedSweptDeposit (depositId mintBlockIndex : ℕ)
  | quarantinedPendingMint (depositId : ℕ)
  | createdWithdrawalTransaction (burnIndices : List ℕ) (nonceAccount : CandidAddress)
      (nonceValue : CandidHash)

/-- An event, as clients see it. -/
structure CandidEvent [CandidTypes] where
  timestamp : ℕ
  payload : CandidEventType

/-! ## Export -/

def CandidSigner.fromSigner : Signer → CandidSigner
  | .minter => .minter
  | .account owner => .account owner

def CandidTransactionPurpose.fromPurpose : TransactionPurpose → CandidTransactionPurpose
  | .sweepDeposit depositIds blockHeight => .sweepDeposit depositIds blockHeight
  | .withdrawal burnIndices => .withdrawal burnIndices

def CandidCreditedDeposit.fromCredited (mint : CreditedDeposit) : CandidCreditedDeposit where
  depositId := mint.depositId
  amountToMint := mint.amountToMint

section Export

variable [CandidTypes] [WireCodecs]

def VersionedTransactionMessage.fromMessage (message : Message) : VersionedTransactionMessage :=
  .legacy (WireCodecs.serialize message)

def CandidEventType.fromEventType : EventType → CandidEventType
  | .init args => .init args
  | .upgrade args => .upgrade args
  | .acceptedWithdrawalRequest request =>
      .acceptedWithdrawalRequest request.account (fromAddress request.solanaAddress)
        request.burnBlockIndex request.burnedAmount request.amountToTransfer
  | .submittedTransaction signature message signers purpose =>
      .submittedTransaction (fromSignature signature) (.fromMessage message)
        (signers.map .fromSigner) (.fromPurpose purpose)
  | .succeededTransaction signature => .succeededTransaction (fromSignature signature)
  | .failedTransaction signature => .failedTransaction (fromSignature signature)
  | .expiredTransaction signature => .expiredTransaction (fromSignature signature)
  | .queuedDeposit depositId deposit =>
      .queuedDeposit depositId deposit.account (fromAddress deposit.address) deposit.balance.lamports
        deposit.depositFee
  | .creditedSweep signature amountReceived mints =>
      .creditedSweep (fromSignature signature) amountReceived (mints.map .fromCredited)
  | .quarantinedSweep signature => .quarantinedSweep (fromSignature signature)
  | .minterPublicKeyFetched key =>
      .minterPublicKeyFetched (WireCodecs.serializeRaw key.publicKey)
        (bigEndian 32 key.chainCode.toNat)
  | .mintedSweptDeposit depositId mintBlockIndex => .mintedSweptDeposit depositId mintBlockIndex
  | .quarantinedPendingMint depositId => .quarantinedPendingMint depositId
  | .createdWithdrawalTransaction burnIndices nonceAccount nonceValue =>
      .createdWithdrawalTransaction burnIndices (fromAddress nonceAccount) (fromHash nonceValue)

def CandidEvent.fromEvent (event : Event) : CandidEvent where
  timestamp := event.timestamp
  payload := .fromEventType event.payload

end Export

/-! ## Conversion back -/

/-- A Candid event that cannot be converted back. -/
inductive InvalidCandidEvent where
  | invalidMessage (error : String)
  | invalidPublicKey (error : String)
  | invalidChainCode (length : ℕ)
  | depositBalanceBelowRentExemption (balance : Lamport)
deriving DecidableEq

namespace InvalidCandidEvent

/-- The text of the error. -/
def text : InvalidCandidEvent → String
  | .invalidMessage error => s!"invalid transaction message: {error}"
  | .invalidPublicKey error => s!"invalid public key: {error}"
  | .invalidChainCode length => s!"invalid chain code: expected 32 bytes, got {length}"
  | .depositBalanceBelowRentExemption balance =>
      s!"deposit balance of {balance} lamports is below the rent exemption threshold"

end InvalidCandidEvent

def Signer.fromCandid : CandidSigner → Signer
  | .minter => .minter
  | .account owner => .account owner

def TransactionPurpose.fromCandid : CandidTransactionPurpose → TransactionPurpose
  | .sweepDeposit depositIds blockHeight => .sweepDeposit depositIds blockHeight
  | .withdrawal burnIndices => .withdrawal burnIndices

def CreditedDeposit.fromCandid (mint : CandidCreditedDeposit) : CreditedDeposit where
  depositId := mint.depositId
  amountToMint := mint.amountToMint

def chainCodeFromBytes (bytes : List UInt8) : Except InvalidCandidEvent ChainCode := do
  check (bytes.length = 32) (.invalidChainCode bytes.length)
  return BitVec.ofNat 256 (ofBigEndian bytes)

section Import

variable [CandidTypes] [WireCodecs]

def Message.tryFrom : VersionedTransactionMessage → Except InvalidCandidEvent Message
  | .legacy bytes => (WireCodecs.deserialize bytes).mapError .invalidMessage

def EventType.tryFrom : CandidEventType → Except InvalidCandidEvent EventType
  | .init args => return .init args
  | .upgrade args => return .upgrade args
  | .acceptedWithdrawalRequest account solanaAddress burnBlockIndex burnedAmount amountToTransfer =>
      return .acceptedWithdrawalRequest {
        account, solanaAddress := toAddress solanaAddress, burnBlockIndex, burnedAmount,
        amountToTransfer }
  | .submittedTransaction signature transaction signers purpose => do
      let message ← Message.tryFrom transaction
      return .submittedTransaction (toSignature signature) message (signers.map .fromCandid)
        (.fromCandid purpose)
  | .succeededTransaction signature => return .succeededTransaction (toSignature signature)
  | .failedTransaction signature => return .failedTransaction (toSignature signature)
  | .expiredTransaction signature => return .expiredTransaction (toSignature signature)
  | .queuedDeposit depositId account address balance depositFee => do
      let balance ← orPanic (DepositBalance.new balance) (.depositBalanceBelowRentExemption balance)
      return .queuedDeposit depositId { account, address := toAddress address, balance, depositFee }
  | .creditedSweep signature amountReceived mints =>
      return .creditedSweep (toSignature signature) amountReceived (mints.map .fromCandid)
  | .quarantinedSweep signature => return .quarantinedSweep (toSignature signature)
  | .minterPublicKeyFetched publicKey chainCode => do
      let publicKey ← (WireCodecs.deserializeRaw publicKey).mapError .invalidPublicKey
      let chainCode ← chainCodeFromBytes chainCode
      return .minterPublicKeyFetched { publicKey, chainCode }
  | .mintedSweptDeposit depositId mintBlockIndex =>
      return .mintedSweptDeposit depositId mintBlockIndex
  | .quarantinedPendingMint depositId => return .quarantinedPendingMint depositId
  | .createdWithdrawalTransaction burnIndices nonceAccount nonceValue =>
      return .createdWithdrawalTransaction burnIndices (toAddress nonceAccount) (toHash nonceValue)

def Event.tryFrom (event : CandidEvent) : Except InvalidCandidEvent Event := do
  let payload ← EventType.tryFrom event.payload
  return { timestamp := event.timestamp, payload }

end Import

/-! ## The endpoint and its client -/

section Fetch

variable [CandidTypes] [WireCodecs]

/-- The page that a client asks for. -/
structure GetEventsArgs where
  start : ℕ
  length : ℕ

/-- A page of events, and how many there are in all. -/
structure GetEventsResult where
  events : List CandidEvent
  totalEventCount : ℕ

def maxEventsPerResponse : ℕ := 2_000

/-- `get_events`. The canister casts a 64-bit number to a 32-bit index. -/
def getEvents (log : List Event) (args : GetEventsArgs) : GetEventsResult where
  events := ((log.drop (args.start % 2 ^ 32)).take (min args.length maxEventsPerResponse)).map
    .fromEvent
  totalEventCount := log.length

/-- The loop of `retrieve_all_events`, from the events fetched so far; the fuel bounds the number of
queries. -/
def retrieveEvents (log : List Event) : ℕ → List CandidEvent → Option GetEventsResult
  | 0, _ => none
  | fuel + 1, events =>
      let batch := getEvents log ⟨events.length, 2_000⟩
      let events := events ++ batch.events
      if batch.totalEventCount ≤ events.length then some ⟨events, batch.totalEventCount⟩
      else retrieveEvents log fuel events

/-- The replay of fetched events: a conversion that fails is an error of its own. -/
def replayCandidEvents [SolanaSdk] (events : List CandidEvent) :
    Except InvalidCandidEvent (Except Panic State) := do
  let events ← events.mapM Event.tryFrom
  return replayEvents events

end Fetch

/-! ## Round trip -/

/-- The message of a submission is made of bytes. -/
def EventType.Encodable : EventType → Prop
  | .submittedTransaction _ message _ _ => message.Fits
  | _ => True

theorem Signer.map_fromCandid (signers : List Signer) :
    (signers.map CandidSigner.fromSigner).map fromCandid = signers := by
  rw [List.map_map]
  exact List.map_id'' (fun signer => by cases signer <;> rfl) signers

theorem CreditedDeposit.map_fromCandid (mints : List CreditedDeposit) :
    (mints.map CandidCreditedDeposit.fromCredited).map fromCandid = mints := by
  rw [List.map_map]
  exact List.map_id'' (fun _ => rfl) mints

theorem TransactionPurpose.fromCandid_fromPurpose (purpose : TransactionPurpose) :
    fromCandid (.fromPurpose purpose) = purpose := by
  cases purpose <;> rfl

theorem chainCodeFromBytes_bigEndian (chainCode : ChainCode) :
    chainCodeFromBytes (bigEndian 32 chainCode.toNat) = .ok chainCode := by
  refine bind_eq_ok.mpr ⟨⟨⟩, check_eq_ok.mpr (length_bigEndian _ _), ?_⟩
  exact pure_eq_ok.mpr (ofNat_ofBigEndian (show 256 = 8 * 32 from rfl) chainCode)

section RoundTrip

variable [CandidTypes] [CandidTypes.Lawful] [WireCodecs] [WireCodecs.Lawful]

open CandidTypes.Lawful

/-- Every payload is converted back from its export. -/
theorem EventType.tryFrom_fromEventType {payload : EventType} (h : payload.Encodable) :
    tryFrom (.fromEventType payload) = .ok payload := by
  cases payload with
  | init args => rfl
  | upgrade args => rfl
  | acceptedWithdrawalRequest request =>
      simp only [CandidEventType.fromEventType, tryFrom, toAddress_fromAddress]
      rfl
  | submittedTransaction signature message signers purpose =>
      have hmessage : Message.tryFrom (.fromMessage message) = .ok message :=
        mapError_eq_ok.mpr (WireCodecs.Lawful.deserialize_serialize message h)
      refine bind_eq_ok.mpr ⟨message, hmessage, pure_eq_ok.mpr ?_⟩
      rw [toSignature_fromSignature, Signer.map_fromCandid,
        TransactionPurpose.fromCandid_fromPurpose]
  | succeededTransaction signature =>
      exact congrArg (fun s => Except.ok (succeededTransaction s)) (toSignature_fromSignature signature)
  | failedTransaction signature =>
      exact congrArg (fun s => Except.ok (failedTransaction s)) (toSignature_fromSignature signature)
  | expiredTransaction signature =>
      exact congrArg (fun s => Except.ok (expiredTransaction s)) (toSignature_fromSignature signature)
  | queuedDeposit depositId deposit =>
      have hbalance : DepositBalance.new deposit.balance.lamports = some deposit.balance :=
        dif_pos deposit.balance.rentExempt
      refine bind_eq_ok.mpr ⟨_, orPanic_eq_ok.mpr hbalance, pure_eq_ok.mpr ?_⟩
      rw [toAddress_fromAddress]
  | creditedSweep signature amountReceived mints =>
      refine pure_eq_ok.mpr ?_
      rw [toSignature_fromSignature, CreditedDeposit.map_fromCandid]
  | quarantinedSweep signature =>
      exact congrArg (fun s => Except.ok (quarantinedSweep s)) (toSignature_fromSignature signature)
  | minterPublicKeyFetched key =>
      have hkey := WireCodecs.Lawful.deserializeRaw_serializeRaw key.publicKey
      exact bind_eq_ok.mpr ⟨_, mapError_eq_ok.mpr hkey,
        bind_eq_ok.mpr ⟨_, chainCodeFromBytes_bigEndian key.chainCode, rfl⟩⟩
  | mintedSweptDeposit depositId mintBlockIndex => rfl
  | quarantinedPendingMint depositId => rfl
  | createdWithdrawalTransaction burnIndices nonceAccount nonceValue =>
      refine pure_eq_ok.mpr ?_
      rw [toAddress_fromAddress, toHash_fromHash]

theorem Event.tryFrom_fromEvent {event : Event} (h : event.payload.Encodable) :
    tryFrom (.fromEvent event) = .ok event :=
  bind_eq_ok.mpr ⟨_, EventType.tryFrom_fromEventType h, rfl⟩

/-- A log is converted back from its export, and replayed from it as from itself. -/
theorem replayCandidEvents_map [SolanaSdk] {log : List Event}
    (h : ∀ event ∈ log, event.payload.Encodable) :
    replayCandidEvents (log.map CandidEvent.fromEvent) = .ok (replayEvents log) := by
  have hback : (log.map CandidEvent.fromEvent).mapM Event.tryFrom = .ok log := by
    have hevents : log.mapM (Event.tryFrom ∘ CandidEvent.fromEvent) = .ok (log.map id) :=
      mapM_eq_ok_map fun event hevent => Event.tryFrom_fromEvent (h event hevent)
    rwa [List.mapM_map, List.map_id] at *
  exact bind_eq_ok.mpr ⟨log, hback, rfl⟩

omit [CandidTypes.Lawful] [WireCodecs.Lawful] in
theorem getEvents_totalEventCount (log : List Event) (args : GetEventsArgs) :
    (getEvents log args).totalEventCount = log.length :=
  rfl

omit [CandidTypes.Lawful] [WireCodecs.Lawful] in
/-- The client stops with the whole log: a query extends what it has fetched by the next page, and it
asks for a page only where the log goes on. -/
theorem retrieveEvents_take {log : List Event} (hlength : log.length ≤ 2 ^ 32) {fuel n : ℕ}
    (hn : n < log.length ∨ n = 0) (hfuel : log.length < n + fuel) :
    retrieveEvents log fuel ((log.take n).map CandidEvent.fromEvent) =
      some ⟨log.map CandidEvent.fromEvent, log.length⟩ := by
  induction fuel generalizing n with
  | zero => omega
  | succ fuel ih =>
      have hstart : ((log.take n).map CandidEvent.fromEvent).length % 2 ^ 32 = n := by
        rw [List.length_map, List.length_take, Nat.min_eq_left (by omega), Nat.mod_eq_of_lt (by omega)]
      have hbatch : (getEvents log ⟨((log.take n).map CandidEvent.fromEvent).length, 2_000⟩).events =
          ((log.drop n).take 2_000).map CandidEvent.fromEvent := by
        simp only [getEvents, hstart]
        rfl
      have hpage : (log.take n).map CandidEvent.fromEvent ++
          ((log.drop n).take 2_000).map CandidEvent.fromEvent =
            (log.take (n + 2_000)).map CandidEvent.fromEvent := by
        rw [← List.map_append, ← List.take_add]
      simp only [retrieveEvents, hbatch, hpage, getEvents_totalEventCount]
      split
      case isTrue hdone =>
        rw [List.length_map, List.length_take] at hdone
        rw [List.take_of_length_le (by omega)]
      case isFalse hmore =>
        rw [List.length_map, List.length_take] at hmore
        exact ih (.inl (by omega)) (by omega)

end RoundTrip

/-- Every event is converted back from its Candid form, so the log that a client fetches page by page
and converts back replays to the state that the stored log replays to. -/
theorem Event.candidRoundTrip [SolanaSdk] [CandidTypes] [CandidTypes.Lawful] [WireCodecs]
    [WireCodecs.Lawful] :
    (∀ event : Event, event.payload.Encodable → tryFrom (.fromEvent event) = .ok event) ∧
    (∀ log : List Event, (∀ event ∈ log, event.payload.Encodable) →
      replayCandidEvents (log.map CandidEvent.fromEvent) = .ok (replayEvents log)) ∧
    ∀ (log : List Event) (fuel : ℕ), (∀ event ∈ log, event.payload.Encodable) →
      log.length ≤ 2 ^ 32 → log.length < fuel →
      ∃ fetched, retrieveEvents log fuel [] = some fetched ∧
        fetched.totalEventCount = log.length ∧ fetched.events.length = log.length ∧
        replayCandidEvents fetched.events = .ok (replayEvents log) := by
  refine ⟨fun event hevent => tryFrom_fromEvent hevent, fun log hlog => replayCandidEvents_map hlog,
    fun log fuel hlog hlength hfuel => ?_⟩
  have hfuel' : log.length < 0 + fuel := by omega
  exact ⟨_, retrieveEvents_take hlength (.inr rfl) hfuel', rfl, List.length_map _,
    replayCandidEvents_map hlog⟩

/-! ## A log -/

/-- The minter is installed, fetches its key and queues a deposit. -/
def sampleLog : List Event :=
  [ ⟨1, .init { sampleInitArgs with nonceAccounts := [] }⟩,
    ⟨2, .minterPublicKeyFetched ⟨7, 8⟩⟩,
    ⟨3, .queuedDeposit 0 ⟨⟨.anonymous, none⟩, 11, .sample, none⟩⟩ ]

/-- The types of `sol_rpc_types` as the bytes they hold. -/
@[reducible] def Solana.candidTypes : CandidTypes where
  CandidAddress := BitVec 256
  CandidHash := BitVec 256
  CandidSignature := BitVec 512
  fromAddress := id
  toAddress := id
  fromHash := id
  toHash := id
  fromSignature := id
  toSignature := id

section Sample

attribute [local instance] Solana.sdk Solana.wireCodecs Solana.candidTypes

theorem Solana.lawful_candidTypes : CandidTypes.Lawful :=
  ⟨fun _ => rfl, fun _ => rfl, fun _ => rfl⟩

theorem Event.candidRoundTrip_sampleLog :
    (replayEvents sampleLog).isOk = true ∧
      ∃ fetched, retrieveEvents sampleLog 4 [] = some fetched ∧ fetched.totalEventCount = 3 ∧
        fetched.events.length = 3 ∧
        replayCandidEvents fetched.events = .ok (replayEvents sampleLog) := by
  have := Solana.lawful_wireCodecs
  have := Solana.lawful_candidTypes
  refine ⟨by decide +kernel, Event.candidRoundTrip.2.2 sampleLog 4 ?_ (by decide) (by decide)⟩
  intro event hevent
  simp only [sampleLog, List.mem_cons, List.not_mem_nil, or_false] at hevent
  rcases hevent with rfl | rfl | rfl <;> trivial

end Sample

end Cksol
