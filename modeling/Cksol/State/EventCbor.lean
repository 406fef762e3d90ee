import Cksol.Common.CborCodec
import Cksol.Solana.Bincode
import Cksol.State.Event

/-! # `state/event/cbor`

The bytes of the event log. Every type of an event is written by index: the indices below are those of
the attributes in the source, and the fields that have a codec of their own use it. How absent options
are written is left open: as null, or left out where no other field follows.

The numbers of an event are unbounded in the model, and `Event.Fits` says that they are values of
their 64-bit types.
-/

namespace Cksol

open Cbor

namespace EventCbor

/-! ## Field codecs -/

/-- The bytes of a fixed-width value, with the error text for another length. -/
def fixedBytes (w n : ℕ) (mismatch : String) : Codec (BitVec w) :=
  .viaBytes (fun v => bigEndian n v.toNat) fun content =>
    if content.length = n then .ok (BitVec.ofNat w (ofBigEndian content))
    else .error (.message mismatch)

theorem lawful_fixedBytes {w n : ℕ} (hw : w = 8 * n) (hn : n < 2 ^ 64) (mismatch : String) :
    (fixedBytes w n mismatch).Lawful fun _ => True := by
  refine Codec.lawful_viaBytes (fun v _ => ?_) fun v _ => by rwa [length_bigEndian]
  rw [if_pos (length_bigEndian _ _), ofNat_ofBigEndian hw]

def signature : Codec Signature :=
  fixedBytes 512 64 "could not convert slice to array"

def address : Codec Address :=
  fixedBytes 256 32 "could not convert slice to array"

def hash : Codec Hash :=
  fixedBytes 256 32 "expected 32 hash bytes"

/-- `minicbor::bytes` of a byte array. -/
def byteArray : Codec (BitVec 256) :=
  fixedBytes 256 32 "byte slice length does not match array length"

theorem lawful_signature : signature.Lawful fun _ => True :=
  lawful_fixedBytes (by decide) (by decide) _

theorem lawful_address : address.Lawful fun _ => True :=
  lawful_fixedBytes (by decide) (by decide) _

theorem lawful_hash : hash.Lawful fun _ => True :=
  lawful_fixedBytes (by decide) (by decide) _

theorem lawful_byteArray : byteArray.Lawful fun _ => True :=
  lawful_fixedBytes (by decide) (by decide) _

/-- `icrc_cbor::principal`. -/
def principal : Codec Principal :=
  .viaBytes Principal.bytes fun content =>
    if h : content.length ≤ 29 then .ok ⟨content, h⟩
    else .error (.message "Bytes is longer than 29 bytes.")

theorem lawful_principal : principal.Lawful fun _ => True :=
  Codec.lawful_viaBytes (fun v _ => dif_pos v.length_le)
    fun v _ => Nat.lt_of_le_of_lt v.length_le (by decide)

def depositBalance : Codec DepositBalance where
  encode balance := .uint balance.lamports.toNat
  decode item := do
    let balance ← Codec.uint64.decode item
    orPanic (DepositBalance.new balance)
      (.message s!"deposit balance of {balance} lamports below the rent exemption threshold")

theorem lawful_depositBalance : depositBalance.Lawful fun _ => True where
  ne_null := nofun
  decode_encode balance _ := by
    refine bind_eq_ok.mpr ⟨_, Codec.lawful_uint64.decode_encode balance.lamports trivial, ?_⟩
    exact orPanic_eq_ok.mpr (dif_pos balance.rentExempt)
  fits balance _ := balance.lamports.toNat_lt

/-- `id_vec`: unlike the derived codec of a vector, it refuses an array of unknown length. -/
def idVec : Codec (List ℕ) :=
  .definiteList .nat

/-- The list and its numbers have at most 64 bits. -/
def IdsFit (ids : List ℕ) : Prop :=
  ids.length < 2 ^ 64 ∧ ∀ id ∈ ids, id < 2 ^ 64

def TextsFit (texts : List String) : Prop :=
  texts.length < 2 ^ 64 ∧ ∀ text ∈ texts, (utf8 text).length < 2 ^ 64

theorem lawful_idVec : idVec.Lawful IdsFit :=
  Codec.lawful_definiteList Codec.lawful_nat

theorem lawful_ids : (Codec.list .nat).Lawful IdsFit :=
  Codec.lawful_list Codec.lawful_nat

theorem lawful_texts : (Codec.list .text).Lawful TextsFit :=
  Codec.lawful_list Codec.lawful_text

section Foreign

variable [WireCodecs]

def message : Codec Message :=
  .viaBytes WireCodecs.serialize fun content => (WireCodecs.deserialize content).mapError .message

def ed25519PublicKey : Codec PublicKey :=
  .viaBytes WireCodecs.serializeRaw fun content =>
    (WireCodecs.deserializeRaw content).mapError .message

/-- The numbers of the message are bytes, and its serialization has a 64-bit length. -/
def MessageFits (message : Message) : Prop :=
  message.Fits ∧ (WireCodecs.serialize message).length < 2 ^ 64

variable [WireCodecs.Lawful]

theorem lawful_message : message.Lawful MessageFits :=
  Codec.lawful_viaBytes
    (fun v hv => mapError_eq_ok.mpr (WireCodecs.Lawful.deserialize_serialize v hv.1)) fun _ hv => hv.2

theorem lawful_ed25519PublicKey : ed25519PublicKey.Lawful fun _ => True :=
  Codec.lawful_viaBytes
    (fun v _ => mapError_eq_ok.mpr (WireCodecs.Lawful.deserializeRaw_serializeRaw v))
    fun v _ => by rw [WireCodecs.Lawful.length_serializeRaw v]; decide

end Foreign

/-! ## Arguments and payloads -/

variable [Omission]

/-- An enumeration without fields. -/
def unitEnum {α : Type} (variantIndex : α → ℕ) (ofIndex : ℕ → Option α) : Codec α :=
  .enum variantIndex (fun _ => []) fun index _ => orPanic (ofIndex index) (.unknownVariant index)

theorem lawful_unitEnum {α : Type} {variantIndex : α → ℕ} {ofIndex : ℕ → Option α}
    (hindex : ∀ v, variantIndex v < 2 ^ 64) (hback : ∀ v, ofIndex (variantIndex v) = some v) :
    (unitEnum variantIndex ofIndex).Lawful fun _ => True :=
  Codec.lawful_enum hindex (fun v _ _ _ => orPanic_eq_ok.mpr (hback v))
    fun _ _ => ⟨show 0 < 2 ^ 64 by decide, trivial⟩

def solanaNetwork : Codec SolanaNetwork :=
  unitEnum
    (fun | .mainnet => 0 | .devnet => 1 | .testnet => 2)
    (fun | 0 => some .mainnet | 1 => some .devnet | 2 => some .testnet | _ => none)

def ed25519KeyName : Codec Ed25519KeyName :=
  unitEnum
    (fun | .localDevelopment => 0 | .mainnetTestKey1 => 1 | .mainnetProdKey1 => 2)
    (fun
      | 0 => some .localDevelopment
      | 1 => some .mainnetTestKey1
      | 2 => some .mainnetProdKey1
      | _ => none)

theorem lawful_solanaNetwork : solanaNetwork.Lawful fun _ => True :=
  lawful_unitEnum (fun v => by cases v <;> decide) fun v => by cases v <;> rfl

theorem lawful_ed25519KeyName : ed25519KeyName.Lawful fun _ => True :=
  lawful_unitEnum (fun v => by cases v <;> decide) fun v => by cases v <;> rfl

def initArgsFields (args : InitArgs) : List Item :=
  [ principal.encode args.solRpcCanisterId,
    principal.encode args.ledgerCanisterId,
    ed25519KeyName.encode args.masterKeyName,
    Codec.uint64.encode args.minimumWithdrawalAmount,
    Codec.uint64.encode args.minimumDepositAmount,
    Codec.uint64.encode args.withdrawalFee,
    Codec.uint64.encode args.depositSolRequiredCycles,
    solanaNetwork.encode args.solanaNetwork,
    Codec.uint64.encode args.depositSolFee,
    (Codec.list .text).encode args.nonceAccounts,
    optionalItem .uint64 args.automaticDepositFee ]

def initArgsOfFields (fields : List Item) : Except DecodeError InitArgs := do
  return {
    solRpcCanisterId := ← required principal fields 0
    ledgerCanisterId := ← required principal fields 1
    masterKeyName := ← required ed25519KeyName fields 2
    minimumWithdrawalAmount := ← required .uint64 fields 3
    minimumDepositAmount := ← required .uint64 fields 4
    withdrawalFee := ← required .uint64 fields 5
    depositSolRequiredCycles := ← required .uint64 fields 6
    solanaNetwork := ← required solanaNetwork fields 7
    depositSolFee := ← required .uint64 fields 8
    nonceAccounts := ← required (.list .text) fields 9
    automaticDepositFee := ← optional .uint64 fields 10 }

def initArgs : Codec InitArgs :=
  .record initArgsFields initArgsOfFields

def upgradeArgsFields (args : UpgradeArgs) : List Item :=
  [ optionalItem principal args.solRpcCanisterId,
    optionalItem .uint64 args.minimumWithdrawalAmount,
    optionalItem .uint64 args.minimumDepositAmount,
    optionalItem .uint64 args.withdrawalFee,
    optionalItem .uint64 args.depositSolRequiredCycles,
    optionalItem .uint64 args.depositSolFee,
    optionalItem (.list .text) args.nonceAccountsToAdd,
    optionalItem .uint64 args.automaticDepositFee ]

def upgradeArgsOfFields (fields : List Item) : Except DecodeError UpgradeArgs := do
  return {
    solRpcCanisterId := ← optional principal fields 0
    minimumWithdrawalAmount := ← optional .uint64 fields 1
    minimumDepositAmount := ← optional .uint64 fields 2
    withdrawalFee := ← optional .uint64 fields 3
    depositSolRequiredCycles := ← optional .uint64 fields 4
    depositSolFee := ← optional .uint64 fields 5
    nonceAccountsToAdd := ← optional (.list .text) fields 6
    automaticDepositFee := ← optional .uint64 fields 7 }

def upgradeArgs : Codec UpgradeArgs :=
  .record upgradeArgsFields upgradeArgsOfFields

/-- The codec of the ledger's `Account`. -/
def account : Codec Account :=
  .record
    (fun account => [principal.encode account.owner, optionalItem byteArray account.subaccount])
    fun fields => do
      return { owner := ← required principal fields 0, subaccount := ← optional byteArray fields 1 }

def withdrawalRequest : Codec WithdrawalRequest :=
  .record
    (fun request =>
      [ account.encode request.account,
        byteArray.encode request.solanaAddress,
        Codec.nat.encode request.burnBlockIndex,
        Codec.uint64.encode request.burnedAmount,
        Codec.uint64.encode request.amountToTransfer ])
    fun fields => do
      return {
        account := ← required account fields 0
        solanaAddress := ← required byteArray fields 1
        burnBlockIndex := ← required .nat fields 2
        burnedAmount := ← required .uint64 fields 3
        amountToTransfer := ← required .uint64 fields 4 }

def creditedDeposit : Codec CreditedDeposit :=
  .record
    (fun credited =>
      [Codec.nat.encode credited.depositId, Codec.uint64.encode credited.amountToMint])
    fun fields => do
      return {
        depositId := ← required .nat fields 0
        amountToMint := ← required .uint64 fields 1 }

def signer : Codec Signer :=
  .enum
    (fun | .minter => 0 | .account _ => 1)
    (fun | .minter => [] | .account owner => [account.encode owner])
    fun index fields =>
      match index with
      | 0 => return .minter
      | 1 => return .account (← required account fields 0)
      | index => .error (.unknownVariant index)

def transactionPurpose : Codec TransactionPurpose :=
  .enum
    (fun | .sweepDeposit .. => 2 | .withdrawal _ => 4)
    (fun
      | .sweepDeposit depositIds blockHeight =>
          [(Codec.list .nat).encode depositIds, Codec.nat.encode blockHeight]
      | .withdrawal burnIndices => [idVec.encode burnIndices])
    fun index fields =>
      match index with
      | 2 => return .sweepDeposit (← required (.list .nat) fields 0) (← required .nat fields 1)
      | 4 => return .withdrawal (← required idVec fields 0)
      | index => .error (.unknownVariant index)

/-! ### Reading back -/

def InitArgsFit (args : InitArgs) : Prop :=
  TextsFit args.nonceAccounts

def UpgradeArgsFit (args : UpgradeArgs) : Prop :=
  ∀ accounts, args.nonceAccountsToAdd = some accounts → TextsFit accounts

def PurposeFits : TransactionPurpose → Prop
  | .sweepDeposit depositIds blockHeight => IdsFit depositIds ∧ blockHeight < 2 ^ 64
  | .withdrawal burnIndices => IdsFit burnIndices

/-- The arguments of an installation are read from any way to write their fields. -/
theorem initArgsOfFields_eq_ok {args : InitArgs} (hfits : InitArgsFit args) {items : List Item}
    (h : ∀ i, present items i = present (initArgsFields args) i) :
    initArgsOfFields items = .ok args := by
  simp only [initArgsOfFields, bind_eq_ok, pure_eq_ok]
  exact ⟨_, required_eq_ok lawful_principal h rfl trivial,
    _, required_eq_ok lawful_principal h rfl trivial,
    _, required_eq_ok lawful_ed25519KeyName h rfl trivial,
    _, required_eq_ok Codec.lawful_uint64 h rfl trivial,
    _, required_eq_ok Codec.lawful_uint64 h rfl trivial,
    _, required_eq_ok Codec.lawful_uint64 h rfl trivial,
    _, required_eq_ok Codec.lawful_uint64 h rfl trivial,
    _, required_eq_ok lawful_solanaNetwork h rfl trivial,
    _, required_eq_ok Codec.lawful_uint64 h rfl trivial,
    _, required_eq_ok lawful_texts h rfl hfits,
    _, optional_eq_ok Codec.lawful_uint64 h rfl fun _ _ => trivial, rfl⟩

theorem fits_initArgsFields {args : InitArgs} (hfits : InitArgsFit args) :
    (Item.array true (initArgsFields args)).Fits :=
  ⟨show 11 < 2 ^ 64 by decide, lawful_principal.fits _ trivial, lawful_principal.fits _ trivial,
    lawful_ed25519KeyName.fits _ trivial, Codec.lawful_uint64.fits _ trivial,
    Codec.lawful_uint64.fits _ trivial, Codec.lawful_uint64.fits _ trivial,
    Codec.lawful_uint64.fits _ trivial, lawful_solanaNetwork.fits _ trivial,
    Codec.lawful_uint64.fits _ trivial, lawful_texts.fits _ hfits,
    fits_optionalItem Codec.lawful_uint64 fun _ _ => trivial, trivial⟩

theorem lawful_initArgs : initArgs.Lawful InitArgsFit :=
  Codec.lawful_record (fun _ hfits _ h => initArgsOfFields_eq_ok hfits h)
    fun _ hfits => fits_initArgsFields hfits

omit [Omission] in
/-- The arguments of an upgrade are read from any way to write their fields. -/
theorem upgradeArgsOfFields_eq_ok {args : UpgradeArgs} (hfits : UpgradeArgsFit args)
    {items : List Item} (h : ∀ i, present items i = present (upgradeArgsFields args) i) :
    upgradeArgsOfFields items = .ok args := by
  simp only [upgradeArgsOfFields, bind_eq_ok, pure_eq_ok]
  exact ⟨_, optional_eq_ok lawful_principal h rfl fun _ _ => trivial,
    _, optional_eq_ok Codec.lawful_uint64 h rfl fun _ _ => trivial,
    _, optional_eq_ok Codec.lawful_uint64 h rfl fun _ _ => trivial,
    _, optional_eq_ok Codec.lawful_uint64 h rfl fun _ _ => trivial,
    _, optional_eq_ok Codec.lawful_uint64 h rfl fun _ _ => trivial,
    _, optional_eq_ok Codec.lawful_uint64 h rfl fun _ _ => trivial,
    _, optional_eq_ok lawful_texts h rfl hfits,
    _, optional_eq_ok Codec.lawful_uint64 h rfl fun _ _ => trivial, rfl⟩

omit [Omission] in
theorem fits_upgradeArgsFields {args : UpgradeArgs} (hfits : UpgradeArgsFit args) :
    (Item.array true (upgradeArgsFields args)).Fits :=
  have huint64 (v : Option UInt64) : (optionalItem .uint64 v).Fits :=
    fits_optionalItem Codec.lawful_uint64 fun _ _ => trivial
  ⟨show 8 < 2 ^ 64 by decide, fits_optionalItem lawful_principal fun _ _ => trivial, huint64 _,
    huint64 _, huint64 _, huint64 _, huint64 _, fits_optionalItem lawful_texts hfits, huint64 _,
    trivial⟩

theorem lawful_upgradeArgs : upgradeArgs.Lawful UpgradeArgsFit :=
  Codec.lawful_record (fun _ hfits _ h => upgradeArgsOfFields_eq_ok hfits h)
    fun _ hfits => fits_upgradeArgsFields hfits

theorem lawful_account : account.Lawful fun _ => True := by
  refine Codec.lawful_record (fun _ _ items h => ?_) fun _ _ => ?_
  · simp only [bind_eq_ok, pure_eq_ok]
    exact ⟨_, required_eq_ok lawful_principal h rfl trivial,
      _, optional_eq_ok lawful_byteArray h rfl fun _ _ => trivial, rfl⟩
  · exact ⟨show 2 < 2 ^ 64 by decide, lawful_principal.fits _ trivial,
      fits_optionalItem lawful_byteArray fun _ _ => trivial, trivial⟩

theorem lawful_withdrawalRequest :
    withdrawalRequest.Lawful fun request => request.burnBlockIndex < 2 ^ 64 := by
  refine Codec.lawful_record (fun _ hfits items h => ?_) fun _ hfits => ?_
  · simp only [bind_eq_ok, pure_eq_ok]
    exact ⟨_, required_eq_ok lawful_account h rfl trivial,
      _, required_eq_ok lawful_byteArray h rfl trivial,
      _, required_eq_ok Codec.lawful_nat h rfl hfits,
      _, required_eq_ok Codec.lawful_uint64 h rfl trivial,
      _, required_eq_ok Codec.lawful_uint64 h rfl trivial, rfl⟩
  · exact ⟨show 5 < 2 ^ 64 by decide, lawful_account.fits _ trivial, lawful_byteArray.fits _ trivial,
      hfits, Codec.lawful_uint64.fits _ trivial, Codec.lawful_uint64.fits _ trivial, trivial⟩

theorem lawful_creditedDeposit :
    creditedDeposit.Lawful fun credited => credited.depositId < 2 ^ 64 := by
  refine Codec.lawful_record (fun _ hfits items h => ?_) fun _ hfits => ?_
  · simp only [bind_eq_ok, pure_eq_ok]
    exact ⟨_, required_eq_ok Codec.lawful_nat h rfl hfits,
      _, required_eq_ok Codec.lawful_uint64 h rfl trivial, rfl⟩
  · exact ⟨show 2 < 2 ^ 64 by decide, hfits, Codec.lawful_uint64.fits _ trivial, trivial⟩

theorem lawful_signer : signer.Lawful fun _ => True := by
  refine Codec.lawful_enum (fun signer => by cases signer <;> simp) (fun signer _ items h => ?_)
    fun signer _ => ?_
  · cases signer with
    | minter => rfl
    | account owner =>
        exact bind_eq_ok.mpr ⟨_, required_eq_ok lawful_account h rfl trivial, rfl⟩
  · cases signer with
    | minter => exact ⟨show 0 < 2 ^ 64 by decide, trivial⟩
    | account owner => exact ⟨show 1 < 2 ^ 64 by decide, lawful_account.fits _ trivial, trivial⟩

theorem lawful_transactionPurpose : transactionPurpose.Lawful PurposeFits := by
  refine Codec.lawful_enum (fun purpose => by cases purpose <;> simp)
    (fun purpose hfits items h => ?_) fun purpose hfits => ?_
  · cases purpose with
    | sweepDeposit depositIds blockHeight =>
        simp only [bind_eq_ok, pure_eq_ok]
        exact ⟨_, required_eq_ok lawful_ids h rfl hfits.1,
          _, required_eq_ok Codec.lawful_nat h rfl hfits.2, rfl⟩
    | withdrawal burnIndices =>
        exact bind_eq_ok.mpr ⟨_, required_eq_ok lawful_idVec h rfl hfits, rfl⟩
  · cases purpose with
    | sweepDeposit depositIds blockHeight =>
        exact ⟨show 2 < 2 ^ 64 by decide, lawful_ids.fits _ hfits.1, hfits.2, trivial⟩
    | withdrawal burnIndices =>
        exact ⟨show 1 < 2 ^ 64 by decide, lawful_idVec.fits _ hfits, trivial⟩

/-! ## Events -/

variable [WireCodecs]

/-- `VersionedMessage`, whose only variant is the legacy message. -/
def versionedMessage : Codec Message :=
  .enum (fun _ => 0) (fun legacy => [message.encode legacy]) fun index fields =>
    match index with
    | 0 => required message fields 0
    | index => .error (.unknownVariant index)

def eventTypeIndex : EventType → ℕ
  | .init _ => 0
  | .upgrade _ => 1
  | .acceptedWithdrawalRequest _ => 2
  | .submittedTransaction .. => 3
  | .succeededTransaction _ => 5
  | .failedTransaction _ => 6
  | .expiredTransaction _ => 7
  | .queuedDeposit .. => 8
  | .creditedSweep .. => 9
  | .quarantinedSweep _ => 10
  | .minterPublicKeyFetched _ => 11
  | .mintedSweptDeposit .. => 12
  | .quarantinedPendingMint _ => 13
  | .createdWithdrawalTransaction .. => 14

def eventTypeFields : EventType → List Item
  | .init args => [initArgs.encode args]
  | .upgrade args => [upgradeArgs.encode args]
  | .acceptedWithdrawalRequest request => [withdrawalRequest.encode request]
  | .submittedTransaction id submitted signers purpose =>
      [ signature.encode id,
        versionedMessage.encode submitted,
        (Codec.list signer).encode signers,
        transactionPurpose.encode purpose ]
  | .succeededTransaction id => [signature.encode id]
  | .failedTransaction id => [signature.encode id]
  | .expiredTransaction id => [signature.encode id]
  | .queuedDeposit depositId deposit =>
      [ Codec.nat.encode depositId,
        account.encode deposit.account,
        address.encode deposit.address,
        depositBalance.encode deposit.balance,
        optionalItem .uint64 deposit.depositFee ]
  | .creditedSweep id amountReceived mints =>
      [ signature.encode id,
        Codec.uint64.encode amountReceived,
        (Codec.list creditedDeposit).encode mints ]
  | .quarantinedSweep id => [signature.encode id]
  | .minterPublicKeyFetched key =>
      [ed25519PublicKey.encode key.publicKey, byteArray.encode key.chainCode]
  | .mintedSweptDeposit depositId mintBlockIndex =>
      [Codec.nat.encode depositId, Codec.nat.encode mintBlockIndex]
  | .quarantinedPendingMint depositId => [Codec.nat.encode depositId]
  | .createdWithdrawalTransaction burnIndices nonceAccount nonceValue =>
      [idVec.encode burnIndices, address.encode nonceAccount, hash.encode nonceValue]

def eventTypeOfFields (index : ℕ) (fields : List Item) : Except DecodeError EventType := do
  match index with
  | 0 => return .init (← required initArgs fields 0)
  | 1 => return .upgrade (← required upgradeArgs fields 0)
  | 2 => return .acceptedWithdrawalRequest (← required withdrawalRequest fields 0)
  | 3 =>
      return .submittedTransaction (← required signature fields 0)
        (← required versionedMessage fields 1) (← required (.list signer) fields 2)
        (← required transactionPurpose fields 3)
  | 5 => return .succeededTransaction (← required signature fields 0)
  | 6 => return .failedTransaction (← required signature fields 0)
  | 7 => return .expiredTransaction (← required signature fields 0)
  | 8 =>
      return .queuedDeposit (← required .nat fields 0) {
        account := ← required account fields 1
        address := ← required address fields 2
        balance := ← required depositBalance fields 3
        depositFee := ← optional .uint64 fields 4 }
  | 9 =>
      return .creditedSweep (← required signature fields 0) (← required .uint64 fields 1)
        (← required (.list creditedDeposit) fields 2)
  | 10 => return .quarantinedSweep (← required signature fields 0)
  | 11 =>
      return .minterPublicKeyFetched {
        publicKey := ← required ed25519PublicKey fields 0
        chainCode := ← required byteArray fields 1 }
  | 12 => return .mintedSweptDeposit (← required .nat fields 0) (← required .nat fields 1)
  | 13 => return .quarantinedPendingMint (← required .nat fields 0)
  | 14 =>
      return .createdWithdrawalTransaction (← required idVec fields 0) (← required address fields 1)
        (← required hash fields 2)
  | index => .error (.unknownVariant index)

def eventType : Codec EventType :=
  .enum eventTypeIndex eventTypeFields eventTypeOfFields

def event : Codec Event :=
  .record
    (fun event => [Codec.nat.encode event.timestamp, eventType.encode event.payload])
    fun fields => do
      return { timestamp := ← required .nat fields 0, payload := ← required eventType fields 1 }

def EventTypeFits : EventType → Prop
  | .init args => InitArgsFit args
  | .upgrade args => UpgradeArgsFit args
  | .acceptedWithdrawalRequest request => request.burnBlockIndex < 2 ^ 64
  | .submittedTransaction _ submitted signers purpose =>
      MessageFits submitted ∧ signers.length < 2 ^ 64 ∧ PurposeFits purpose
  | .succeededTransaction _ => True
  | .failedTransaction _ => True
  | .expiredTransaction _ => True
  | .queuedDeposit depositId _ => depositId < 2 ^ 64
  | .creditedSweep _ _ mints =>
      mints.length < 2 ^ 64 ∧ ∀ credited ∈ mints, credited.depositId < 2 ^ 64
  | .quarantinedSweep _ => True
  | .minterPublicKeyFetched _ => True
  | .mintedSweptDeposit depositId mintBlockIndex => depositId < 2 ^ 64 ∧ mintBlockIndex < 2 ^ 64
  | .quarantinedPendingMint depositId => depositId < 2 ^ 64
  | .createdWithdrawalTransaction burnIndices _ _ => IdsFit burnIndices

section Lawful

variable [WireCodecs.Lawful]

theorem lawful_versionedMessage : versionedMessage.Lawful MessageFits :=
  Codec.lawful_enum (fun _ => by decide)
    (fun _ hfits _ h => required_eq_ok lawful_message h rfl hfits)
    fun _ hfits => ⟨show 1 < 2 ^ 64 by decide, lawful_message.fits _ hfits, trivial⟩

/-- The payload of an event is read from any way to write its fields. -/
theorem eventTypeOfFields_eq_ok {payload : EventType} (hfits : EventTypeFits payload)
    {items : List Item} (h : ∀ i, present items i = present (eventTypeFields payload) i) :
    eventTypeOfFields (eventTypeIndex payload) items = .ok payload := by
  cases payload with
  | init args => exact bind_eq_ok.mpr ⟨_, required_eq_ok lawful_initArgs h rfl hfits, rfl⟩
  | upgrade args => exact bind_eq_ok.mpr ⟨_, required_eq_ok lawful_upgradeArgs h rfl hfits, rfl⟩
  | acceptedWithdrawalRequest request =>
      exact bind_eq_ok.mpr ⟨_, required_eq_ok lawful_withdrawalRequest h rfl hfits, rfl⟩
  | submittedTransaction id submitted signers purpose =>
      simp only [eventTypeIndex, eventTypeOfFields, bind_eq_ok, pure_eq_ok]
      exact ⟨_, required_eq_ok lawful_signature h rfl trivial,
        _, required_eq_ok lawful_versionedMessage h rfl hfits.1,
        _, required_eq_ok (Codec.lawful_list lawful_signer) h rfl ⟨hfits.2.1, fun _ _ => trivial⟩,
        _, required_eq_ok lawful_transactionPurpose h rfl hfits.2.2, rfl⟩
  | succeededTransaction id =>
      exact bind_eq_ok.mpr ⟨_, required_eq_ok lawful_signature h rfl trivial, rfl⟩
  | failedTransaction id =>
      exact bind_eq_ok.mpr ⟨_, required_eq_ok lawful_signature h rfl trivial, rfl⟩
  | expiredTransaction id =>
      exact bind_eq_ok.mpr ⟨_, required_eq_ok lawful_signature h rfl trivial, rfl⟩
  | queuedDeposit depositId deposit =>
      simp only [eventTypeIndex, eventTypeOfFields, bind_eq_ok, pure_eq_ok]
      exact ⟨_, required_eq_ok Codec.lawful_nat h rfl hfits,
        _, required_eq_ok lawful_account h rfl trivial,
        _, required_eq_ok lawful_address h rfl trivial,
        _, required_eq_ok lawful_depositBalance h rfl trivial,
        _, optional_eq_ok Codec.lawful_uint64 h rfl fun _ _ => trivial, rfl⟩
  | creditedSweep id amountReceived mints =>
      simp only [eventTypeIndex, eventTypeOfFields, bind_eq_ok, pure_eq_ok]
      exact ⟨_, required_eq_ok lawful_signature h rfl trivial,
        _, required_eq_ok Codec.lawful_uint64 h rfl trivial,
        _, required_eq_ok (Codec.lawful_list lawful_creditedDeposit) h rfl hfits, rfl⟩
  | quarantinedSweep id =>
      exact bind_eq_ok.mpr ⟨_, required_eq_ok lawful_signature h rfl trivial, rfl⟩
  | minterPublicKeyFetched key =>
      simp only [eventTypeIndex, eventTypeOfFields, bind_eq_ok, pure_eq_ok]
      exact ⟨_, required_eq_ok lawful_ed25519PublicKey h rfl trivial,
        _, required_eq_ok lawful_byteArray h rfl trivial, rfl⟩
  | mintedSweptDeposit depositId mintBlockIndex =>
      simp only [eventTypeIndex, eventTypeOfFields, bind_eq_ok, pure_eq_ok]
      exact ⟨_, required_eq_ok Codec.lawful_nat h rfl hfits.1,
        _, required_eq_ok Codec.lawful_nat h rfl hfits.2, rfl⟩
  | quarantinedPendingMint depositId =>
      exact bind_eq_ok.mpr ⟨_, required_eq_ok Codec.lawful_nat h rfl hfits, rfl⟩
  | createdWithdrawalTransaction burnIndices nonceAccount nonceValue =>
      simp only [eventTypeIndex, eventTypeOfFields, bind_eq_ok, pure_eq_ok]
      exact ⟨_, required_eq_ok lawful_idVec h rfl hfits,
        _, required_eq_ok lawful_address h rfl trivial,
        _, required_eq_ok lawful_hash h rfl trivial, rfl⟩

/-- Every length and number of an encoded payload fits its field. -/
theorem fits_eventTypeFields {payload : EventType} (hfits : EventTypeFits payload) :
    (Item.array true (eventTypeFields payload)).Fits := by
  have hone : 1 < 2 ^ 64 := by decide
  have htwo : 2 < 2 ^ 64 := by decide
  have hthree : 3 < 2 ^ 64 := by decide
  -- the fields of a payload are few and each of them fits
  cases payload with
  | init args => exact ⟨hone, lawful_initArgs.fits _ hfits, trivial⟩
  | upgrade args => exact ⟨hone, lawful_upgradeArgs.fits _ hfits, trivial⟩
  | acceptedWithdrawalRequest request =>
      exact ⟨hone, lawful_withdrawalRequest.fits _ hfits, trivial⟩
  | submittedTransaction id submitted signers purpose =>
      exact ⟨show 4 < 2 ^ 64 by decide, lawful_signature.fits _ trivial,
        lawful_versionedMessage.fits _ hfits.1,
        (Codec.lawful_list lawful_signer).fits _ ⟨hfits.2.1, fun _ _ => trivial⟩,
        lawful_transactionPurpose.fits _ hfits.2.2, trivial⟩
  | succeededTransaction id => exact ⟨hone, lawful_signature.fits _ trivial, trivial⟩
  | failedTransaction id => exact ⟨hone, lawful_signature.fits _ trivial, trivial⟩
  | expiredTransaction id => exact ⟨hone, lawful_signature.fits _ trivial, trivial⟩
  | queuedDeposit depositId deposit =>
      exact ⟨show 5 < 2 ^ 64 by decide, hfits, lawful_account.fits _ trivial,
        lawful_address.fits _ trivial, lawful_depositBalance.fits _ trivial,
        fits_optionalItem Codec.lawful_uint64 fun _ _ => trivial, trivial⟩
  | creditedSweep id amountReceived mints =>
      exact ⟨hthree, lawful_signature.fits _ trivial, Codec.lawful_uint64.fits _ trivial,
        (Codec.lawful_list lawful_creditedDeposit).fits _ hfits, trivial⟩
  | quarantinedSweep id => exact ⟨hone, lawful_signature.fits _ trivial, trivial⟩
  | minterPublicKeyFetched key =>
      exact ⟨htwo, lawful_ed25519PublicKey.fits _ trivial, lawful_byteArray.fits _ trivial, trivial⟩
  | mintedSweptDeposit depositId mintBlockIndex => exact ⟨htwo, hfits.1, hfits.2, trivial⟩
  | quarantinedPendingMint depositId => exact ⟨hone, hfits, trivial⟩
  | createdWithdrawalTransaction burnIndices nonceAccount nonceValue =>
      exact ⟨hthree, lawful_idVec.fits _ hfits, lawful_address.fits _ trivial,
        lawful_hash.fits _ trivial, trivial⟩

theorem lawful_eventType : eventType.Lawful EventTypeFits :=
  Codec.lawful_enum (fun payload => by cases payload <;> simp [eventTypeIndex])
    (fun _ hfits _ h => eventTypeOfFields_eq_ok hfits h) fun _ hfits => fits_eventTypeFields hfits

theorem lawful_event :
    event.Lawful fun event => event.timestamp < 2 ^ 64 ∧ EventTypeFits event.payload := by
  refine Codec.lawful_record (fun _ hfits items h => ?_) fun _ hfits => ?_
  · simp only [bind_eq_ok, pure_eq_ok]
    exact ⟨_, required_eq_ok Codec.lawful_nat h rfl hfits.1,
      _, required_eq_ok lawful_eventType h rfl hfits.2, rfl⟩
  · exact ⟨show 2 < 2 ^ 64 by decide, hfits.1, lawful_eventType.fits _ hfits.2, trivial⟩

end Lawful

end EventCbor

open EventCbor

namespace Event

variable [Omission] [WireCodecs]

/-- `Storable::to_bytes`. -/
def toBytes (event : Event) : List UInt8 :=
  EventCbor.event.toBytes event

/-- `Storable::from_bytes`, which panics with the error. -/
def fromBytes (bytes : List UInt8) : Except DecodeError Event :=
  EventCbor.event.fromBytes bytes

/-- The numbers and lengths of the event are those of 64-bit types. -/
def Fits (event : Event) : Prop :=
  event.timestamp < 2 ^ 64 ∧ EventTypeFits event.payload

end Event

/-! ## Payloads without their last fields -/

/-- The arguments with the fields from an index on absent. -/
def UpgradeArgs.upTo (args : UpgradeArgs) (n : ℕ) : UpgradeArgs where
  solRpcCanisterId := if 0 < n then args.solRpcCanisterId else none
  minimumWithdrawalAmount := if 1 < n then args.minimumWithdrawalAmount else none
  minimumDepositAmount := if 2 < n then args.minimumDepositAmount else none
  withdrawalFee := if 3 < n then args.withdrawalFee else none
  depositSolRequiredCycles := if 4 < n then args.depositSolRequiredCycles else none
  depositSolFee := if 5 < n then args.depositSolFee else none
  nonceAccountsToAdd := if 6 < n then args.nonceAccountsToAdd else none
  automaticDepositFee := if 7 < n then args.automaticDepositFee else none

/-- The bytes of an event whose payload has the given variant and fields. -/
def EventCbor.bytesWith (timestamp : Timestamp) (index : ℕ) (fields : List Item) : List UInt8 :=
  (Item.array true [.uint timestamp, .array true [.uint index, .array true fields]]).serialize

namespace EventCbor

theorem present_upgradeArgsFields_upTo (args : UpgradeArgs) (n i : ℕ) :
    present ((upgradeArgsFields args).take n) i = present (upgradeArgsFields (args.upTo n)) i := by
  rw [present_take]
  match i with
  | 0 | 1 | 2 | 3 | 4 | 5 | 6 | 7 =>
      split <;> rename_i h <;> simp [upgradeArgsFields, UpgradeArgs.upTo, present, h, optionalItem]
  | i + 8 => split <;> rfl

variable [Omission]

theorem present_initArgsFields_take (args : InitArgs) (i : ℕ) :
    present ((initArgsFields args).take 10) i =
      present (initArgsFields { args with automaticDepositFee := none }) i := by
  rw [present_take]
  match i with
  | 0 | 1 | 2 | 3 | 4 | 5 | 6 | 7 | 8 | 9 | 10 => rfl
  | i + 11 => exact if_neg (by omega)

variable [WireCodecs]

theorem present_queuedDepositFields_take (depositId : DepositSolId) (deposit : QueuedDeposit) (i : ℕ) :
    present ((eventTypeFields (.queuedDeposit depositId deposit)).take 4) i =
      present (eventTypeFields (.queuedDeposit depositId { deposit with depositFee := none })) i := by
  rw [present_take]
  match i with
  | 0 | 1 | 2 | 3 | 4 => rfl
  | i + 5 => exact if_neg (by omega)

variable {timestamp : Timestamp} {index : ℕ} {fields : List Item} {payload : EventType}

/-- An event is read from the fields of its payload. -/
theorem fromBytes_bytesWith (htimestamp : timestamp < 2 ^ 64) (hindex : index < 2 ^ 64)
    (hfits : (Item.array true fields).Fits) (hpayload : eventTypeOfFields index fields = .ok payload) :
    Event.fromBytes (bytesWith timestamp index fields) = .ok ⟨timestamp, payload⟩ := by
  have htwo : 2 < 2 ^ 64 := by decide
  have hitem : (Item.array true [.uint timestamp, .array true [.uint index, .array true fields]]).Fits :=
    ⟨htwo, htimestamp, ⟨htwo, hindex, hfits, trivial⟩, trivial⟩
  have hread := read_serialize hitem []
  rw [List.append_nil] at hread
  refine bind_eq_ok.mpr ⟨_, orPanic_eq_ok.mpr hread, ?_⟩
  exact bind_eq_ok.mpr ⟨timestamp, rfl, bind_eq_ok.mpr ⟨payload, hpayload, rfl⟩⟩

variable [WireCodecs.Lawful]

theorem fromBytes_queuedDeposit (htimestamp : timestamp < 2 ^ 64) {depositId : DepositSolId}
    (hfits : depositId < 2 ^ 64) (deposit : QueuedDeposit) :
    Event.fromBytes (bytesWith timestamp 8
        ((eventTypeFields (.queuedDeposit depositId deposit)).take 4)) =
      .ok ⟨timestamp, .queuedDeposit depositId { deposit with depositFee := none }⟩ := by
  have hpayload (deposit) : EventTypeFits (.queuedDeposit depositId deposit) := hfits
  refine fromBytes_bytesWith htimestamp (by decide)
    (fits_sublist (List.take_sublist _ _) (fits_eventTypeFields (hpayload deposit))) ?_
  exact eventTypeOfFields_eq_ok (hpayload _) (present_queuedDepositFields_take depositId deposit)

omit [WireCodecs.Lawful] in
theorem fromBytes_init (htimestamp : timestamp < 2 ^ 64) {args : InitArgs} (hfits : InitArgsFit args) :
    Event.fromBytes (bytesWith timestamp 0 [.array true ((initArgsFields args).take 10)]) =
      .ok ⟨timestamp, .init { args with automaticDepositFee := none }⟩ := by
  refine fromBytes_bytesWith htimestamp (by decide) ⟨show 1 < 2 ^ 64 by decide,
    fits_sublist (List.take_sublist _ _) (fits_initArgsFields hfits), trivial⟩ ?_
  have hargs : InitArgsFit { args with automaticDepositFee := none } := hfits
  exact bind_eq_ok.mpr ⟨_, initArgsOfFields_eq_ok hargs (present_initArgsFields_take args), rfl⟩

omit [WireCodecs.Lawful] in
theorem fromBytes_upgrade (htimestamp : timestamp < 2 ^ 64) {args : UpgradeArgs}
    (hfits : UpgradeArgsFit args) (n : ℕ) :
    Event.fromBytes (bytesWith timestamp 1 [.array true ((upgradeArgsFields args).take n)]) =
      .ok ⟨timestamp, .upgrade (args.upTo n)⟩ := by
  have hupTo : UpgradeArgsFit (args.upTo n) := by
    intro accounts haccounts
    refine hfits accounts ?_
    simp only [UpgradeArgs.upTo] at haccounts
    split at haccounts
    · exact haccounts
    · cases haccounts
  refine fromBytes_bytesWith htimestamp (by decide) ⟨show 1 < 2 ^ 64 by decide,
    fits_sublist (List.take_sublist _ _) (fits_upgradeArgsFields hfits), trivial⟩ ?_
  exact bind_eq_ok.mpr
    ⟨_, upgradeArgsOfFields_eq_ok hupTo (present_upgradeArgsFields_upTo args n), rfl⟩

end EventCbor

/-- The log reads back what it writes: every event is decoded from its bytes, two events have different
bytes, and a payload that was written without its last optional fields is decoded with those absent. -/
theorem Event.roundTrip [Omission] [WireCodecs] [WireCodecs.Lawful] :
    (∀ event : Event, event.Fits → fromBytes event.toBytes = .ok event) ∧
    (∀ event event' : Event, event.Fits → event'.Fits → event ≠ event' →
      event.toBytes ≠ event'.toBytes) ∧
    (∀ timestamp : Timestamp, timestamp < 2 ^ 64 →
      (∀ depositId deposit, depositId < 2 ^ 64 →
        fromBytes (bytesWith timestamp 8
            ((eventTypeFields (.queuedDeposit depositId deposit)).take 4)) =
          .ok ⟨timestamp, .queuedDeposit depositId { deposit with depositFee := none }⟩) ∧
      (∀ args, InitArgsFit args →
        fromBytes (bytesWith timestamp 0 [.array true ((initArgsFields args).take 10)]) =
          .ok ⟨timestamp, .init { args with automaticDepositFee := none }⟩) ∧
      ∀ args n, UpgradeArgsFit args →
        fromBytes (bytesWith timestamp 1 [.array true ((upgradeArgsFields args).take n)]) =
          .ok ⟨timestamp, .upgrade (args.upTo n)⟩) := by
  refine ⟨fun event hfits => ?_, fun event event' hfits hfits' hne heq => ?_,
    fun timestamp htimestamp => ⟨fun depositId deposit hid => ?_, fun args hargs => ?_,
      fun args n hargs => ?_⟩⟩
  · have hback := Codec.fromBytes_toBytes lawful_event hfits []
    rwa [List.append_nil] at hback
  · exact hne (Codec.toBytes_injective lawful_event hfits hfits' heq)
  · exact fromBytes_queuedDeposit htimestamp hid deposit
  · exact fromBytes_init htimestamp hargs
  · exact fromBytes_upgrade htimestamp hargs n

/-! ## A submission -/

/-- The submission of a sweep of one deposit. -/
def sampleSubmission : Event where
  timestamp := 1_700_000_000_000_000_000
  payload := .submittedTransaction 7
    { header := ⟨1, 0, 1⟩
      accountKeys := [11, 12, 0]
      recentBlockhash := 5
      instructions := [⟨2, [0, 1], [2, 0, 0, 0]⟩] }
    [.account ⟨.anonymous, none⟩] (.sweepDeposit [3] 400_000_000)

section Sample

attribute [local instance] Omission.derived Solana.wireCodecs

theorem fits_sampleSubmission : sampleSubmission.Fits := by
  refine ⟨by decide, ⟨⟨by decide, by decide, by decide, by decide, by decide⟩, ?_⟩, by decide,
    ⟨by decide, by decide⟩, by decide⟩
  simp [WireCodecs.serialize, Solana.writeMessage, Solana.writeInstruction, Solana.writeIndex,
    Solana.writeKey, Solana.writeByte, ShortVec.writeVec, ShortVec.compact]

theorem Event.roundTrip_sampleSubmission :
    fromBytes sampleSubmission.toBytes = .ok sampleSubmission :=
  have := Solana.lawful_wireCodecs
  Event.roundTrip.1 sampleSubmission fits_sampleSubmission

end Sample

end Cksol
