import Cksol.Common.ShortVec
import Cksol.Solana.Sdk

/-! # Codecs of messages and keys

The crates `bincode` and `ic-ed25519` convert messages and public keys to bytes and back. Their
functions are the fields of `WireCodecs`, and `WireCodecs.Lawful` states that they round-trip. The
concrete instance writes a message as Solana's wire format does.
-/

namespace Cksol

/-- The numbers of the message are bytes. -/
structure Message.Fits (message : Message) : Prop where
  numRequiredSignatures : message.header.numRequiredSignatures < 256
  numReadonlySignedAccounts : message.header.numReadonlySignedAccounts < 256
  numReadonlyUnsignedAccounts : message.header.numReadonlyUnsignedAccounts < 256
  programIdIndex : ∀ instruction ∈ message.instructions, instruction.programIdIndex < 256
  accounts : ∀ instruction ∈ message.instructions, ∀ index ∈ instruction.accounts, index < 256

/-- The wire formats of messages and keys. -/
class WireCodecs where
  /-- `bincode::serialize` of a message. -/
  serialize : Message → List UInt8
  /-- `bincode::deserialize` of a message, with the text of its error. -/
  deserialize : List UInt8 → Except String Message
  /-- `PublicKey::serialize_raw`. -/
  serializeRaw : PublicKey → List UInt8
  /-- `PublicKey::deserialize_raw`, with the text of its error. -/
  deserializeRaw : List UInt8 → Except String PublicKey

/-- Messages and keys are read back from what is written of them. -/
class WireCodecs.Lawful [WireCodecs] : Prop where
  deserialize_serialize : ∀ message : Message, message.Fits →
    deserialize (serialize message) = .ok message
  deserializeRaw_serializeRaw : ∀ key, deserializeRaw (serializeRaw key) = .ok key
  length_serializeRaw : ∀ key, (serializeRaw key).length = 32

/-! ## The concrete codecs -/

namespace Solana

open ShortVec

def writeByte (byte : UInt8) : List UInt8 :=
  [byte]

def readByte : List UInt8 → Option (UInt8 × List UInt8)
  | [] => none
  | byte :: rest => some (byte, rest)

def writeIndex (index : ℕ) : List UInt8 :=
  [UInt8.ofNat index]

def readIndex : List UInt8 → Option (ℕ × List UInt8)
  | [] => none
  | byte :: rest => some (byte.toNat, rest)

def writeKey (key : BitVec 256) : List UInt8 :=
  bigEndian 32 key.toNat

def readKey (input : List UInt8) : Option (BitVec 256 × List UInt8) :=
  (splitAt? 32 input).map fun parts => (BitVec.ofNat 256 (ofBigEndian parts.1), parts.2)

def writeInstruction (instruction : CompiledInstruction) : List UInt8 :=
  writeIndex instruction.programIdIndex ++ (writeVec writeIndex instruction.accounts ++
    writeVec writeByte instruction.data)

def readInstruction (input : List UInt8) : Option (CompiledInstruction × List UInt8) := do
  let (programIdIndex, input) ← readIndex input
  let (accounts, input) ← readVec readIndex input
  let (data, rest) ← readVec readByte input
  return (⟨programIdIndex, accounts, data⟩, rest)

def writeMessage (message : Message) : List UInt8 :=
  writeIndex message.header.numRequiredSignatures ++
    (writeIndex message.header.numReadonlySignedAccounts ++
      (writeIndex message.header.numReadonlyUnsignedAccounts ++
        (writeVec writeKey message.accountKeys ++ (writeKey message.recentBlockhash ++
          writeVec writeInstruction message.instructions))))

def readMessage (input : List UInt8) : Option (Message × List UInt8) := do
  let (numRequiredSignatures, input) ← readIndex input
  let (numReadonlySignedAccounts, input) ← readIndex input
  let (numReadonlyUnsignedAccounts, input) ← readIndex input
  let (accountKeys, input) ← readVec readKey input
  let (recentBlockhash, input) ← readKey input
  let (instructions, rest) ← readVec readInstruction input
  return ({
    header := ⟨numRequiredSignatures, numReadonlySignedAccounts, numReadonlyUnsignedAccounts⟩
    accountKeys, recentBlockhash, instructions }, rest)

@[reducible] def wireCodecs : WireCodecs where
  serialize := writeMessage
  deserialize bytes :=
    match readMessage bytes with
    | some (message, _) => .ok message
    | none => .error "io error: unexpected end of file"
  serializeRaw := writeKey
  deserializeRaw bytes :=
    if bytes.length = 32 then .ok (BitVec.ofNat 256 (ofBigEndian bytes))
    else .error "unexpected key length"

/-! ## Laws -/

theorem readIndex_writeIndex {index : ℕ} (h : index < 256) (rest : List UInt8) :
    readIndex (writeIndex index ++ rest) = some (index, rest) := by
  have hbyte : (UInt8.ofNat index).toNat = index := by
    rw [UInt8.toNat_ofNat']
    omega
  rw [writeIndex, List.singleton_append, readIndex, hbyte]

theorem ofBigEndian_writeKey (key : BitVec 256) :
    BitVec.ofNat 256 (ofBigEndian (writeKey key)) = key :=
  ofNat_ofBigEndian (show 256 = 8 * 32 from rfl) key

theorem readKey_writeKey (key : BitVec 256) (rest : List UInt8) :
    readKey (writeKey key ++ rest) = some (key, rest) := by
  have hsplit := splitAt?_append (writeKey key) rest
  rw [writeKey, length_bigEndian] at hsplit
  rw [readKey, writeKey, hsplit, Option.map_some, ← writeKey, ofBigEndian_writeKey]

theorem readInstruction_writeInstruction {instruction : CompiledInstruction}
    (hprogram : instruction.programIdIndex < 256)
    (haccounts : ∀ index ∈ instruction.accounts, index < 256) (rest : List UInt8) :
    readInstruction (writeInstruction instruction ++ rest) = some (instruction, rest) := by
  have hindices := readVec_writeVec fun index hindex => readIndex_writeIndex (haccounts index hindex)
  have hdata : ∀ input, readVec readByte (writeVec writeByte instruction.data ++ input) =
      some (instruction.data, input) := readVec_writeVec fun _ _ _ => rfl
  simp only [readInstruction, writeInstruction, List.append_assoc, readIndex_writeIndex hprogram,
    hindices, hdata, Option.bind_eq_bind, Option.bind_some]
  rfl

theorem readMessage_writeMessage {message : Message} (h : message.Fits) (rest : List UInt8) :
    readMessage (writeMessage message ++ rest) = some (message, rest) := by
  have hkeys := readVec_writeVec fun key (_ : key ∈ message.accountKeys) => readKey_writeKey key
  have hinstructions := readVec_writeVec fun instruction hmem =>
    readInstruction_writeInstruction (h.programIdIndex instruction hmem) (h.accounts instruction hmem)
  simp only [readMessage, writeMessage, List.append_assoc, readIndex_writeIndex h.numRequiredSignatures,
    readIndex_writeIndex h.numReadonlySignedAccounts,
    readIndex_writeIndex h.numReadonlyUnsignedAccounts, hkeys, readKey_writeKey, hinstructions,
    Option.bind_eq_bind, Option.bind_some]
  rfl

theorem lawful_wireCodecs : @WireCodecs.Lawful wireCodecs :=
  letI := wireCodecs
  { deserialize_serialize := by
      intro message hfits
      have hread := readMessage_writeMessage hfits []
      rw [List.append_nil] at hread
      simp only [WireCodecs.serialize, WireCodecs.deserialize, hread]
    deserializeRaw_serializeRaw := by
      intro key
      have hlength : (writeKey key).length = 32 := length_bigEndian _ _
      exact (if_pos hlength).trans (congrArg Except.ok (ofBigEndian_writeKey key))
    length_serializeRaw := fun _ => length_bigEndian _ _ }

end Solana

end Cksol
