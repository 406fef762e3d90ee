import Cksol.Common.Fallible
import Cksol.Solana.Bincode

/-! # The data of durable nonce accounts

The crate `solana-nonce` stores the state of a nonce account under a version, and `bincode` writes and
reads it. Neither is part of the repository: both directions are the fields of `NonceCodec`, and
`NonceCodec.Lawful` says that one undoes the other. An instance writes a four-byte tag for every variant.
-/

namespace Cksol

/-- `NonceAccount`: what the minter reads of an initialized nonce account. -/
structure NonceAccountData where
  authority : Address
  nonce : Hash
deriving DecidableEq

namespace Solana

variable {input rest : List UInt8}

/-- `nonce::state::Data`, with the hash that its method `blockhash` returns. -/
structure NonceData extends NonceAccountData where
  lamportsPerSignature : UInt64
deriving DecidableEq

/-- `nonce::state::State`. -/
inductive NonceState where
  | uninitialized
  | initialized (data : NonceData)
deriving DecidableEq

/-- `nonce::versions::Versions`. -/
inductive NonceVersions where
  | legacy (state : NonceState)
  | current (state : NonceState)
deriving DecidableEq

/-- `bincode` at the type `NonceVersions`. -/
class NonceCodec where
  /-- `bincode::serialize`. -/
  serialize : NonceVersions → List UInt8
  /-- `bincode::deserialize`, with the text of its error, and with the bytes that it does not read. -/
  deserialize : List UInt8 → Except String (NonceVersions × List UInt8)

/-- What is read is exactly what was written, whatever follows. -/
class NonceCodec.Lawful [NonceCodec] : Prop where
  deserialize_eq_ok : ∀ {versions : NonceVersions} {input rest : List UInt8},
    NonceCodec.deserialize input = .ok (versions, rest) ↔
      input = NonceCodec.serialize versions ++ rest

/-! ## Writing -/

/-- The tag of a variant. -/
def writeVariant (variant : ℕ) : List UInt8 :=
  littleEndian 4 variant

def writeNonceData (data : NonceData) : List UInt8 :=
  writeKey data.authority ++ (writeKey data.nonce ++
    littleEndian 8 data.lamportsPerSignature.toNat)

def writeNonceState : NonceState → List UInt8
  | .uninitialized => writeVariant 0
  | .initialized data => writeVariant 1 ++ writeNonceData data

def writeNonceVersions : NonceVersions → List UInt8
  | .legacy state => writeVariant 0 ++ writeNonceState state
  | .current state => writeVariant 1 ++ writeNonceState state

/-! ## Reading -/

/-- The error of `bincode` when the input is too short. -/
def unexpectedEnd : String := "io error: unexpected end of file"

/-- The tag of one of the given number of variants. -/
def readVariant (variants : ℕ) (input : List UInt8) : Except String (ℕ × List UInt8) := do
  let (bytes, rest) ← orPanic (splitAt? 4 input) unexpectedEnd
  let variant := ofLittleEndian bytes
  check (variant < variants)
    s!"invalid value: integer `{variant}`, expected variant index 0 <= i < {variants}"
  return (variant, rest)

def readNonceData (input : List UInt8) : Except String (NonceData × List UInt8) := do
  let (authority, input) ← orPanic (readKey input) unexpectedEnd
  let (nonce, input) ← orPanic (readKey input) unexpectedEnd
  let (bytes, rest) ← orPanic (splitAt? 8 input) unexpectedEnd
  return (⟨⟨authority, nonce⟩, UInt64.ofNat (ofLittleEndian bytes)⟩, rest)

def readNonceState (input : List UInt8) : Except String (NonceState × List UInt8) := do
  let (variant, input) ← readVariant 2 input
  if variant = 0 then
    return (.uninitialized, input)
  else
    let (data, rest) ← readNonceData input
    return (.initialized data, rest)

def readNonceVersions (input : List UInt8) : Except String (NonceVersions × List UInt8) := do
  let (variant, input) ← readVariant 2 input
  let (state, rest) ← readNonceState input
  return (if variant = 0 then .legacy state else .current state, rest)

/-! ## What is read is what was written -/

theorem readKey_eq_some {key : BitVec 256} :
    readKey input = some (key, rest) ↔ input = writeKey key ++ rest := by
  constructor
  · intro h
    obtain ⟨⟨content, rest'⟩, hsplit, heq⟩ := Option.map_eq_some_iff.mp h
    obtain ⟨rfl, rfl⟩ := Prod.mk.inj heq
    obtain ⟨hlength, rfl⟩ := splitAt?_eq_some.mp hsplit
    have hlt : ofBigEndian content < 2 ^ 256 := by
      have hbytes := ofLittleEndian_lt content.reverse
      rwa [List.length_reverse, hlength] at hbytes
    rw [writeKey, BitVec.toNat_ofNat, Nat.mod_eq_of_lt hlt, bigEndian_ofBigEndian hlength]
  · rintro rfl
    exact readKey_writeKey key rest

theorem readVariant_eq_ok {variants variant : ℕ} (hvariants : variants ≤ 256 ^ 4) :
    readVariant variants input = .ok (variant, rest) ↔
      variant < variants ∧ input = writeVariant variant ++ rest := by
  simp only [readVariant, bind_eq_ok, orPanic_eq_ok, check_eq_ok, pure_eq_ok, Prod.exists,
    splitAt?_eq_some, Prod.mk.injEq, exists_const, writeVariant]
  constructor
  · rintro ⟨bytes, rest', ⟨hlength, rfl⟩, hlt, rfl, rfl⟩
    exact ⟨hlt, by rw [littleEndian_ofLittleEndian hlength]⟩
  · rintro ⟨hlt, rfl⟩
    have hread := ofLittleEndian_littleEndian (Nat.lt_of_lt_of_le hlt hvariants)
    exact ⟨_, rest, ⟨length_littleEndian 4 variant, rfl⟩, by rwa [hread], hread, rfl⟩

theorem readNonceData_eq_ok {data : NonceData} :
    readNonceData input = .ok (data, rest) ↔ input = writeNonceData data ++ rest := by
  simp only [readNonceData, bind_eq_ok, orPanic_eq_ok, pure_eq_ok, Prod.exists, readKey_eq_some,
    splitAt?_eq_some, Prod.mk.injEq, writeNonceData]
  constructor
  · rintro ⟨authority, _, rfl, nonce, _, rfl, bytes, rest', ⟨hlength, rfl⟩, rfl, rfl⟩
    have hlt : ofLittleEndian bytes < 2 ^ 64 := by
      have hbytes := ofLittleEndian_lt bytes
      rwa [hlength] at hbytes
    have hvalue : (UInt64.ofNat (ofLittleEndian bytes)).toNat = ofLittleEndian bytes := by
      rw [UInt64.toNat_ofNat', Nat.mod_eq_of_lt hlt]
    rw [hvalue, littleEndian_ofLittleEndian hlength, List.append_assoc, List.append_assoc]
  · rintro rfl
    have hread := ofLittleEndian_littleEndian (n := 8) data.lamportsPerSignature.toNat_lt
    refine ⟨data.authority, _, by rw [List.append_assoc], data.nonce, _,
      by rw [List.append_assoc], _, rest, ⟨length_littleEndian 8 _, rfl⟩, ?_, rfl⟩
    rw [hread, UInt64.ofNat_toNat]

theorem readNonceState_eq_ok {state : NonceState} :
    readNonceState input = .ok (state, rest) ↔ input = writeNonceState state ++ rest := by
  simp only [readNonceState, bind_eq_ok, Prod.exists, readVariant_eq_ok (by decide : 2 ≤ 256 ^ 4)]
  constructor
  · rintro ⟨variant, middle, ⟨hlt, rfl⟩, hstate⟩
    split at hstate
    · next hzero =>
      obtain ⟨rfl, rfl⟩ := Prod.mk.inj (pure_eq_ok.mp hstate)
      rw [hzero]
      rfl
    · next hzero =>
      simp only [bind_eq_ok, pure_eq_ok, Prod.exists, readNonceData_eq_ok, Prod.mk.injEq] at hstate
      obtain ⟨data, rest', rfl, rfl, rfl⟩ := hstate
      obtain rfl : variant = 1 := by omega
      rw [writeNonceState, List.append_assoc]
  · rintro rfl
    cases state with
    | uninitialized => exact ⟨0, rest, ⟨by omega, rfl⟩, rfl⟩
    | initialized data =>
        refine ⟨1, writeNonceData data ++ rest, ⟨by omega, List.append_assoc _ _ _⟩, ?_⟩
        rw [if_neg Nat.one_ne_zero]
        simp only [bind_eq_ok, pure_eq_ok, Prod.exists, readNonceData_eq_ok, Prod.mk.injEq]
        exact ⟨data, rest, rfl, rfl, rfl⟩

theorem readNonceVersions_eq_ok {versions : NonceVersions} :
    readNonceVersions input = .ok (versions, rest) ↔
      input = writeNonceVersions versions ++ rest := by
  simp only [readNonceVersions, bind_eq_ok, pure_eq_ok, Prod.exists, readNonceState_eq_ok,
    readVariant_eq_ok (by decide : 2 ≤ 256 ^ 4), Prod.mk.injEq]
  constructor
  · rintro ⟨variant, _, ⟨hlt, rfl⟩, state, rest', rfl, rfl, rfl⟩
    split
    · next hzero =>
      rw [hzero, writeNonceVersions, List.append_assoc]
    · next hzero =>
      obtain rfl : variant = 1 := by omega
      rw [writeNonceVersions, List.append_assoc]
  · rintro rfl
    cases versions with
    | legacy state =>
        exact ⟨0, _, ⟨by omega, List.append_assoc _ _ _⟩, state, rest, rfl, rfl, rfl⟩
    | current state =>
        exact ⟨1, _, ⟨by omega, List.append_assoc _ _ _⟩, state, rest, rfl, rfl, rfl⟩

/-- The codec with a tag for every variant. -/
@[reducible] def nonceCodec : NonceCodec where
  serialize := writeNonceVersions
  deserialize := readNonceVersions

attribute [local instance] nonceCodec

theorem lawful_nonceCodec : NonceCodec.Lawful where
  deserialize_eq_ok := readNonceVersions_eq_ok

end Solana

end Cksol
