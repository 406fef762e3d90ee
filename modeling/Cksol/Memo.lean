import Cksol.Common.Bytes
import Cksol.State.Panic

/-! # `memo`

The memos of the ckSOL ledger and their CBOR encoding: an enum is the array of its index and of the
array of its fields, as the layout in the source's documentation gives it.
-/

namespace Cksol

/-! ## CBOR -/

/-- The head of a CBOR item: its major type and its argument in as few bytes as possible. -/
def cborHead (majorType argument : ℕ) : List UInt8 :=
  let initial (info : ℕ) : UInt8 := UInt8.ofNat (majorType * 32 + info)
  if argument < 24 then [initial argument]
  else if argument < 256 then initial 24 :: bigEndian 1 argument
  else if argument < 256 ^ 2 then initial 25 :: bigEndian 2 argument
  else if argument < 256 ^ 4 then initial 26 :: bigEndian 4 argument
  else initial 27 :: bigEndian 8 argument

def cborUnsigned (value : ℕ) : List UInt8 :=
  cborHead 0 value

def cborBytes (bytes : List UInt8) : List UInt8 :=
  cborHead 2 bytes.length ++ bytes

def cborArray (items : List (List UInt8)) : List UInt8 :=
  cborHead 4 items.length ++ items.flatten

/-- An enum variant with its fields. -/
def cborVariant (index : ℕ) (fields : List (List UInt8)) : List UInt8 :=
  cborArray [cborUnsigned index, cborArray fields]

/-- Unsigned integers that fit in eight bytes are told apart by their encoding. -/
theorem cborUnsigned_injective {x y : ℕ} (hx : x < 2 ^ 64) (hy : y < 2 ^ 64)
    (h : cborUnsigned x = cborUnsigned y) : x = y := by
  have hlength := congrArg List.length h
  unfold cborUnsigned cborHead at h hlength
  simp only [Nat.zero_mul, Nat.zero_add] at h hlength
  -- heads of different lengths differ, and those of equal length carry the number itself
  split_ifs at h hlength <;> simp at hlength
  · simp only [List.cons.injEq, and_true] at h
    have := congrArg UInt8.toNat h
    simp only [UInt8.toNat_ofNat'] at this
    omega
  all_goals
    simp only [List.cons.injEq, true_and] at h
    exact bigEndian_injective (by omega) (by omega) h

/-! ## Memos -/

/-- The bytes of the largest memo. -/
def maxSerializedMemoBytes : ℕ := 81

/-- The bytes of a signature. -/
def signatureBytes (signature : Signature) : List UInt8 :=
  bigEndian 64 signature.toNat

/-- The bytes of an address. -/
def addressBytes (address : Address) : List UInt8 :=
  bigEndian 32 address.toNat

/-- The memo of a mint names the sweep and the deposit that it pays for. -/
inductive MintMemo where
  | sweep (signature : Signature) (depositId : DepositSolId)
deriving DecidableEq

/-- The memo of a burn names the destination of the withdrawal. -/
inductive BurnMemo where
  | convert (toAddress : Address)
deriving DecidableEq

/-- A ckSOL minter ledger memo. -/
inductive Memo where
  | mint (memo : MintMemo)
  | burn (memo : BurnMemo)
deriving DecidableEq

namespace Memo

def encodeMint : MintMemo → List UInt8
  | .sweep signature depositId =>
      cborVariant 1 [cborBytes (signatureBytes signature), cborUnsigned depositId]

def encodeBurn : BurnMemo → List UInt8
  | .convert toAddress => cborVariant 0 [cborBytes (addressBytes toAddress)]

/-- The bytes of the ICRC-1 memo. -/
def encode : Memo → List UInt8
  | mint memo => cborVariant 0 [encodeMint memo]
  | burn memo => cborVariant 1 [encodeBurn memo]

/-- The layout of a mint memo: a fixed head, the signature and the deposit id. -/
theorem encode_sweep (signature : Signature) (depositId : DepositSolId) :
    encode (.mint (.sweep signature depositId)) =
      [0x82, 0x00, 0x81, 0x82, 0x01, 0x82, 0x58, 0x40] ++
        (signatureBytes signature ++ cborUnsigned depositId) := by
  simp only [encode, encodeMint, cborVariant, cborArray, cborBytes, signatureBytes, length_bigEndian,
    List.flatten_cons, List.flatten_nil, List.append_nil, List.length_cons, List.length_nil]
  simp [cborHead, cborUnsigned, bigEndian, littleEndian]

/-- The memo of a mint names its deposit. -/
theorem depositId_of_encode_eq {signature signature' : Signature} {id id' : DepositSolId}
    (hid : id < 2 ^ 64) (hid' : id' < 2 ^ 64)
    (h : encode (.mint (.sweep signature id)) = encode (.mint (.sweep signature' id'))) :
    id = id' := by
  rw [encode_sweep, encode_sweep, List.append_cancel_left_eq] at h
  have hlength : (signatureBytes signature).length = (signatureBytes signature').length := by
    simp [signatureBytes]
  exact cborUnsigned_injective hid hid' (List.append_inj h hlength).2

end Memo

end Cksol
