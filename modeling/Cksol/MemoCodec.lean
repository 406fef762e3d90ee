import Cksol.Memo
import Cksol.State.EventCbor

/-! # Decoding memos

The derived codecs of the memos: every type is written by index, as the events are. The bytes of a memo
are those of its item, so a memo is read back from them, and two memos never share them.
-/

namespace Cksol

open Cbor

namespace MemoCodec

/-- `minicbor::bytes` of a signature. -/
def signature : Codec Signature :=
  EventCbor.fixedBytes 512 64 "byte slice length does not match array length"

theorem lawful_signature : signature.Lawful fun _ => True :=
  EventCbor.lawful_fixedBytes (by decide) (by decide) _

variable [Omission]

def mintMemo : Codec MintMemo :=
  .enum
    (fun | .sweep .. => 1)
    (fun | .sweep sig depositId => [signature.encode sig, Codec.nat.encode depositId])
    fun index fields =>
      match index with
      | 1 => return .sweep (← required signature fields 0) (← required .nat fields 1)
      | index => .error (.unknownVariant index)

def burnMemo : Codec BurnMemo :=
  .enum
    (fun | .convert _ => 0)
    (fun | .convert toAddress => [EventCbor.byteArray.encode toAddress])
    fun index fields =>
      match index with
      | 0 => return .convert (← required EventCbor.byteArray fields 0)
      | index => .error (.unknownVariant index)

def memo : Codec Memo :=
  .enum
    (fun | .mint _ => 0 | .burn _ => 1)
    (fun | .mint memo => [mintMemo.encode memo] | .burn memo => [burnMemo.encode memo])
    fun index fields =>
      match index with
      | 0 => return .mint (← required mintMemo fields 0)
      | 1 => return .burn (← required burnMemo fields 0)
      | index => .error (.unknownVariant index)

/-! ## Reading back -/

def MintMemoFits : MintMemo → Prop
  | .sweep _ depositId => depositId < 2 ^ 64

/-- The deposit id of the memo is a `u64`. -/
def MemoFits : Memo → Prop
  | .mint memo => MintMemoFits memo
  | .burn _ => True

theorem lawful_mintMemo : mintMemo.Lawful MintMemoFits := by
  refine Codec.lawful_enum (fun v => ?_) (fun v hfits items h => ?_) fun v hfits => ?_
  all_goals obtain ⟨sig, depositId⟩ := v
  · exact show 1 < 2 ^ 64 by decide
  · exact bind_eq_ok.mpr ⟨_, required_eq_ok lawful_signature h rfl trivial,
      bind_eq_ok.mpr ⟨_, required_eq_ok Codec.lawful_nat h rfl hfits, rfl⟩⟩
  · exact ⟨show 2 < 2 ^ 64 by decide, lawful_signature.fits _ trivial, hfits, trivial⟩

theorem lawful_burnMemo : burnMemo.Lawful fun _ => True := by
  refine Codec.lawful_enum (fun v => ?_) (fun v _ items h => ?_) fun v _ => ?_
  all_goals obtain ⟨toAddress⟩ := v
  · exact show 0 < 2 ^ 64 by decide
  · exact bind_eq_ok.mpr ⟨_, required_eq_ok EventCbor.lawful_byteArray h rfl trivial, rfl⟩
  · exact ⟨show 1 < 2 ^ 64 by decide, EventCbor.lawful_byteArray.fits _ trivial, trivial⟩

theorem lawful_memo : memo.Lawful MemoFits := by
  refine Codec.lawful_enum (fun v => ?_) (fun v hfits items h => ?_) fun v hfits => ?_
  all_goals rcases v with v | v
  · exact show 0 < 2 ^ 64 by decide
  · exact show 1 < 2 ^ 64 by decide
  · exact bind_eq_ok.mpr ⟨_, required_eq_ok lawful_mintMemo h rfl hfits, rfl⟩
  · exact bind_eq_ok.mpr ⟨_, required_eq_ok lawful_burnMemo h rfl trivial, rfl⟩
  · exact ⟨show 1 < 2 ^ 64 by decide, lawful_mintMemo.fits v hfits, trivial⟩
  · exact ⟨show 1 < 2 ^ 64 by decide, lawful_burnMemo.fits v trivial, trivial⟩

/-! ## The bytes -/

section Bytes

omit [Omission]

theorem cborHead_eq_head (major n : ℕ) : cborHead major n = head major n := by
  rw [cborHead, head]
  simp only [Nat.mul_comm major 32]
  rfl

theorem serializeAll_eq (items : List Item) :
    serializeAll items = (items.map Item.serialize).flatten := by
  induction items with
  | nil => rfl
  | cons item items ih => rw [serializeAll, ih, List.map_cons, List.flatten_cons]

theorem serialize_array (items : List Item) :
    (Item.array true items).serialize = cborArray (items.map Item.serialize) := by
  rw [Item.serialize, serializeAll_eq, cborArray, cborHead_eq_head, List.length_map]

theorem serialize_fixedBytes {w n : ℕ} (mismatch : String) (v : BitVec w) :
    ((EventCbor.fixedBytes w n mismatch).encode v).serialize = cborBytes (bigEndian n v.toNat) := by
  rw [cborBytes, cborHead_eq_head]
  rfl

theorem serialize_nat (n : ℕ) : (Codec.nat.encode n).serialize = cborUnsigned n := by
  rw [cborUnsigned, cborHead_eq_head]
  rfl

end Bytes

/-- A variant without absent fields has the bytes of its index and of the array of its fields. -/
theorem serialize_enum {α : Type} {variantIndex : α → ℕ} {encodeFields : α → List Item}
    {decodeFields : ℕ → List Item → Except DecodeError α} {v : α}
    (h : ∀ item ∈ encodeFields v, item ≠ .null) :
    ((Codec.enum variantIndex encodeFields decodeFields).encode v).serialize =
      cborVariant (variantIndex v) ((encodeFields v).map Item.serialize) := by
  show (Item.array true [.uint _, .array true (Omission.variant.write (encodeFields v))]).serialize = _
  rw [FieldWriter.write_eq_self _ h, serialize_array, List.map_cons, List.map_singleton, serialize_array]
  exact congrArg (fun index => cborArray [index, _]) (serialize_nat _)

theorem serialize_mintMemo (v : MintMemo) : (mintMemo.encode v).serialize = Memo.encodeMint v := by
  obtain ⟨sig, depositId⟩ := v
  refine (serialize_enum ?_).trans ?_
  · simp [lawful_signature.ne_null, Codec.lawful_nat.ne_null]
  · show cborVariant 1 [_, _] = _
    rw [signature, serialize_fixedBytes, serialize_nat]
    rfl

theorem serialize_burnMemo (v : BurnMemo) : (burnMemo.encode v).serialize = Memo.encodeBurn v := by
  obtain ⟨toAddress⟩ := v
  refine (serialize_enum ?_).trans ?_
  · simp [EventCbor.lawful_byteArray.ne_null]
  · show cborVariant 0 [_] = _
    rw [EventCbor.byteArray, serialize_fixedBytes]
    rfl

/-- The bytes of the ledger memo are those of the derived codec. -/
theorem toBytes_memo (v : Memo) : memo.toBytes v = v.encode := by
  rcases v with v | v
  · refine (serialize_enum ?_).trans ?_
    · simp [lawful_mintMemo.ne_null]
    · show cborVariant 0 [_] = _
      rw [serialize_mintMemo]
      rfl
  · refine (serialize_enum ?_).trans ?_
    · simp [lawful_burnMemo.ne_null]
    · show cborVariant 1 [_] = _
      rw [serialize_burnMemo]
      rfl

/-! ## Lengths -/

section Lengths

omit [Omission]

/-- A number has at most five bytes up to `u32::MAX`, and nine above. -/
theorem length_cborUnsigned (n : ℕ) :
    ((cborUnsigned n).length ≤ 5 ∧ n < 2 ^ 32) ∨ ((cborUnsigned n).length = 9 ∧ 2 ^ 32 ≤ n) := by
  unfold cborUnsigned cborHead
  split_ifs <;> simp <;> omega

theorem length_encode_sweep (sig : Signature) (depositId : DepositSolId) :
    (Memo.encode (.mint (.sweep sig depositId))).length = 72 + (cborUnsigned depositId).length := by
  rw [Memo.encode_sweep]
  simp [signatureBytes]
  omega

theorem length_encode_convert (toAddress : Address) :
    (Memo.encode (.burn (.convert toAddress))).length = 40 := by
  simp [Memo.encode, Memo.encodeBurn, cborVariant, cborArray, cborBytes, cborUnsigned, addressBytes,
    cborHead]

end Lengths

/-- A memo whose deposit id is a `u64` is decoded from its bytes, which no other memo has; they are at
most `MAX_SERIALIZED_MEMO_BYTES`, and for a sweep within 80 exactly up to the largest `u32` id. -/
theorem memo_roundTrip {v v' : Memo} (h : MemoFits v) (h' : MemoFits v') :
    memo.fromBytes v.encode = .ok v ∧ (v ≠ v' → v.encode ≠ v'.encode) ∧
      v.encode.length ≤ maxSerializedMemoBytes ∧
      ∀ (sig : Signature) (depositId : ℕ), v = .mint (.sweep sig depositId) →
        (v.encode.length ≤ 80 ↔ depositId ≤ 2 ^ 32 - 1) := by
  refine ⟨?_, fun hne heq => hne ?_, ?_, ?_⟩
  · have hback := Codec.fromBytes_toBytes lawful_memo h []
    rwa [List.append_nil, toBytes_memo] at hback
  · refine Codec.toBytes_injective lawful_memo h h' ?_
    rw [toBytes_memo, toBytes_memo, heq]
  · rcases v with ⟨sig, depositId⟩ | ⟨toAddress⟩
    · rw [length_encode_sweep]
      have hlength := length_cborUnsigned depositId
      unfold maxSerializedMemoBytes
      omega
    · rw [length_encode_convert]
      decide
  · rintro sig depositId rfl
    rw [length_encode_sweep]
    have hlength := length_cborUnsigned depositId
    omega

omit [Omission] in
/-- The first deposit id beyond `u32::MAX` takes the memo past 80 bytes. -/
theorem memo_roundTrip_beyond_u32 :
    MemoFits (.mint (.sweep 0 (2 ^ 32))) ∧
      Memo.encode (.mint (.sweep 0 (2 ^ 32))) ≠ Memo.encode (.burn (.convert 0)) ∧
      (Memo.encode (.mint (.sweep 0 (2 ^ 32)))).length ≤ 81 ∧
      ¬ (Memo.encode (.mint (.sweep 0 (2 ^ 32)))).length ≤ 80 := by
  have hfits : MemoFits (.mint (.sweep 0 (2 ^ 32))) := show 2 ^ 32 < 2 ^ 64 by decide
  obtain ⟨-, hne, hmax, hiff⟩ :=
    @memo_roundTrip Omission.derived _ (.burn (.convert 0)) hfits trivial
  refine ⟨hfits, hne (by simp), hmax, fun hle => ?_⟩
  exact absurd ((hiff 0 (2 ^ 32) rfl).mp hle) (by decide)

end MemoCodec

end Cksol
