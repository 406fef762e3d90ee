import Mathlib.Algebra.GroupWithZero.Nat
import Mathlib.Data.Nat.Notation
import Mathlib.Tactic.Basic

/-! # Fixed-width byte strings of numbers -/

namespace Cksol

variable {n : ℕ}

/-- The `n` lowest bytes of a number, least significant first. -/
def littleEndian : ℕ → ℕ → List UInt8
  | 0, _ => []
  | n + 1, x => UInt8.ofNat x :: littleEndian n (x / 256)

/-- The `n` lowest bytes of a number, most significant first. -/
def bigEndian (n x : ℕ) : List UInt8 :=
  (littleEndian n x).reverse

@[simp] theorem length_littleEndian (n x : ℕ) : (littleEndian n x).length = n := by
  induction n generalizing x with
  | zero => rfl
  | succ n ih => simp [littleEndian, ih]

@[simp] theorem length_bigEndian (n x : ℕ) : (bigEndian n x).length = n := by
  simp [bigEndian]

/-- The number with the given bytes, least significant first. -/
def ofLittleEndian : List UInt8 → ℕ
  | [] => 0
  | byte :: bytes => byte.toNat + 256 * ofLittleEndian bytes

/-- The number with the given bytes, most significant first. -/
def ofBigEndian (bytes : List UInt8) : ℕ :=
  ofLittleEndian bytes.reverse

/-- A number that fits is read back from its bytes. -/
theorem ofLittleEndian_littleEndian {n x : ℕ} (h : x < 256 ^ n) :
    ofLittleEndian (littleEndian n x) = x := by
  induction n generalizing x with
  | zero =>
      rw [Nat.pow_zero] at h
      simp only [littleEndian, ofLittleEndian]
      omega
  | succ n ih =>
      have hhigh : x / 256 < 256 ^ n := Nat.div_lt_of_lt_mul (by rwa [Nat.pow_succ'] at h)
      have hlow : (UInt8.ofNat x).toNat = x % 256 := by simp
      rw [littleEndian, ofLittleEndian, ih hhigh, hlow]
      omega

theorem ofBigEndian_bigEndian {n x : ℕ} (h : x < 256 ^ n) : ofBigEndian (bigEndian n x) = x := by
  rw [ofBigEndian, bigEndian, List.reverse_reverse, ofLittleEndian_littleEndian h]

/-- Bytes are read back from the number that they stand for. -/
theorem littleEndian_ofLittleEndian {bytes : List UInt8} (h : bytes.length = n) :
    littleEndian n (ofLittleEndian bytes) = bytes := by
  induction n generalizing bytes with
  | zero =>
      rw [List.length_eq_zero_iff.mp h]
      rfl
  | succ n ih =>
      obtain ⟨byte, rest, rfl⟩ := List.exists_cons_of_length_eq_add_one h
      have hlt := byte.toNat_lt
      have hdiv : (byte.toNat + 256 * ofLittleEndian rest) / 256 = ofLittleEndian rest := by omega
      have hbyte : UInt8.ofNat (byte.toNat + 256 * ofLittleEndian rest) = byte := by
        rw [← UInt8.toNat_inj, UInt8.toNat_ofNat']
        omega
      rw [ofLittleEndian, littleEndian, hdiv, hbyte, ih (Nat.succ.inj h)]

theorem bigEndian_ofBigEndian {bytes : List UInt8} (h : bytes.length = n) :
    bigEndian n (ofBigEndian bytes) = bytes := by
  rw [bigEndian, ofBigEndian, littleEndian_ofLittleEndian (by rw [List.length_reverse, h]),
    List.reverse_reverse]

theorem ofLittleEndian_lt (bytes : List UInt8) : ofLittleEndian bytes < 256 ^ bytes.length := by
  induction bytes with
  | nil => exact Nat.one_pos
  | cons byte bytes ih =>
      have hlt := byte.toNat_lt
      rw [List.length_cons, Nat.pow_succ', ofLittleEndian]
      omega

/-- Numbers that fit are told apart by their bytes. -/
theorem littleEndian_injective {n x y : ℕ} (hx : x < 256 ^ n) (hy : y < 256 ^ n)
    (h : littleEndian n x = littleEndian n y) : x = y := by
  rw [← ofLittleEndian_littleEndian hx, h, ofLittleEndian_littleEndian hy]

theorem bigEndian_injective {n x y : ℕ} (hx : x < 256 ^ n) (hy : y < 256 ^ n)
    (h : bigEndian n x = bigEndian n y) : x = y :=
  littleEndian_injective hx hy (List.reverse_inj.mp h)

/-- A bit vector is read back from its bytes. -/
theorem ofNat_ofBigEndian {w n : ℕ} (hw : w = 8 * n) (v : BitVec w) :
    BitVec.ofNat w (ofBigEndian (bigEndian n v.toNat)) = v := by
  subst hw
  have hlt := v.isLt
  rw [Nat.pow_mul] at hlt
  rw [ofBigEndian_bigEndian hlt, BitVec.ofNat_toNat, BitVec.setWidth_eq]

/-! ## Reading from the front -/

/-- The first bytes of the input and what follows them. -/
def splitAt? (n : ℕ) (input : List UInt8) : Option (List UInt8 × List UInt8) :=
  if n ≤ input.length then some (input.take n, input.drop n) else none

theorem splitAt?_append (content rest : List UInt8) :
    splitAt? content.length (content ++ rest) = some (content, rest) := by
  rw [splitAt?, if_pos (by simp), List.take_left, List.drop_left]

theorem splitAt?_eq_some {input content rest : List UInt8} :
    splitAt? n input = some (content, rest) ↔ content.length = n ∧ input = content ++ rest := by
  constructor
  · intro h
    obtain ⟨hle, heq⟩ := Option.ite_none_right_eq_some.mp h
    obtain ⟨rfl, rfl⟩ := Prod.mk.inj (Option.some.inj heq)
    exact ⟨List.length_take_of_le hle, (List.take_append_drop n input).symm⟩
  · rintro ⟨rfl, rfl⟩
    exact splitAt?_append content rest

end Cksol
