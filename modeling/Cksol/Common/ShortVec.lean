import Cksol.Common.Bytes

/-! # Vectors behind a compact length

A length is written in groups of seven bits, least significant first, with the high bit set on all
but the last byte; a vector is its length and then its elements.
-/

namespace Cksol

namespace ShortVec

def compact (n : ℕ) : List UInt8 :=
  if n < 128 then [UInt8.ofNat n] else UInt8.ofNat (n % 128 + 128) :: compact (n / 128)

def readCompact : List UInt8 → Option (ℕ × List UInt8)
  | [] => none
  | byte :: input =>
      if byte.toNat < 128 then some (byte.toNat, input)
      else do
        let (high, rest) ← readCompact input
        return (byte.toNat - 128 + 128 * high, rest)

theorem readCompact_compact (n : ℕ) (rest : List UInt8) :
    readCompact (compact n ++ rest) = some (n, rest) := by
  induction n using compact.induct with
  | case1 n hsmall =>
      have hbyte : (UInt8.ofNat n).toNat = n := by
        rw [UInt8.toNat_ofNat']
        omega
      rw [compact, if_pos hsmall, List.singleton_append, readCompact, hbyte, if_pos hsmall]
  | case2 n hlarge ih =>
      have hbyte : (UInt8.ofNat (n % 128 + 128)).toNat = n % 128 + 128 := by
        rw [UInt8.toNat_ofNat']
        omega
      have hsum : n % 128 + 128 - 128 + 128 * (n / 128) = n := by omega
      rw [compact, if_neg hlarge, List.cons_append, readCompact, hbyte, if_neg (by omega)]
      simp only [ih, Option.bind_eq_bind, Option.bind_some, hsum]
      rfl

variable {α : Type} (write : α → List UInt8) (read : List UInt8 → Option (α × List UInt8))

def writeVec (l : List α) : List UInt8 :=
  compact l.length ++ l.flatMap write

def readMany : ℕ → List UInt8 → Option (List α × List UInt8)
  | 0, input => some ([], input)
  | n + 1, input => do
      let (v, input) ← read input
      let (l, rest) ← readMany n input
      return (v :: l, rest)

def readVec (input : List UInt8) : Option (List α × List UInt8) := do
  let (n, input) ← readCompact input
  readMany read n input

variable {write} {read}

theorem readMany_flatMap {l : List α}
    (h : ∀ v ∈ l, ∀ rest, read (write v ++ rest) = some (v, rest)) (rest : List UInt8) :
    readMany read l.length (l.flatMap write ++ rest) = some (l, rest) := by
  induction l with
  | nil => rfl
  | cons v l ih =>
      rw [List.length_cons, List.flatMap_cons, List.append_assoc, readMany, h v List.mem_cons_self]
      simp only [Option.bind_eq_bind, Option.bind_some,
        ih fun v hv => h v (List.mem_cons_of_mem _ hv)]
      rfl

/-- A vector whose elements are read back is read back. -/
theorem readVec_writeVec {l : List α}
    (h : ∀ v ∈ l, ∀ rest, read (write v ++ rest) = some (v, rest)) (rest : List UInt8) :
    readVec read (writeVec write l ++ rest) = some (l, rest) := by
  rw [readVec, writeVec, List.append_assoc, readCompact_compact]
  exact readMany_flatMap h rest

end ShortVec

end Cksol
