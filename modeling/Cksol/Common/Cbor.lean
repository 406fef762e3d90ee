import Cksol.Common.Bytes

/-! # CBOR

The data items of CBOR that consist of unsigned integers, byte strings, texts, arrays and null, their
bytes with heads of the least length, and a reader that takes one item from the front of its input.
-/

namespace Cksol

namespace Cbor

/-! ## Heads -/

/-- The head of an item: its major type, with its argument in as few bytes as possible. -/
def head (major n : ℕ) : List UInt8 :=
  if n < 24 then [UInt8.ofNat (32 * major + n)]
  else if n < 256 then UInt8.ofNat (32 * major + 24) :: bigEndian 1 n
  else if n < 65536 then UInt8.ofNat (32 * major + 25) :: bigEndian 2 n
  else if n < 4294967296 then UInt8.ofNat (32 * major + 26) :: bigEndian 4 n
  else UInt8.ofNat (32 * major + 27) :: bigEndian 8 n

def readArgument (width : ℕ) (input : List UInt8) : Option (ℕ × List UInt8) :=
  (splitAt? width input).map fun parts => (ofBigEndian parts.1, parts.2)

/-- The width of the argument that follows the first byte, for the low five bits of that byte. -/
def argumentWidth (info : ℕ) : Option ℕ :=
  match info with
  | 24 => some 1
  | 25 => some 2
  | 26 => some 4
  | 27 => some 8
  | _ => none

/-- The major type and the argument of the head in front of the input. -/
def readHead : List UInt8 → Option (ℕ × ℕ × List UInt8)
  | [] => none
  | first :: rest =>
      let major := first.toNat / 32
      let info := first.toNat % 32
      if info < 24 then some (major, info, rest)
      else do
        let width ← argumentWidth info
        let (n, rest) ← readArgument width rest
        return (major, n, rest)

theorem readArgument_bigEndian {width n : ℕ} (h : n < 256 ^ width) (rest : List UInt8) :
    readArgument width (bigEndian width n ++ rest) = some (n, rest) := by
  have hsplit := splitAt?_append (bigEndian width n) rest
  rw [length_bigEndian] at hsplit
  rw [readArgument, hsplit, Option.map_some, ofBigEndian_bigEndian h]

/-- A head with a longer argument is read back. -/
theorem readHead_cons {major info width n : ℕ} (hmajor : major < 8) (hinfo : info < 32)
    (hlong : 24 ≤ info) (hwidth : argumentWidth info = some width) (h : n < 256 ^ width)
    (rest : List UInt8) :
    readHead (UInt8.ofNat (32 * major + info) :: (bigEndian width n ++ rest)) =
      some (major, n, rest) := by
  have hfirst : (UInt8.ofNat (32 * major + info)).toNat = 32 * major + info := by
    rw [UInt8.toNat_ofNat']
    omega
  have hhigh : (32 * major + info) / 32 = major := by omega
  have hlow : (32 * major + info) % 32 = info := by omega
  simp only [readHead, hfirst, hhigh, hlow]
  rw [if_neg (by omega), hwidth, Option.bind_eq_bind, Option.bind_some, readArgument_bigEndian h]
  rfl

theorem readHead_head {major n : ℕ} (hmajor : major < 8) (h : n < 2 ^ 64) (rest : List UInt8) :
    readHead (head major n ++ rest) = some (major, n, rest) := by
  unfold head
  split
  case isTrue hsmall =>
    have hfirst : (UInt8.ofNat (32 * major + n)).toNat = 32 * major + n := by
      rw [UInt8.toNat_ofNat']
      omega
    have hhigh : (32 * major + n) / 32 = major := by omega
    have hlow : (32 * major + n) % 32 = n := by omega
    simp only [List.singleton_append, readHead, hfirst, hhigh, hlow]
    rw [if_pos hsmall]
  case isFalse =>
    split
    case isTrue h1 => exact readHead_cons hmajor (by omega) (by omega) rfl (by simpa using h1) rest
    case isFalse =>
      split
      case isTrue h2 => exact readHead_cons hmajor (by omega) (by omega) rfl (by simpa using h2) rest
      case isFalse =>
        split
        case isTrue h4 => exact readHead_cons hmajor (by omega) (by omega) rfl (by simpa using h4) rest
        case isFalse => exact readHead_cons hmajor (by omega) (by omega) rfl (by simpa using h) rest

/-- A head starts with a byte below those of the simple values, and is no array of unknown length. -/
theorem exists_head_eq_cons {major : ℕ} (n : ℕ) (hmajor : major < 5) :
    ∃ first tail, head major n = first :: tail ∧ first.toNat < 156 := by
  have hfirst {info : ℕ} (hinfo : info < 28) : (UInt8.ofNat (32 * major + info)).toNat < 156 := by
    rw [UInt8.toNat_ofNat']
    omega
  unfold head
  split
  case isTrue hsmall => exact ⟨_, _, rfl, hfirst (by omega)⟩
  case isFalse =>
    split
    · exact ⟨_, _, rfl, hfirst (by omega)⟩
    · split
      · exact ⟨_, _, rfl, hfirst (by omega)⟩
      · split <;> exact ⟨_, _, rfl, hfirst (by omega)⟩

theorem length_head_pos {major : ℕ} (hmajor : major < 5) (n : ℕ) : 0 < (head major n).length := by
  obtain ⟨first, tail, heq, -⟩ := exists_head_eq_cons n hmajor
  rw [heq]
  exact Nat.succ_pos _

/-! ## Items -/

/-- A data item; an array is written with its length in front, or with a break after its items. -/
inductive Item where
  | uint (n : ℕ)
  | bytes (content : List UInt8)
  | text (content : String)
  | array (definite : Bool) (items : List Item)
  | null

/-- The bytes of a text. -/
def utf8 (content : String) : List UInt8 :=
  content.toUTF8.data.toList

def ofUtf8 (content : List UInt8) : Option String :=
  String.fromUTF8? ⟨content.toArray⟩

@[simp] theorem ofUtf8_utf8 (content : String) : ofUtf8 (utf8 content) = some content := by
  rw [ofUtf8, utf8, Array.toArray_toList]
  exact dif_pos content.isValidUTF8

mutual

def Item.serialize : Item → List UInt8
  | .uint n => head 0 n
  | .bytes content => head 2 content.length ++ content
  | .text content => head 3 (utf8 content).length ++ utf8 content
  | .array true items => head 4 items.length ++ serializeAll items
  | .array false items => 0x9f :: (serializeAll items ++ [0xff])
  | .null => [0xf6]

def serializeAll : List Item → List UInt8
  | [] => []
  | item :: items => item.serialize ++ serializeAll items

end

/-- The item that a head announces, with a reader for the items of an array. -/
def readContent (readItems : ℕ → List UInt8 → Option (List Item × List UInt8)) (major n : ℕ)
    (rest : List UInt8) : Option (Item × List UInt8) :=
  match major with
  | 0 => some (.uint n, rest)
  | 2 => do
      let (content, rest) ← splitAt? n rest
      return (.bytes content, rest)
  | 3 => do
      let (content, rest) ← splitAt? n rest
      let text ← ofUtf8 content
      return (.text text, rest)
  | 4 => do
      let (items, rest) ← readItems n rest
      return (.array true items, rest)
  | _ => none

mutual

/-- The item in front of the input; the fuel bounds the depth of the recursion. -/
def readItem : ℕ → List UInt8 → Option (Item × List UInt8)
  | 0, _ => none
  | _, 0xf6 :: rest => some (.null, rest)
  | fuel + 1, 0x9f :: rest => do
      let (items, rest) ← readUntilBreak fuel rest
      return (.array false items, rest)
  | fuel + 1, input => do
      let (major, n, rest) ← readHead input
      readContent (readItems fuel) major n rest

def readItems : ℕ → ℕ → List UInt8 → Option (List Item × List UInt8)
  | _, 0, input => some ([], input)
  | 0, _ + 1, _ => none
  | fuel + 1, count + 1, input => do
      let (item, rest) ← readItem fuel input
      let (items, rest) ← readItems fuel count rest
      return (item :: items, rest)

def readUntilBreak : ℕ → List UInt8 → Option (List Item × List UInt8)
  | 0, _ => none
  | _, 0xff :: rest => some ([], rest)
  | fuel + 1, input => do
      let (item, rest) ← readItem fuel input
      let (items, rest) ← readUntilBreak fuel rest
      return (item :: items, rest)

end

/-- The item in front of the input. -/
def read (input : List UInt8) : Option (Item × List UInt8) :=
  readItem (2 * input.length) input

/-! ## Reading back -/

mutual

/-- The numbers and lengths of the item have at most 64 bits. -/
def Item.Fits : Item → Prop
  | .uint n => n < 2 ^ 64
  | .bytes content => content.length < 2 ^ 64
  | .text content => (utf8 content).length < 2 ^ 64
  | .array _ items => items.length < 2 ^ 64 ∧ AllFit items
  | .null => True

def AllFit : List Item → Prop
  | [] => True
  | item :: items => item.Fits ∧ AllFit items

end

/-- An item with a head is read by its major type. -/
theorem readItem_head {major n : ℕ} (hmajor : major < 5) (h : n < 2 ^ 64) (fuel : ℕ)
    (rest : List UInt8) :
    readItem (fuel + 1) (head major n ++ rest) = readContent (readItems fuel) major n rest := by
  obtain ⟨first, tail, hhead, hfirst⟩ := exists_head_eq_cons n hmajor
  have hread := readHead_head (show major < 8 by omega) h rest
  rw [hhead, List.cons_append] at hread ⊢
  rw [readItem]
  · rw [hread]
    rfl
  · rintro _ ⟨⟩
    simp at hfirst
  · rintro _ ⟨⟩
    simp at hfirst

/-- No item starts with the byte of a break. -/
theorem exists_serialize_eq_cons (item : Item) :
    ∃ first tail, item.serialize = first :: tail ∧ first ≠ 0xff := by
  have hhead {major : ℕ} (hmajor : major < 5) (n : ℕ) (rest : List UInt8) :
      ∃ first tail, head major n ++ rest = first :: tail ∧ first ≠ 0xff := by
    obtain ⟨first, tail, heq, hfirst⟩ := exists_head_eq_cons n hmajor
    refine ⟨first, tail ++ rest, by rw [heq, List.cons_append], ?_⟩
    rintro rfl
    simp at hfirst
  cases item with
  | uint n => simpa [Item.serialize] using hhead (show 0 < 5 by omega) n []
  | bytes content => exact hhead (by omega) _ _
  | text content => exact hhead (by omega) _ _
  | array definite items =>
      cases definite with
      | true => exact hhead (by omega) _ _
      | false => exact ⟨_, _, rfl, by decide⟩
  | null => exact ⟨_, _, rfl, by decide⟩

theorem length_serialize_pos (item : Item) : 0 < item.serialize.length := by
  obtain ⟨first, tail, heq, -⟩ := exists_serialize_eq_cons item
  rw [heq]
  exact Nat.succ_pos _

mutual

theorem readItem_serialize (item : Item) (hfits : item.Fits) (fuel : ℕ) (rest : List UInt8)
    (hfuel : 2 * item.serialize.length ≤ fuel + 1) :
    readItem fuel (item.serialize ++ rest) = some (item, rest) := by
  have hpos := length_serialize_pos item
  obtain ⟨fuel, rfl⟩ : ∃ n, fuel = n + 1 := ⟨fuel - 1, by omega⟩
  match item with
  | .uint n => exact readItem_head (by omega) hfits fuel rest
  | .bytes content =>
      rw [Item.serialize, List.append_assoc, readItem_head (by omega) hfits, readContent,
        splitAt?_append]
      rfl
  | .text content =>
      rw [Item.serialize, List.append_assoc, readItem_head (by omega) hfits, readContent,
        splitAt?_append]
      simp only [Option.bind_eq_bind, Option.bind_some, ofUtf8_utf8]
      rfl
  | .array true items =>
      have hhead := length_head_pos (show 4 < 5 by omega) items.length
      rw [Item.serialize, List.length_append] at hfuel
      rw [Item.serialize, List.append_assoc, readItem_head (by omega) hfits.1, readContent,
        readItems_serializeAll items hfits.2 fuel rest (by omega)]
      rfl
  | .array false items =>
      rw [Item.serialize, List.length_cons, List.length_append, List.length_singleton] at hfuel
      rw [Item.serialize, List.cons_append, List.append_assoc, List.singleton_append, readItem,
        readUntilBreak_serializeAll items hfits.2 fuel rest (by omega)]
      rfl
  | .null => rfl

theorem readItems_serializeAll (items : List Item) (hfits : AllFit items) (fuel : ℕ)
    (rest : List UInt8) (hfuel : 2 * (serializeAll items).length ≤ fuel) :
    readItems fuel items.length (serializeAll items ++ rest) = some (items, rest) := by
  match items with
  | [] => rw [List.length_nil, readItems]; rfl
  | item :: items =>
      have hpos := length_serialize_pos item
      rw [serializeAll, List.length_append] at hfuel
      obtain ⟨fuel, rfl⟩ : ∃ n, fuel = n + 1 := ⟨fuel - 1, by omega⟩
      have hitem := readItem_serialize item hfits.1 fuel (serializeAll items ++ rest) (by omega)
      have hitems := readItems_serializeAll items hfits.2 fuel rest (by omega)
      rw [List.length_cons, serializeAll, List.append_assoc, readItems]
      simp only [Option.bind_eq_bind, Option.bind_some, hitem, hitems]
      rfl

theorem readUntilBreak_serializeAll (items : List Item) (hfits : AllFit items) (fuel : ℕ)
    (rest : List UInt8) (hfuel : 2 * (serializeAll items).length < fuel) :
    readUntilBreak fuel (serializeAll items ++ (0xff :: rest)) = some (items, rest) := by
  obtain ⟨fuel, rfl⟩ : ∃ n, fuel = n + 1 := ⟨fuel - 1, by omega⟩
  match items with
  | [] => rfl
  | item :: items =>
      have hpos := length_serialize_pos item
      rw [serializeAll, List.length_append] at hfuel
      obtain ⟨first, tail, heq, hbreak⟩ := exists_serialize_eq_cons item
      rw [serializeAll, List.append_assoc, readUntilBreak]
      · have hitem := readItem_serialize item hfits.1 fuel (serializeAll items ++ 0xff :: rest)
          (by omega)
        have hitems := readUntilBreak_serializeAll items hfits.2 fuel rest (by omega)
        simp only [Option.bind_eq_bind, Option.bind_some, hitem, hitems]
        rfl
      · rw [heq, List.cons_append]
        rintro _ ⟨⟩
        exact hbreak rfl

end

/-- What was written is read back, and nothing of what follows. -/
theorem read_serialize {item : Item} (hfits : item.Fits) (rest : List UInt8) :
    read (item.serialize ++ rest) = some (item, rest) := by
  refine readItem_serialize item hfits _ rest ?_
  rw [List.length_append]
  omega

end Cbor

end Cksol
