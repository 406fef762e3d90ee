import Cksol.Common.Cbor
import Cksol.Common.Fallible

/-! # Codecs by index

A record is written as the array of its fields, each at its index, and a variant of an enumeration as
its index with the record of its fields. An absent optional field is written as null, or left out
where no other field follows; a reader takes a field that is null or left out as absent, and ignores
what comes after the fields it knows.
-/

namespace Cksol

namespace Cbor

/-- Why an item is not the encoding of a value. -/
inductive DecodeError where
  | endOfInput
  | typeMismatch
  | missingValue (index : ℕ)
  | unknownVariant (index : ℕ)
  | message (text : String)
deriving DecidableEq

/-- How values of a type are written as items and read back. -/
structure Codec (α : Type) where
  encode : α → Item
  decode : Item → Except DecodeError α

variable {α : Type}

namespace Codec

/-- Values that fit are decoded from their encoding, which can be told from an absent value and is
within the bounds of the format. -/
structure Lawful (codec : Codec α) (Fits : α → Prop) : Prop where
  ne_null : ∀ v, codec.encode v ≠ .null
  decode_encode : ∀ v, Fits v → codec.decode (codec.encode v) = .ok v
  fits : ∀ v, Fits v → (codec.encode v).Fits

/-! ## Leaves -/

def nat : Codec ℕ where
  encode n := .uint n
  decode
    | .uint n => .ok n
    | _ => .error .typeMismatch

theorem lawful_nat : nat.Lawful (· < 2 ^ 64) :=
  ⟨nofun, fun _ _ => rfl, fun _ h => h⟩

def uint64 : Codec UInt64 where
  encode v := .uint v.toNat
  decode
    | .uint n => .ok (UInt64.ofNat n)
    | _ => .error .typeMismatch

theorem lawful_uint64 : uint64.Lawful fun _ => True :=
  ⟨nofun, fun _ _ => congrArg Except.ok UInt64.ofNat_toNat, fun v _ => v.toNat_lt⟩

def text : Codec String where
  encode content := .text content
  decode
    | .text content => .ok content
    | _ => .error .typeMismatch

theorem lawful_text : text.Lawful fun content => (utf8 content).length < 2 ^ 64 :=
  ⟨nofun, fun _ _ => rfl, fun _ h => h⟩

/-- Values that are converted to byte strings and back. -/
def viaBytes (toBytes : α → List UInt8) (ofBytes : List UInt8 → Except DecodeError α) : Codec α where
  encode v := .bytes (toBytes v)
  decode
    | .bytes content => ofBytes content
    | _ => .error .typeMismatch

theorem lawful_viaBytes {toBytes : α → List UInt8} {ofBytes : List UInt8 → Except DecodeError α}
    {Fits : α → Prop} (hback : ∀ v, Fits v → ofBytes (toBytes v) = .ok v)
    (hlength : ∀ v, Fits v → (toBytes v).length < 2 ^ 64) :
    (viaBytes toBytes ofBytes).Lawful Fits :=
  ⟨nofun, hback, hlength⟩

/-! ## Lists -/

theorem allFit_iff {items : List Item} : AllFit items ↔ ∀ item ∈ items, item.Fits := by
  induction items with
  | nil => simp [AllFit]
  | cons item items ih => simp [AllFit, ih]

def list (codec : Codec α) : Codec (List α) where
  encode l := .array true (l.map codec.encode)
  decode
    | .array _ items => items.mapM codec.decode
    | _ => .error .typeMismatch

/-- A list that is read from an array with a known length only. -/
def definiteList (codec : Codec α) : Codec (List α) where
  encode l := .array true (l.map codec.encode)
  decode
    | .array true items => items.mapM codec.decode
    | .array false _ => .error (.message "expected definite array")
    | _ => .error .typeMismatch

section List

variable {codec : Codec α} {Fits : α → Prop}

theorem mapM_decode (h : codec.Lawful Fits) {l : List α} (hfits : ∀ v ∈ l, Fits v) :
    (l.map codec.encode).mapM codec.decode = .ok l := by
  have hdecode := mapM_eq_ok_map (f := codec.decode ∘ codec.encode) (g := id) fun v hv =>
    h.decode_encode v (hfits v hv)
  rw [List.mapM_map, hdecode, List.map_id]

theorem fits_array (h : codec.Lawful Fits) {l : List α} (hlength : l.length < 2 ^ 64)
    (hfits : ∀ v ∈ l, Fits v) : (Item.array true (l.map codec.encode)).Fits := by
  refine ⟨by rwa [List.length_map], allFit_iff.mpr fun item hitem => ?_⟩
  obtain ⟨v, hv, rfl⟩ := List.mem_map.mp hitem
  exact h.fits v (hfits v hv)

theorem lawful_list (h : codec.Lawful Fits) :
    (list codec).Lawful fun l => l.length < 2 ^ 64 ∧ ∀ v ∈ l, Fits v :=
  ⟨nofun, fun _ hl => mapM_decode h hl.2, fun _ hl => fits_array h hl.1 hl.2⟩

theorem lawful_definiteList (h : codec.Lawful Fits) :
    (definiteList codec).Lawful fun l => l.length < 2 ^ 64 ∧ ∀ v ∈ l, Fits v :=
  ⟨nofun, fun _ hl => mapM_decode h hl.2, fun _ hl => fits_array h hl.1 hl.2⟩

end List

end Codec

/-! ## Records -/

/-- The item at an index, unless it is null or left out. -/
def present (fields : List Item) (i : ℕ) : Option Item :=
  match fields[i]? with
  | some .null => none
  | item => item

/-- A way to write fields: nulls may be left out as long as every other field stays at its index. -/
structure FieldWriter where
  write : List Item → List Item
  sublist : ∀ fields, (write fields).Sublist fields
  present_write : ∀ fields i, present (write fields) i = present fields i

/-- How the fields of records and those of the variants of an enumeration are written. -/
class Omission where
  record : FieldWriter
  variant : FieldWriter

def required (codec : Codec α) (fields : List Item) (i : ℕ) : Except DecodeError α :=
  match present fields i with
  | some item => codec.decode item
  | none => .error (.missingValue i)

def optional (codec : Codec α) (fields : List Item) (i : ℕ) : Except DecodeError (Option α) :=
  match present fields i with
  | some item => (codec.decode item).map some
  | none => .ok none

def optionalItem (codec : Codec α) : Option α → Item
  | none => .null
  | some v => codec.encode v

theorem present_of_ne_null {fields : List Item} {i : ℕ} {item : Item} (h : fields[i]? = some item)
    (hne : item ≠ .null) : present fields i = some item := by
  rw [present, h]
  cases item with
  | null => exact absurd rfl hne
  | _ => rfl

theorem present_take (fields : List Item) (n i : ℕ) :
    present (fields.take n) i = if i < n then present fields i else none := by
  unfold present
  rw [List.getElem?_take]
  by_cases h : i < n
  · rw [if_pos h, if_pos h]
  · rw [if_neg h, if_neg h]

section Fields

variable {codec : Codec α} {Fits : α → Prop} {fields items : List Item} {i : ℕ}

/-- A field that is written is read. -/
theorem required_eq_ok (h : codec.Lawful Fits) (hitems : ∀ i, present items i = present fields i)
    {v : α} (hfield : fields[i]? = some (codec.encode v)) (hfits : Fits v) :
    required codec items i = .ok v := by
  rw [required, hitems, present_of_ne_null hfield (h.ne_null v)]
  exact h.decode_encode v hfits

/-- A field that is written or left out is read. -/
theorem optional_eq_ok (h : codec.Lawful Fits) (hitems : ∀ i, present items i = present fields i)
    {v : Option α} (hfield : fields[i]? = some (optionalItem codec v))
    (hfits : ∀ a, v = some a → Fits a) : optional codec items i = .ok v := by
  rw [optional, hitems]
  cases v with
  | none =>
      rw [present, hfield]
      rfl
  | some a =>
      rw [present_of_ne_null hfield (h.ne_null a)]
      exact map_eq_ok.mpr ⟨a, h.decode_encode a (hfits a rfl), rfl⟩

theorem fits_optionalItem (h : codec.Lawful Fits) {v : Option α} (hfits : ∀ a, v = some a → Fits a) :
    (optionalItem codec v).Fits := by
  cases v with
  | none => trivial
  | some a => exact h.fits a (hfits a rfl)

theorem fits_sublist {definite definite' : Bool} (hsublist : items.Sublist fields)
    (h : (Item.array definite fields).Fits) : (Item.array definite' items).Fits :=
  ⟨Nat.lt_of_le_of_lt hsublist.length_le h.1, Codec.allFit_iff.mpr fun item hitem =>
    Codec.allFit_iff.mp h.2 item (hsublist.subset hitem)⟩

end Fields

namespace Codec

variable [Omission]

/-- A record, from its fields in the order of their indices. -/
def record (encodeFields : α → List Item) (decodeFields : List Item → Except DecodeError α) :
    Codec α where
  encode v := .array true (Omission.record.write (encodeFields v))
  decode
    | .array _ fields => decodeFields fields
    | _ => .error .typeMismatch

theorem lawful_record {encodeFields : α → List Item}
    {decodeFields : List Item → Except DecodeError α} {Fits : α → Prop}
    (hdecode : ∀ v, Fits v → ∀ items, (∀ i, present items i = present (encodeFields v) i) →
      decodeFields items = .ok v)
    (hfits : ∀ v, Fits v → (Item.array true (encodeFields v)).Fits) :
    (record encodeFields decodeFields).Lawful Fits where
  ne_null := nofun
  decode_encode v hv := hdecode v hv _ (Omission.record.present_write _)
  fits v hv := fits_sublist (Omission.record.sublist _) (hfits v hv)

/-- An enumeration: a variant is its index and the record of its fields. -/
def enum (variantIndex : α → ℕ) (encodeFields : α → List Item)
    (decodeFields : ℕ → List Item → Except DecodeError α) : Codec α where
  encode v := .array true [.uint (variantIndex v), .array true (Omission.variant.write (encodeFields v))]
  decode
    | .array true [.uint index, .array _ fields] => decodeFields index fields
    | _ => .error .typeMismatch

theorem lawful_enum {variantIndex : α → ℕ} {encodeFields : α → List Item}
    {decodeFields : ℕ → List Item → Except DecodeError α} {Fits : α → Prop}
    (hindex : ∀ v, variantIndex v < 2 ^ 64)
    (hdecode : ∀ v, Fits v → ∀ items, (∀ i, present items i = present (encodeFields v) i) →
      decodeFields (variantIndex v) items = .ok v)
    (hfits : ∀ v, Fits v → (Item.array true (encodeFields v)).Fits) :
    (enum variantIndex encodeFields decodeFields).Lawful Fits where
  ne_null := nofun
  decode_encode v hv := hdecode v hv _ (Omission.variant.present_write _)
  fits v hv :=
    ⟨show 2 < 2 ^ 64 by decide, hindex v, fits_sublist (Omission.variant.sublist _) (hfits v hv),
      trivial⟩

end Codec

/-- Without a null there is nothing to leave out. -/
theorem FieldWriter.write_eq_self (writer : FieldWriter) {fields : List Item}
    (h : ∀ item ∈ fields, item ≠ .null) : writer.write fields = fields := by
  refine (writer.sublist fields).eq_of_length_le ?_
  rcases fields.eq_nil_or_concat with rfl | ⟨init, last, rfl⟩
  · exact Nat.zero_le _
  · rw [List.concat_eq_append] at h ⊢
    have hfield : present (init ++ [last]) init.length = some last :=
      present_of_ne_null (by simp) (h last (by simp))
    by_contra hshort
    rw [List.length_append, List.length_singleton, Nat.not_le, Nat.lt_succ_iff] at hshort
    -- the last field is still at its index
    rw [← writer.present_write, present, List.getElem?_eq_none hshort] at hfield
    cases hfield

/-! ## Leaving out the last fields -/

/-- The fields up to the last one that is not null. -/
def trimNulls : List Item → List Item
  | [] => []
  | item :: items =>
      match item, trimNulls items with
      | .null, [] => []
      | item, items => item :: items

/-- A field is left out only if it is null and nothing follows. -/
theorem trimNulls_cons (item : Item) (items : List Item) :
    trimNulls (item :: items) = item :: trimNulls items ∨
      item = .null ∧ trimNulls items = [] ∧ trimNulls (item :: items) = [] := by
  cases item with
  | null =>
      cases hrest : trimNulls items with
      | nil => exact .inr ⟨rfl, rfl, by simp [trimNulls, hrest]⟩
      | cons => exact .inl (by simp [trimNulls, hrest])
  | _ => exact .inl rfl

theorem trimNulls_sublist (fields : List Item) : (trimNulls fields).Sublist fields := by
  induction fields with
  | nil => exact .slnil
  | cons item items ih =>
      obtain h | ⟨-, -, h⟩ := trimNulls_cons item items <;> rw [h]
      · exact ih.cons_cons item
      · exact List.nil_sublist _

theorem present_trimNulls (fields : List Item) (i : ℕ) :
    present (trimNulls fields) i = present fields i := by
  induction fields generalizing i with
  | nil => rfl
  | cons item items ih =>
      obtain h | ⟨rfl, hnil, h⟩ := trimNulls_cons item items <;> rw [h]
      · cases i with
        | zero => rfl
        | succ i => exact ih i
      · cases i with
        | zero => rfl
        | succ i => exact (congrArg (present · i) hnil).symm.trans (ih i)

/-- The derived codecs leave out the last fields of a record, and write every field of a variant. -/
@[reducible] def Omission.derived : Omission where
  record := ⟨trimNulls, trimNulls_sublist, present_trimNulls⟩
  variant := ⟨id, fun _ => .refl _, fun _ _ => rfl⟩

/-! ## Bytes -/

namespace Codec

def toBytes (codec : Codec α) (v : α) : List UInt8 :=
  (codec.encode v).serialize

/-- Decodes the item in front of the input. -/
def fromBytes (codec : Codec α) (input : List UInt8) : Except DecodeError α := do
  let (item, _) ← orPanic (read input) .endOfInput
  codec.decode item

/-- What was written is decoded, whatever follows. -/
theorem fromBytes_toBytes {codec : Codec α} {Fits : α → Prop} (h : codec.Lawful Fits) {v : α}
    (hfits : Fits v) (rest : List UInt8) : codec.fromBytes (codec.toBytes v ++ rest) = .ok v := by
  rw [fromBytes, toBytes, read_serialize (h.fits v hfits)]
  exact h.decode_encode v hfits

theorem toBytes_injective {codec : Codec α} {Fits : α → Prop} (h : codec.Lawful Fits) {v v' : α}
    (hfits : Fits v) (hfits' : Fits v') (heq : codec.toBytes v = codec.toBytes v') : v = v' := by
  have hv := fromBytes_toBytes h hfits []
  rw [heq, fromBytes_toBytes h hfits' []] at hv
  exact (Except.ok.inj hv).symm

end Codec

end Cbor

end Cksol
