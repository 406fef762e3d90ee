import Cksol.Common.Bytes
import Cksol.Common.OrdMap
import Cksol.Solana.Sdk

/-! # A concrete Solana library

Message compilation, the two system instructions and base58 addresses as `solana-message`,
`solana-system-interface` and `solana-address` document them, so that runs of the model can be
evaluated. The instance satisfies the laws that the proofs rely on.
-/

namespace Cksol.Solana

open Std

variable {keys : OrdMap Address KeyMeta} {instructions : List Instruction} {a : Address}
  {payer : Option Address} {flags : KeyMeta}

/-! ## Compiled keys -/

/-- Whether a key signs and whether it is written. -/
abbrev KeyMeta := Bool × Bool

/-- Adds the flags to those the key already has. -/
def addKey (keys : OrdMap Address KeyMeta) (key : Address) (flags : KeyMeta) :
    OrdMap Address KeyMeta :=
  let old := (keys[key]?).getD (false, false)
  keys.insert key (old.1 || flags.1, old.2 || flags.2)

/-- The program of an instruction is only read; its accounts come with their own flags. -/
def addInstruction (keys : OrdMap Address KeyMeta) (instruction : Instruction) :
    OrdMap Address KeyMeta :=
  instruction.accounts.foldl (fun keys account => addKey keys account.pubkey
    (account.isSigner, account.isWritable)) (addKey keys instruction.programId (false, false))

/-- The keys of the instructions, with the flags of all their uses. -/
def compileKeys (instructions : List Instruction) : OrdMap Address KeyMeta :=
  instructions.foldl addInstruction ∅

/-- The keys other than the payer with the given flags, in address order. -/
def keysWith (keys : OrdMap Address KeyMeta) (payer : Option Address) (flags : KeyMeta) :
    List Address :=
  (keys.toList.filter fun entry => entry.2 = flags ∧ some entry.1 ≠ payer).map Prod.fst

/-- `Message::new_with_blockhash`: the payer, then the other signers, then the other keys, writable
keys before read-only ones. -/
def newWithBlockhash (instructions : List Instruction) (payer : Option Address)
    (blockhash : Hash) : Message :=
  let keys := compileKeys instructions
  let readonlySigners := keysWith keys payer (true, false)
  let readonlyNonSigners := keysWith keys payer (false, false)
  let signers := payer.toList ++ keysWith keys payer (true, true) ++ readonlySigners
  let accountKeys := signers ++ keysWith keys payer (false, true) ++ readonlyNonSigners
  { header := {
      numRequiredSignatures := signers.length
      numReadonlySignedAccounts := readonlySigners.length
      numReadonlyUnsignedAccounts := readonlyNonSigners.length }
    accountKeys
    recentBlockhash := blockhash
    instructions := instructions.map fun instruction => {
      programIdIndex := accountKeys.idxOf instruction.programId
      accounts := instruction.accounts.map fun account => accountKeys.idxOf account.pubkey
      data := instruction.data } }

/-! ## Sizes, instructions and addresses -/

/-- The bytes of a compact-u16 length. -/
def compactLen (n : ℕ) : ℕ :=
  if n < 128 then 1 else if n < 16_384 then 2 else 3

def serializedLen (message : Message) : ℕ :=
  3 + compactLen message.accountKeys.length + 32 * message.accountKeys.length + 32 +
    compactLen message.instructions.length +
    (message.instructions.map fun instruction =>
      1 + compactLen instruction.accounts.length + instruction.accounts.length +
        compactLen instruction.data.length + instruction.data.length).sum

def systemProgramId : Address := 0

/-- `SysvarRecentB1ockHashes11111111111111111111`. -/
def recentBlockhashesSysvar : Address :=
  0x6a7d517192c568ee08a845f73d29788cf035c3145b21ab344d8062ea9400000

/-- The 31 keys of `solana_sdk_ids` in the order the minter lists them, from the address lookup table
program to the sysvar owner. -/
def reservedAccountKeys : List Address :=
  [ 0x277a6af97339b7ac88d1892c90446f50002309266f62e53c118244982000000,
    0x2a8f6914e88a16e395ae128948ffa695693376818dd47435221f3c600000000,
    0x2a8f6914e88a16bbd2395855f6404d9b4f456b7821bb0145749428c00000000,
    0x2a8f6914e88a1b0e210153ef763ae2b00c2b93d16c124d2c0537a1004800000,
    0x306466fe5211732ffecadba72c39be7bc8ce5bbc5f7126b2c439b3a40000000,
    0x3064aa3002f74dcc86e43310f0c052af8c5da27f6104019a323efa000000000,
    0x37d46d67c93fbbe12f9428f838d40ff0570744927f48a64fcca704480000000,
    0x3c0a0cdcb06d2daefae82d16fee7acf61ec737b23481b21946a767000000000,
    0x512b4115151e37aad0a8bc5d3882e7b7fda4cf3d2c028c8cf83361800000000,
    0x4c6fc20f050ccf05584d7211c9f8cf59ec14785bb166a1e2830e81220000000,
    0x6920dec2fea71b5b723814d742da9031c83e75fdb795d568e75478020000000,
    0x6a1d817a502050b680791e6ce6db88e1e5b7150f61fc6790a4eb4d100000000,
    0x6a1d8179137542a983437bdfe2a7ab2557f535c8a78722b68a49dc000000000,
    0x0,
    0x761481d357474bb7c4d7624ebd3bdb3d8355e73d11043fc0da3538000000000,
    0x86375ace2aeea281a6b374d681ba76a53ccf638c07455936c05d06540000000,
    0x863ba8dd9c4c2fb174a05cba27e2a2cd623573d79e90b35b579fc0d00000000,
    0x6a7d51718c774c928566398691d5eb68b5eb8a39b4b6d5c73555b2100000000,
    0x6a7d51718dc3fee02a558bf83ce66e144422a1c34950b27c1869b5a9c000000,
    0x6a7d51718dc3fee02d3e47f0100f8b054f7942e60591e3f508719a805000000,
    0x6a7d51718e25a8d83503c251a7af07126fd7200df6fc4ed526a9c9000000000,
    0x6a7d517187bd16635dad40455fdc2c0c124c68f215675a5dbbacb5f08000000,
    0x6a7d5171906dde1cd3f947dcab4c8f4f4f51bad0f9813b800d289471fc00000,
    0x6a7d517192c568ee08a845f73d29788cf035c3145b21ab344d8062ea9400000,
    0x6a7d517192c5c51218cc94c3d4af17f58daee089ba1fd44e3dbd98a00000000,
    0x6a7d517192c6137cee092d9b6923ee1ccd61903fa82b8a16191578d80000000,
    0x6a7d517192f0aafc6f265e3fb77cc7ada82c529d0be3b136e2d005520000000,
    0x6a7d517192f0aafc875e2e184577c5069cfc84649e3eb92782f958d48000000,
    0x6a7d517193584d0feed9bb3431d13206be544281b57b8566cc5375ff4000000,
    0x58784bf148ba4282fb012574888a9f153a07dadf765c0455c9a970380000000,
    0x6a7d5171875f729c73d93408f216120067ed88c76e08c287fc1946000000000 ]

def transfer (source target : Address) (amount : Lamport) : Instruction where
  programId := systemProgramId
  accounts := [⟨source, true, true⟩, ⟨target, false, true⟩]
  data := [2, 0, 0, 0] ++ littleEndian 8 amount.toNat

def advanceNonceAccount (nonceAccount authority : Address) : Instruction where
  programId := systemProgramId
  accounts := [⟨nonceAccount, false, true⟩, ⟨recentBlockhashesSysvar, false, false⟩,
    ⟨authority, true, false⟩]
  data := [4, 0, 0, 0]

def base58Alphabet : List Char :=
  "123456789ABCDEFGHJKLMNPQRSTUVWXYZabcdefghijkmnopqrstuvwxyz".toList

/-- The number that base58 digits stand for. -/
def base58Value (digits : List Char) : Option ℕ :=
  digits.foldlM (fun value digit => do
    let index ← base58Alphabet.idxOf? digit
    return value * 58 + index) 0

/-- `Address::from_str`: a text of at most 44 bytes, whose leading ones are zero bytes, stands for 32
bytes. -/
def addressFromStr (text : String) : Except String Address :=
  let digits := text.toList
  if (digits.map Char.utf8Size).sum > 44 then .error "String is the wrong size"
  else match base58Value digits with
    | none => .error "Invalid Base58 string"
    | some value =>
        let zeros := (digits.takeWhile (· = '1')).length
        let bytes := if value = 0 then 0 else value.log2 / 8 + 1
        if zeros + bytes = 32 then .ok (BitVec.ofNat 256 value)
        else .error "String is the wrong size"

/-- The base58 digits of a number, least significant first. -/
def base58Digits : ℕ → ℕ → List Char
  | 0, _ => []
  | fuel + 1, value =>
      if value = 0 then [] else base58Alphabet.getD (value % 58) '1' :: base58Digits fuel (value / 58)

def addressToString (address : Address) : String :=
  let value := address.toNat
  let bytes := if value = 0 then 0 else value.log2 / 8 + 1
  String.ofList (List.replicate (32 - bytes) '1' ++ (base58Digits 44 value).reverse)

/-- The main key of the production minter, which is also its address. -/
def productionKey : PublicKey :=
  0xe6af20ad29a2cdcc8887f6d5f0572791aab4e09117279029fcc222ef9816faa9

def productionChainCode : ChainCode :=
  0x116d40910a026aac415ba4cf021c788f1fd3519e7593dad5df51efa812840d5d

/-- The key derivation of `ic-ed25519` for one account of the production minter, the one with the
owner `[9]` and the default subaccount. No property of other keys is used. -/
def deriveSubkey (publicKey : PublicKey) (chainCode : ChainCode) (path : DerivationPath) :
    PublicKey :=
  if publicKey = productionKey ∧ chainCode = productionChainCode ∧
      path = [[1], [9], List.replicate 32 0] then
    0x296b0f1969c7daad0b624b3dd76c6557763872bcffd3bbe06b89d689d4832cfd
  else 0

/-- The library as an instance of what the minter calls. -/
@[reducible] def sdk : SolanaSdk where
  newWithBlockhash := newWithBlockhash
  serializedLen := serializedLen
  signerKeys message := message.accountKeys.take message.header.numRequiredSignatures
  transfer := transfer
  advanceNonceAccount := advanceNonceAccount
  systemProgramId := systemProgramId
  isAdvanceNonceAccount data := data.take 4 = [4, 0, 0, 0]
  reservedAccountKeys := reservedAccountKeys
  addressFromStr := addressFromStr
  addressToString := addressToString
  deriveSubkey := deriveSubkey

example : addressFromStr "11111111111111111111111111111115" = .ok 4 := by decide

example : addressToString productionKey = "GXVewvv6HehcLFYCmwpqh5CrMjqN9zJ8rqzGq3HEt9Ax" := by
  decide +kernel

/-! ## Laws -/

theorem mem_addKey {key a : Address} : a ∈ addKey keys key flags ↔ key = a ∨ a ∈ keys :=
  OrdMap.mem_insert_iff

theorem mem_addAccounts {accounts : List AccountMeta} :
    a ∈ accounts.foldl (fun keys account => addKey keys account.pubkey
      (account.isSigner, account.isWritable)) keys ↔
      a ∈ accounts.map AccountMeta.pubkey ∨ a ∈ keys := by
  induction accounts generalizing keys with
  | nil => simp
  | cons account accounts ih =>
      rw [List.foldl_cons, ih, mem_addKey, List.map_cons, List.mem_cons]
      constructor
      · rintro (h | rfl | h)
        · exact .inl (.inr h)
        · exact .inl (.inl rfl)
        · exact .inr h
      · rintro ((rfl | h) | h)
        · exact .inr (.inl rfl)
        · exact .inl h
        · exact .inr (.inr h)

theorem mem_foldl_addInstruction :
    a ∈ instructions.foldl addInstruction keys ↔
      (∃ instruction ∈ instructions, a = instruction.programId ∨
        a ∈ instruction.accounts.map AccountMeta.pubkey) ∨ a ∈ keys := by
  induction instructions generalizing keys with
  | nil => simp
  | cons instruction instructions ih =>
      rw [List.foldl_cons, ih, addInstruction, mem_addAccounts, mem_addKey]
      simp only [List.mem_cons, exists_eq_or_imp, @eq_comm _ instruction.programId a]
      grind

theorem mem_keysWith : a ∈ keysWith keys payer flags ↔ keys[a]? = some flags ∧ some a ≠ payer := by
  simp only [keysWith, List.mem_map, List.mem_filter, OrdMap.mem_toList_iff, decide_eq_true_eq,
    Prod.exists, exists_and_right, exists_eq_right]
  constructor
  · rintro ⟨signs, written, hget, rfl, hpayer⟩
    exact ⟨hget, hpayer⟩
  · rintro ⟨hget, hpayer⟩
    exact ⟨flags.1, flags.2, hget, rfl, hpayer⟩

/-- Every key that an instruction uses is an account key of the message. -/
theorem mem_accountKeys {blockhash : Hash} (h : a ∈ compileKeys instructions) :
    a ∈ (newWithBlockhash instructions payer blockhash).accountKeys := by
  obtain ⟨⟨signs, written⟩, hflags⟩ := OrdMap.mem_iff_exists.mp h
  simp only [newWithBlockhash, List.mem_append, mem_keysWith, hflags, Option.mem_toList]
  by_cases hpayer : payer = some a
  · simp [hpayer]
  · cases signs <;> cases written <;> simp [Ne.symm hpayer]

theorem getElem?_idxOf {keys : List Address} (h : a ∈ keys) : keys[keys.idxOf a]? = some a := by
  rw [List.getElem?_eq_getElem (List.idxOf_lt_length_of_mem h), List.getElem_idxOf]

theorem resolves_newWithBlockhash (instructions : List Instruction) (payer : Option Address)
    (blockhash : Hash) :
    List.Forall₂ (Resolves (newWithBlockhash instructions payer blockhash).accountKeys) instructions
      (newWithBlockhash instructions payer blockhash).instructions := by
  have hkey : ∀ instruction ∈ instructions, ∀ a, a = instruction.programId ∨
      a ∈ instruction.accounts.map AccountMeta.pubkey →
      a ∈ (newWithBlockhash instructions payer blockhash).accountKeys :=
    fun instruction hmem a ha =>
      mem_accountKeys (mem_foldl_addInstruction.mpr (.inl ⟨instruction, hmem, ha⟩))
  refine List.forall₂_map_right_iff.mpr (List.forall₂_same.mpr fun instruction hmem => ?_)
  refine ⟨getElem?_idxOf (hkey _ hmem _ (.inl rfl)), ?_, rfl⟩
  simp only [List.map_map]
  refine List.map_congr_left fun account haccount => ?_
  exact getElem?_idxOf (hkey _ hmem _ (.inr (List.mem_map_of_mem haccount)))

/-- The key is among the given ones, as a signer. -/
def Signs (keys : OrdMap Address KeyMeta) (key : Address) : Prop :=
  ∃ written, keys[key]? = some (true, written)

theorem signs_addKey_iff {key a : Address} :
    Signs (addKey keys key flags) a ↔ Signs keys a ∨ (flags.1 ∧ key = a) := by
  simp only [Signs, addKey, OrdMap.getElem?_insert_eq]
  by_cases heq : key = a
  · subst heq
    obtain ⟨signs, written⟩ := flags
    cases hkey : keys[key]? with
    | none => cases signs <;> simp
    | some old =>
        obtain ⟨signs', written'⟩ := old
        cases signs' <;> simp
  · simp [heq]

theorem signs_addAccounts_iff {accounts : List AccountMeta} :
    Signs (accounts.foldl (fun keys account => addKey keys account.pubkey
      (account.isSigner, account.isWritable)) keys) a ↔
      Signs keys a ∨ ∃ account ∈ accounts, account.isSigner ∧ account.pubkey = a := by
  induction accounts generalizing keys with
  | nil => simp
  | cons account accounts ih =>
      rw [List.foldl_cons, ih, signs_addKey_iff, or_assoc, List.exists_mem_cons_iff]

theorem signs_foldl_addInstruction_iff :
    Signs (instructions.foldl addInstruction keys) a ↔
      Signs keys a ∨ ∃ instruction ∈ instructions, ∃ account ∈ instruction.accounts,
        account.isSigner ∧ account.pubkey = a := by
  induction instructions generalizing keys with
  | nil => simp
  | cons instruction instructions ih =>
      rw [List.foldl_cons, ih, addInstruction, signs_addAccounts_iff, signs_addKey_iff, or_assoc,
        List.exists_mem_cons_iff]
      simp

theorem signs_compileKeys_iff :
    Signs (compileKeys instructions) a ↔ ∃ instruction ∈ instructions,
      ∃ account ∈ instruction.accounts, account.isSigner ∧ account.pubkey = a := by
  rw [compileKeys, signs_foldl_addInstruction_iff, or_iff_right]
  rintro ⟨_, hempty⟩
  simp at hempty

/-- The header counts the payer and the other signers, which come first. -/
theorem take_accountKeys (instructions : List Instruction) (payer : Option Address)
    (blockhash : Hash) :
    (newWithBlockhash instructions payer blockhash).accountKeys.take
        (newWithBlockhash instructions payer blockhash).header.numRequiredSignatures =
      payer.toList ++ keysWith (compileKeys instructions) payer (true, true) ++
        keysWith (compileKeys instructions) payer (true, false) := by
  simp only [newWithBlockhash, List.append_assoc _ (keysWith _ _ (false, true)), List.take_left]

theorem mem_signers_iff {key : Address} :
    key ∈ payer.toList ++ keysWith (compileKeys instructions) payer (true, true) ++
        keysWith (compileKeys instructions) payer (true, false) ↔
      payer = some key ∨ ∃ instruction ∈ instructions, ∃ account ∈ instruction.accounts,
        account.isSigner ∧ account.pubkey = key := by
  rw [← signs_compileKeys_iff]
  simp only [List.mem_append, Option.mem_toList, mem_keysWith, Signs, Bool.exists_bool]
  grind

theorem lawful_sdk : @SolanaSdk.Lawful sdk :=
  letI := sdk
  { recentBlockhash_new := fun _ _ _ => rfl
    resolves_new := resolves_newWithBlockhash
    payer_first := fun _ _ _ => rfl
    advanceNonceAccount_programId := fun _ _ => rfl
    advanceNonceAccount_head := fun _ _ => rfl
    advanceNonceAccount_data := fun _ _ => rfl
    transfer_accounts := fun _ _ _ => rfl
    transfer_data_injective := fun _ _ amount _ _ amount' h =>
      UInt64.toNat_inj.mp (littleEndian_injective amount.toNat_lt amount'.toNat_lt
        (List.append_cancel_left h)) }

theorem lawfulSigners_sdk : @SolanaSdk.LawfulSigners sdk :=
  letI := sdk
  { mem_signerKeys_new := by
      intro instructions payer blockhash key hkey
      exact mem_signers_iff.mp (take_accountKeys instructions payer blockhash ▸ hkey)
    transfer_signers := by
      intro source target amount account haccount hsigner
      simp only [SolanaSdk.transfer, transfer, List.mem_cons, List.not_mem_nil, or_false] at haccount
      rcases haccount with rfl | rfl
      · rfl
      · cases hsigner }

end Cksol.Solana
