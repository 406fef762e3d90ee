import Cksol.Common.Bytes
import Cksol.Common.OrdMap
import Cksol.Constants

/-! # Accounts and keys

The ledger's `Account` compares by owner and effective subaccount: an absent subaccount is the
all-zero one. Maps over accounts are therefore keyed by `Account.key`.
-/

namespace Cksol

open Std

/-- A principal of the Internet Computer: at most 29 bytes. -/
structure Principal where
  bytes : List UInt8
  length_le : bytes.length ≤ 29
deriving DecidableEq

namespace Principal

def anonymous : Principal := ⟨[4], by decide⟩

/-- A principal of one byte. -/
def single (byte : UInt8) : Principal := ⟨[byte], by simp⟩

end Principal

abbrev Subaccount := BitVec 256

/-- An ICRC-1 account. -/
structure Account where
  owner : Principal
  subaccount : Option Subaccount
deriving DecidableEq

/-- What two equal accounts have in common: the bytes of the owner and the effective subaccount. -/
abbrev AccountKey := List UInt8 × Subaccount

instance : Ord AccountKey := lexOrd

instance : Std.TransOrd AccountKey := inferInstance

namespace Account

/-- No subaccount and the subaccount of zeros are the same. -/
def effectiveSubaccount (account : Account) : Subaccount :=
  account.subaccount.getD 0

def key (account : Account) : AccountKey :=
  (account.owner.bytes, account.effectiveSubaccount)

end Account

/-- The master key of the minter, as the management canister returns it. -/
structure SchnorrPublicKey where
  publicKey : PublicKey
  chainCode : ChainCode
deriving DecidableEq

/-- The main address is derived from the empty path. -/
def minterDerivationPath : DerivationPath := []

def derivationPath (account : Account) : DerivationPath :=
  [[1], account.owner.bytes, bigEndian 32 account.effectiveSubaccount.toNat]

/-- The minter's main Solana address: the master public key itself. -/
def minterAddress (masterKey : SchnorrPublicKey) : Address :=
  masterKey.publicKey

/-- The deposit address of an account. -/
def accountAddress [SolanaSdk] (masterKey : SchnorrPublicKey) (account : Account) : Address :=
  SolanaSdk.deriveSubkey masterKey.publicKey masterKey.chainCode (derivationPath account)

/-- Account paths start with the schema tag, so none of them is the path of the minter. -/
theorem derivationPath_ne_minter (account : Account) :
    derivationPath account ≠ minterDerivationPath := by
  simp [derivationPath, minterDerivationPath]

end Cksol
