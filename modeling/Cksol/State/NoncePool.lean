import Cksol.Common.Fallible
import Cksol.State.Panic

/-! # `state/nonce_pool`

The pool of durable nonce accounts reserved for withdrawal transactions. A bound account belongs to
one in-flight transaction; the nonce values ever bound to an account classify every later read of it.
-/

namespace Cksol

open Std

/-- Whether a transaction in progress uses the account. -/
inductive NonceAccountState where
  | free
  | bound
deriving DecidableEq

/-- A nonce account, with every value that was bound to a transaction. -/
structure NonceAccount where
  state : NonceAccountState
  seenNonceValues : OrdSet Hash

def NonceAccount.default : NonceAccount := ⟨.free, ∅⟩

def NonceAccount.isFree (account : NonceAccount) : Bool := account.state = .free

/-- What a finalized read of a nonce account bound to an in-flight transaction proves. -/
inductive NonceRead where
  | unchanged
  | stale
  | advanced
deriving DecidableEq

/-- Why accounts are not added. -/
inductive NoncePoolError where
  | duplicateAccount (address : Address)
deriving DecidableEq

/-- The nonce accounts of the minter. -/
structure DurableNoncePool where
  accounts : OrdMap Address NonceAccount

namespace DurableNoncePool

variable {addresses : List Address} {pool : DurableNoncePool} {address : Address}

def empty : DurableNoncePool := ⟨∅⟩

/-- The new accounts, each checked against the pool and against those before it. -/
def additions (pool : DurableNoncePool) (addresses : List Address) :
    Except NoncePoolError (OrdMap Address NonceAccount) :=
  addresses.foldlM
    (fun additions address =>
      if address ∈ pool.accounts ∨ address ∈ additions then .error (.duplicateAccount address)
      else .ok (additions.insert address .default))
    ∅

/-- Adds the accounts, or leaves the pool unchanged when one of them is a duplicate. -/
def addAccounts (pool : DurableNoncePool) (addresses : List Address) :
    Except NoncePoolError DurableNoncePool := do
  let additions ← pool.additions addresses
  return ⟨pool.accounts.insertAll additions.toList⟩

/-- One iteration of the call on the pool in place, which reads the pool and changes nothing of it. -/
def stageAddition (additions : OrdMap Address NonceAccount) (address : Address) :
    ExceptT NoncePoolError (StateM DurableNoncePool) (OrdMap Address NonceAccount) := do
  if address ∈ (← get).accounts ∨ address ∈ additions then throw (.duplicateAccount address)
  else return additions.insert address .default

/-- The call as it works on the pool in place: the staged additions join it after the last check. -/
def addAccountsInPlace (addresses : List Address) :
    ExceptT NoncePoolError (StateM DurableNoncePool) Unit := do
  let additions ← addresses.foldlM stageAddition ∅
  modify fun pool => ⟨pool.accounts.insertAll additions.toList⟩

/-- The pool of the installation, which rejects duplicates. -/
def new (addresses : List Address) : Except NoncePoolError DurableNoncePool :=
  empty.addAccounts addresses

/-- Binds the account to an in-flight transaction carrying the nonce value. -/
def bind (pool : DurableNoncePool) (address : Address) (nonceValue : Hash) :
    Except Panic DurableNoncePool := do
  let account ← orPanic pool.accounts[address]? (.nonceAccountNotInPool address)
  check (account.state = .free) (.nonceAccountAlreadyBound address)
  check (nonceValue ∉ account.seenNonceValues) (.nonceValueAlreadySeen address nonceValue)
  return ⟨pool.accounts.insert address ⟨.bound, account.seenNonceValues.insert nonceValue⟩⟩

/-- Releases the account once its in-flight transaction has landed. -/
def free (pool : DurableNoncePool) (address : Address) : Except Panic DurableNoncePool := do
  let account ← orPanic pool.accounts[address]? (.nonceAccountNotInPool address)
  check (account.state = .bound) (.nonceAccountNotBound address)
  return ⟨pool.accounts.insert address ⟨.free, account.seenNonceValues⟩⟩

/-- Whether the value was already bound to a transaction of the account. -/
def hasSeen (pool : DurableNoncePool) (address : Address) (nonceValue : Hash) : Bool :=
  match pool.accounts[address]? with
  | some account => account.seenNonceValues.contains nonceValue
  | none => false

/-- Classifies a read of an account bound to a transaction carrying `boundNonceValue`. -/
def classifyRead (pool : DurableNoncePool) (address : Address)
    (boundNonceValue readNonceValue : Hash) : NonceRead :=
  if readNonceValue = boundNonceValue then .unchanged
  else if pool.hasSeen address readNonceValue then .stale
  else .advanced

def contains (pool : DurableNoncePool) (address : Address) : Bool :=
  pool.accounts.contains address

def isEmpty (pool : DurableNoncePool) : Bool :=
  pool.accounts.isEmpty

/-- The accounts that a transaction may be bound to. -/
def freeAccounts (pool : DurableNoncePool) : List Address :=
  (pool.accounts.toList.filter fun entry => entry.2.isFree).map Prod.fst

def numFreeAccounts (pool : DurableNoncePool) : ℕ :=
  pool.freeAccounts.length

/-! ## What each operation does -/

/-- The account is in the pool and bound to no transaction. -/
def IsFree (pool : DurableNoncePool) (address : Address) : Prop :=
  ∃ seen, pool.accounts[address]? = some ⟨.free, seen⟩

theorem hasSeen_of_getElem? {account : NonceAccount} (h : pool.accounts[address]? = some account)
    (nonceValue : Hash) :
    pool.hasSeen address nonceValue ↔ nonceValue ∈ account.seenNonceValues := by
  simp only [hasSeen, h, ExtTreeSet.contains_iff_mem]

theorem hasSeen_insert {address address' : Address} {account : NonceAccount} {nonceValue : Hash} :
    (⟨pool.accounts.insert address account⟩ : DurableNoncePool).hasSeen address' nonceValue ↔
      if address = address' then nonceValue ∈ account.seenNonceValues
      else pool.hasSeen address' nonceValue := by
  by_cases heq : address = address'
  · simp [hasSeen, heq]
  · simp [hasSeen, OrdMap.getElem?_insert_eq, heq]

/-- A binding takes a free account and a value it has never carried, and marks both. -/
theorem bind_eq_ok {pool pool' : DurableNoncePool} {nonceValue : Hash}
    (h : pool.bind address nonceValue = .ok pool') :
    ∃ seen, pool.accounts[address]? = some ⟨.free, seen⟩ ∧ nonceValue ∉ seen ∧
      pool' = ⟨pool.accounts.insert address ⟨.bound, seen.insert nonceValue⟩⟩ := by
  simp only [bind, Cksol.bind_eq_ok, orPanic_eq_ok, check_eq_ok, pure_eq_ok] at h
  obtain ⟨⟨state, seen⟩, haccount, -, rfl, -, hunseen, rfl⟩ := h
  exact ⟨seen, haccount, hunseen, rfl⟩

/-- A release takes a bound account and keeps the values it has carried. -/
theorem free_eq_ok {pool pool' : DurableNoncePool} (h : pool.free address = .ok pool') :
    ∃ seen, pool.accounts[address]? = some ⟨.bound, seen⟩ ∧
      pool' = ⟨pool.accounts.insert address ⟨.free, seen⟩⟩ := by
  simp only [free, Cksol.bind_eq_ok, orPanic_eq_ok, check_eq_ok, pure_eq_ok] at h
  obtain ⟨⟨state, seen⟩, haccount, -, rfl, rfl⟩ := h
  exact ⟨seen, haccount, rfl⟩

/-- The additions are the addresses of the list, new to the pool and pairwise distinct. -/
theorem additions_eq_ok {additions : OrdMap Address NonceAccount}
    (h : pool.additions addresses = .ok additions) :
    addresses.Nodup ∧ (∀ a ∈ addresses, pool.accounts[a]? = none) ∧
      ∀ a, additions[a]? = if a ∈ addresses then some .default else none := by
  refine foldlM_invariant
    (P := fun done additions => done.Nodup ∧ (∀ a ∈ done, pool.accounts[a]? = none) ∧
      ∀ a, additions[a]? = if a ∈ done then some .default else none) ?_ ?_ h
  · exact ⟨List.nodup_nil, by simp, by simp⟩
  · rintro done additions address additions' ⟨hnodup, hnew, hget⟩ hstep
    split at hstep
    · cases hstep
    case isFalse hfresh =>
      obtain rfl := Except.ok.inj hstep
      push Not at hfresh
      -- an address that comes twice would be among the additions already
      have hdone : address ∉ done := by
        intro hmem
        have := hget address
        rw [if_pos hmem] at this
        exact hfresh.2 (OrdMap.mem_iff_exists.mpr ⟨_, this⟩)
      refine ⟨?_, ?_, ?_⟩
      · exact List.nodup_append.mpr ⟨hnodup, by simp, by aesop⟩
      · intro a ha
        rcases List.mem_append.mp ha with ha | ha
        · exact hnew a ha
        · rw [List.mem_singleton.mp ha]
          exact OrdMap.not_mem_iff.mp hfresh.1
      · intro a
        rw [OrdMap.getElem?_insert_eq, hget a]
        by_cases ha : address = a
        · simp [ha]
        · simp [ha, Ne.symm ha]

/-- New accounts join free and unseen; the accounts of the pool keep what they are. -/
theorem addAccounts_eq_ok {pool pool' : DurableNoncePool}
    (h : pool.addAccounts addresses = .ok pool') :
    addresses.Nodup ∧ (∀ a ∈ addresses, pool.accounts[a]? = none) ∧
      ∀ a, pool'.accounts[a]? = if a ∈ addresses then some .default else pool.accounts[a]? := by
  simp only [addAccounts, Cksol.bind_eq_ok, pure_eq_ok] at h
  obtain ⟨additions, hadditions, rfl⟩ := h
  obtain ⟨hnodup, hnew, hget⟩ := additions_eq_ok hadditions
  refine ⟨hnodup, hnew, fun a => ?_⟩
  have hall : (pool.accounts.insertAll additions.toList)[a]? =
      additions[a]?.or pool.accounts[a]? := by
    simpa using
      OrdMap.getElem?_insertAll_toList pool.accounts additions (fun _ account => account) a
  rw [hall, hget a]
  split <;> simp

/-- The account reported is the first of the list that repeats one before it or one of the pool. -/
theorem addAccounts_eq_error {error : NoncePoolError}
    (h : pool.addAccounts addresses = .error error) :
    ∃ before address after, addresses = before ++ address :: after ∧
      error = .duplicateAccount address ∧ (address ∈ before ∨ address ∈ pool.accounts) ∧
      before.Nodup ∧ ∀ a ∈ before, a ∉ pool.accounts := by
  rw [addAccounts, bind_eq_error] at h
  rcases h with hadditions | ⟨_, -, hpure⟩
  case inr => cases hpure
  obtain ⟨before, address, after, additions, rfl, hbefore, hstop⟩ :=
    exists_of_foldlM_eq_error hadditions
  obtain ⟨hnodup, hnew, hget⟩ := additions_eq_ok hbefore
  refine ⟨before, address, after, rfl, ?_, ?_, hnodup, fun a ha => OrdMap.not_mem_iff.mpr (hnew a ha)⟩
  · split at hstop
    · exact (Except.error.inj hstop).symm
    · cases hstop
  · split at hstop
    case isTrue hduplicate =>
      refine hduplicate.symm.imp_left fun hmem => ?_
      obtain ⟨account, haccount⟩ := OrdMap.mem_iff_exists.mp hmem
      rw [hget] at haccount
      by_contra hnot
      simp [hnot] at haccount
    case isFalse => cases hstop

/-- The accounts are added when there is no duplicate among them and the pool, and only then. -/
theorem exists_addAccounts_eq_ok_iff :
    (∃ pool', pool.addAccounts addresses = .ok pool') ↔
      addresses.Nodup ∧ ∀ a ∈ addresses, a ∉ pool.accounts := by
  constructor
  · rintro ⟨pool', hadd⟩
    obtain ⟨hnodup, hnew, -⟩ := addAccounts_eq_ok hadd
    exact ⟨hnodup, fun a ha => OrdMap.not_mem_iff.mpr (hnew a ha)⟩
  · rintro ⟨hnodup, hnew⟩
    cases hadd : pool.addAccounts addresses with
    | ok pool' => exact ⟨pool', rfl⟩
    | error error =>
        obtain ⟨before, address, after, rfl, -, hduplicate, -⟩ := addAccounts_eq_error hadd
        rcases hduplicate with hbefore | hpool
        · exact absurd rfl ((List.nodup_append.mp hnodup).2.2 address hbefore address (by simp))
        · exact absurd hpool (hnew address (by simp))

/-- New accounts have seen nothing. -/
theorem hasSeen_addAccounts {pool pool' : DurableNoncePool}
    (h : pool.addAccounts addresses = .ok pool') (address : Address) (nonceValue : Hash) :
    pool'.hasSeen address nonceValue = pool.hasSeen address nonceValue := by
  obtain ⟨-, hnew, hget⟩ := addAccounts_eq_ok h
  unfold hasSeen
  rw [hget]
  split
  case h_1 account haccount =>
    split at haccount
    case isTrue hmem =>
      obtain rfl := Option.some.inj haccount
      simp [hnew address hmem, NonceAccount.default]
    case isFalse => rw [haccount]
  case h_2 hnone =>
    split at hnone
    case isTrue => cases hnone
    case isFalse => rw [hnone]

/-! ## Adding in place -/

/-- The checks leave the pool as it is, whatever they find. -/
theorem run_foldlM_stageAddition (pool : DurableNoncePool) (addresses : List Address)
    (additions : OrdMap Address NonceAccount) :
    (addresses.foldlM stageAddition additions).run.run pool =
      (addresses.foldlM (fun additions address =>
        if address ∈ pool.accounts ∨ address ∈ additions then .error (.duplicateAccount address)
        else .ok (additions.insert address .default)) additions, pool) := by
  induction addresses generalizing additions with
  | nil => rfl
  | cons address addresses ih =>
      rw [List.foldlM_cons, List.foldlM_cons, ExceptT.run_bind, StateT.run_bind]
      have hstage : (stageAddition additions address).run.run pool =
          (if address ∈ pool.accounts ∨ address ∈ additions then .error (.duplicateAccount address)
            else .ok (additions.insert address .default), pool) := by
        rw [stageAddition]
        show (ite _ _ _ : ExceptT NoncePoolError (StateM DurableNoncePool) _) pool = _
        split <;> rfl
      rw [hstage]
      split
      · rfl
      · exact ih _

/-- The call in place replaces the pool by the extended one, or keeps it and returns the error. -/
theorem run_addAccountsInPlace (pool : DurableNoncePool) (addresses : List Address) :
    (addAccountsInPlace addresses).run.run pool =
      match pool.addAccounts addresses with
      | .ok pool' => (.ok (), pool')
      | .error error => (.error error, pool) := by
  rw [addAccountsInPlace, ExceptT.run_bind, StateT.run_bind, run_foldlM_stageAddition, addAccounts,
    additions]
  cases addresses.foldlM (m := Except NoncePoolError) _ (∅ : OrdMap Address NonceAccount) <;> rfl

/-- Adding is all or nothing: the accounts join the pool, free and unseen, when no address repeats
another or one of the pool; otherwise the first that does is reported and the pool is as it was. -/
theorem addAccountsInPlace_spec (pool : DurableNoncePool) (addresses : List Address) :
    (((addAccountsInPlace addresses).run.run pool).1 = .ok () ↔
      addresses.Nodup ∧ ∀ a ∈ addresses, a ∉ pool.accounts) ∧
    (∀ error pool', (addAccountsInPlace addresses).run.run pool = (.error error, pool') →
      pool' = pool ∧ ∃ before address after, addresses = before ++ address :: after ∧
        error = .duplicateAccount address ∧ (address ∈ before ∨ address ∈ pool.accounts) ∧
        before.Nodup ∧ ∀ a ∈ before, a ∉ pool.accounts) ∧
    ∀ pool', (addAccountsInPlace addresses).run.run pool = (.ok (), pool') →
      ∀ a, pool'.accounts[a]? = if a ∈ addresses then some ⟨.free, ∅⟩ else pool.accounts[a]? := by
  rw [run_addAccountsInPlace, ← exists_addAccounts_eq_ok_iff]
  cases hadd : pool.addAccounts addresses with
  | ok pool' =>
      refine ⟨iff_of_true rfl ⟨pool', rfl⟩, ?_, ?_⟩
      · intro error pool'' h
        cases h
      · intro pool'' h
        obtain rfl := (Prod.mk.inj h).2
        exact (addAccounts_eq_ok hadd).2.2
  | error error =>
      refine ⟨by simp, ?_, ?_⟩
      · intro error' pool' h
        obtain ⟨herror, rfl⟩ := Prod.mk.inj h
        obtain rfl := Except.error.inj herror
        exact ⟨rfl, addAccounts_eq_error hadd⟩
      · intro pool' h
        cases h

end DurableNoncePool

end Cksol
