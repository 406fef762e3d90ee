import Cksol.State.Effects

/-! # Transactions, nonce accounts and requests agree

The withdrawal side of the state is spread over a pool of nonce accounts, a table of created
transactions, the submitted transactions and the request maps. Each table below relates two or three
of these collections; every event keeps all of them.
-/

namespace Cksol

open Std

variable {submittedAt : Timestamp} {message : Message}

/-- What holds a nonce account: a created transaction, or a submitted withdrawal. -/
inductive NonceReference where
  | created (transaction : CreatedWithdrawalTransaction)
  | submitted (signature : Signature) (message : Message) (nonceValue : Hash)
      (submittedAt : Timestamp)

namespace NonceReference

def nonceValue : NonceReference → Hash
  | created transaction => transaction.nonceValue
  | submitted _ _ nonceValue _ => nonceValue

/-- The reference is an entry of its table and is about the account. -/
def RefersTo (createdTxs : OrdMap Address CreatedWithdrawalTransaction)
    (submittedTxs : InsertionOrderedMap Signature MinterTransaction) (account : Address) :
    NonceReference → Prop
  | created transaction => createdTxs[account]? = some transaction
  | submitted signature message nonceValue submittedAt =>
      submittedTxs.get signature = some (.withdrawal message account nonceValue submittedAt)

end NonceReference

open NonceReference (RefersTo)

/-- An account is bound exactly while one transaction refers to it, with a value the account has
seen. -/
structure NonceTable (pool : DurableNoncePool)
    (createdTxs : OrdMap Address CreatedWithdrawalTransaction)
    (submittedTxs : InsertionOrderedMap Signature MinterTransaction) : Prop where
  unique : ∀ {account reference reference'}, RefersTo createdTxs submittedTxs account reference →
    RefersTo createdTxs submittedTxs account reference' → reference = reference'
  bound : ∀ {account reference}, RefersTo createdTxs submittedTxs account reference →
    ∃ seen, pool.accounts[account]? = some ⟨.bound, seen⟩ ∧ reference.nonceValue ∈ seen
  referred : ∀ {account seen}, pool.accounts[account]? = some ⟨.bound, seen⟩ →
    ∃ reference, RefersTo createdTxs submittedTxs account reference

namespace NonceTable

variable {pool : DurableNoncePool} {createdTxs : OrdMap Address CreatedWithdrawalTransaction}
  {submittedTxs submittedTxs' : InsertionOrderedMap Signature MinterTransaction}
  {seen : OrdSet Hash}

/-- Nothing refers to a free account. -/
theorem not_refersTo_of_free (h : NonceTable pool createdTxs submittedTxs) {account : Address}
    (hfree : pool.accounts[account]? = some ⟨.free, seen⟩) (reference : NonceReference) :
    ¬ RefersTo createdTxs submittedTxs account reference := by
  intro hrefers
  obtain ⟨seen', hbound, -⟩ := h.bound hrefers
  rw [hfree] at hbound
  simp at hbound

/-- The account gets one reference, and the others keep theirs. -/
theorem rebind {pool' : DurableNoncePool} {createdTxs' : OrdMap Address CreatedWithdrawalTransaction}
    (h : NonceTable pool createdTxs submittedTxs) {account : Address} {new : NonceReference}
    (hrefers : ∀ {a : Address} {reference : NonceReference},
      RefersTo createdTxs' submittedTxs' a reference ↔
        if account = a then reference = new else RefersTo createdTxs submittedTxs a reference)
    (hbound : ∃ seen, pool'.accounts[account]? = some ⟨.bound, seen⟩ ∧ new.nonceValue ∈ seen)
    (hother : ∀ {a : Address}, account ≠ a → pool'.accounts[a]? = pool.accounts[a]?) :
    NonceTable pool' createdTxs' submittedTxs' := by
  refine ⟨?_, ?_, ?_⟩
  · intro a reference reference' hr hr'
    rw [hrefers] at hr hr'
    split at hr
    case isTrue heq =>
      rw [if_pos heq] at hr'
      rw [hr, hr']
    case isFalse hne =>
      rw [if_neg hne] at hr'
      exact h.unique hr hr'
  · intro a reference hr
    rw [hrefers] at hr
    split at hr
    case isTrue heq =>
      subst heq hr
      exact hbound
    case isFalse hne =>
      rw [hother hne]
      exact h.bound hr
  · intro a seen hseen
    by_cases heq : account = a
    · exact ⟨new, hrefers.mpr (by rw [if_pos heq])⟩
    · rw [hother heq] at hseen
      obtain ⟨reference, hr⟩ := h.referred hseen
      exact ⟨reference, hrefers.mpr (by rwa [if_neg heq])⟩

/-- A new transaction binds a free account. -/
theorem bind (h : NonceTable pool createdTxs submittedTxs) {account : Address}
    (hfree : pool.accounts[account]? = some ⟨.free, seen⟩) (nonceValue : Hash)
    (burnIndices : List LedgerBurnIndex) :
    NonceTable ⟨pool.accounts.insert account ⟨.bound, seen.insert nonceValue⟩⟩
      (createdTxs.insert account ⟨nonceValue, burnIndices⟩) submittedTxs := by
  have hnone := h.not_refersTo_of_free hfree
  have hrefers {a : Address} {reference : NonceReference} :
      RefersTo (createdTxs.insert account ⟨nonceValue, burnIndices⟩) submittedTxs a reference ↔
        if account = a then reference = .created ⟨nonceValue, burnIndices⟩
        else RefersTo createdTxs submittedTxs a reference := by
    cases reference with
    | created transaction =>
        simp only [RefersTo, OrdMap.getElem?_insert_eq]
        split <;> simp [eq_comm]
    | submitted signature message value submittedAt =>
        split
        case isTrue heq =>
          subst heq
          simpa [RefersTo] using hnone (.submitted signature message value submittedAt)
        case isFalse => rfl
  refine h.rebind hrefers ⟨seen.insert nonceValue, ?_, ExtTreeSet.mem_insert_self⟩ fun {a} hne => ?_
  · rw [OrdMap.getElem?_insert_eq, if_pos rfl]
  · rw [OrdMap.getElem?_insert_eq, if_neg hne]

/-- The submitted transaction takes over the account of the created one. -/
theorem send (h : NonceTable pool createdTxs submittedTxs) {account : Address}
    {transaction : CreatedWithdrawalTransaction} (hcreated : createdTxs[account]? = some transaction)
    {signature : Signature} (hnew : submittedTxs.get signature = none) (message : Message)
    (submittedAt : Timestamp) :
    NonceTable pool (createdTxs.erase account) (submittedTxs.insert signature
      (.withdrawal message account transaction.nonceValue submittedAt)) := by
  have hold : RefersTo createdTxs submittedTxs account (.created transaction) := hcreated
  have hsame {reference : NonceReference} (hr : RefersTo createdTxs submittedTxs account reference) :
      reference = .created transaction := h.unique hr hold
  have hrefers {a : Address} {reference : NonceReference} :
      RefersTo (createdTxs.erase account) (submittedTxs.insert signature
          (.withdrawal message account transaction.nonceValue submittedAt)) a reference ↔
        if account = a then
          reference = .submitted signature message transaction.nonceValue submittedAt
        else RefersTo createdTxs submittedTxs a reference := by
    cases reference with
    | created transaction' =>
        simp only [RefersTo, OrdMap.getElem?_erase_eq]
        split <;> simp
    | submitted signature' message' value submittedAt' =>
        have hother := @hsame (.submitted signature' message' value submittedAt')
        simp only [RefersTo, InsertionOrderedMap.get_insert] at hother ⊢
        grind
  obtain ⟨seen, hbound, hvalue⟩ := h.bound hold
  exact h.rebind hrefers ⟨seen, hbound, hvalue⟩ fun _ => rfl

/-- A concluded withdrawal frees its account. -/
theorem conclude (h : NonceTable pool createdTxs submittedTxs) {signature : Signature}
    {account : Address} {nonceValue : Hash} (hremove : submittedTxs.remove signature =
      some (.withdrawal message account nonceValue submittedAt, submittedTxs')) :
    NonceTable ⟨pool.accounts.insert account ⟨.free, seen⟩⟩ createdTxs submittedTxs' := by
  obtain ⟨hget, hrest⟩ := InsertionOrderedMap.remove_eq_some hremove
  have hsubmitted : RefersTo createdTxs submittedTxs account
      (.submitted signature message nonceValue submittedAt) := hget
  have hsame {reference : NonceReference} (hr : RefersTo createdTxs submittedTxs account reference) :
      reference = .submitted signature message nonceValue submittedAt := h.unique hr hsubmitted
  have hrefers {a : Address} {reference : NonceReference} :
      RefersTo createdTxs submittedTxs' a reference ↔
        account ≠ a ∧ RefersTo createdTxs submittedTxs a reference := by
    have hold := @hsame reference
    cases reference with
    | created transaction =>
        simp only [RefersTo] at hold ⊢
        grind
    | submitted signature' message' value submittedAt' =>
        simp only [RefersTo, hrest] at hold ⊢
        grind
  refine ⟨?_, ?_, ?_⟩
  · intro a reference reference' hr hr'
    exact h.unique (hrefers.mp hr).2 (hrefers.mp hr').2
  · intro a reference hr
    obtain ⟨hne, hr⟩ := hrefers.mp hr
    rw [OrdMap.getElem?_insert_eq, if_neg hne]
    exact h.bound hr
  · intro a seen' hseen
    rw [OrdMap.getElem?_insert_eq] at hseen
    split at hseen
    case isTrue => simp at hseen
    case isFalse hne =>
      obtain ⟨reference, hr⟩ := h.referred hseen
      exact ⟨reference, hrefers.mpr ⟨hne, hr⟩⟩

/-- Sweeps do not refer to nonce accounts. -/
theorem congr_submitted (h : NonceTable pool createdTxs submittedTxs)
    (hsame : ∀ signature message account nonceValue submittedAt,
      submittedTxs'.get signature = some (.withdrawal message account nonceValue submittedAt) ↔
        submittedTxs.get signature = some (.withdrawal message account nonceValue submittedAt)) :
    NonceTable pool createdTxs submittedTxs' := by
  have hrefers {a : Address} {reference : NonceReference} :
      RefersTo createdTxs submittedTxs' a reference ↔ RefersTo createdTxs submittedTxs a reference := by
    cases reference with
    | created => rfl
    | submitted => exact hsame _ _ _ _ _
  refine ⟨?_, ?_, ?_⟩
  · intro a reference reference' hr hr'
    exact h.unique (hrefers.mp hr) (hrefers.mp hr')
  · intro a reference hr
    exact h.bound (hrefers.mp hr)
  · intro a seen hseen
    obtain ⟨reference, hr⟩ := h.referred hseen
    exact ⟨reference, hrefers.mpr hr⟩

/-- New accounts join the pool unreferred. -/
theorem addAccounts (h : NonceTable pool createdTxs submittedTxs) {addresses : List Address}
    {pool' : DurableNoncePool} (hadd : pool.addAccounts addresses = .ok pool') :
    NonceTable pool' createdTxs submittedTxs := by
  obtain ⟨-, hnew, hget⟩ := DurableNoncePool.addAccounts_eq_ok hadd
  refine ⟨h.unique, ?_, ?_⟩
  · intro a reference hr
    obtain ⟨seen, hbound, hseen⟩ := h.bound hr
    have hold : a ∉ addresses := fun hmem => by simp [hnew a hmem] at hbound
    exact ⟨seen, by rw [hget, if_neg hold, hbound], hseen⟩
  · intro a seen hseen
    rw [hget] at hseen
    split at hseen
    case isTrue => simp [NonceAccount.default] at hseen
    case isFalse => exact h.referred hseen

end NonceTable

/-! ## Created requests -/

/-- The created requests are the disjoint union of the burn indices of the created transactions. -/
structure RequestTable (createdTxs : OrdMap Address CreatedWithdrawalTransaction)
    (created : OrdMap LedgerBurnIndex PendingWithdrawalRequest) : Prop where
  nodup : ∀ {account : Address} {transaction : CreatedWithdrawalTransaction},
    createdTxs[account]? = some transaction → transaction.burnIndices.Nodup
  present : ∀ {account : Address} {transaction : CreatedWithdrawalTransaction},
    createdTxs[account]? = some transaction →
    ∀ i ∈ transaction.burnIndices, ∃ request, created[i]? = some request
  covered : ∀ {i : LedgerBurnIndex} {request}, created[i]? = some request →
    ∃ (account : Address) (transaction : CreatedWithdrawalTransaction),
      createdTxs[account]? = some transaction ∧ i ∈ transaction.burnIndices
  disjoint : ∀ {account account' : Address}
    {transaction transaction' : CreatedWithdrawalTransaction} {i : LedgerBurnIndex},
    createdTxs[account]? = some transaction → createdTxs[account']? = some transaction' →
    i ∈ transaction.burnIndices → i ∈ transaction'.burnIndices → account = account'

namespace RequestTable

variable {createdTxs : OrdMap Address CreatedWithdrawalTransaction}
  {pending pending' created created' : OrdMap LedgerBurnIndex PendingWithdrawalRequest}
  {burnIndices : List LedgerBurnIndex} {account : Address}

/-- A new transaction brings its own requests, none of which was created before. -/
theorem create (h : RequestTable createdTxs created)
    (hmoved : OrdMap.Moved id burnIndices pending pending' created created')
    (hnew : createdTxs[account]? = none) (nonceValue : Hash) :
    RequestTable (createdTxs.insert account ⟨nonceValue, burnIndices⟩) created' := by
  -- a created request is in no other batch: the requests of the batch were pending
  have hfresh {a : Address} {transaction : CreatedWithdrawalTransaction}
      (ha : createdTxs[a]? = some transaction) :
      ∀ i ∈ transaction.burnIndices, i ∉ burnIndices := by
    intro i hi hmem
    obtain ⟨request, hrequest⟩ := h.present ha i hi
    rw [hmoved.fresh i hmem] at hrequest
    cases hrequest
  have hmem (i : LedgerBurnIndex) (hi : i ∈ burnIndices) :
      ∃ request, created'[i]? = some request := by
    obtain ⟨request, hrequest⟩ := hmoved.present i hi
    exact ⟨request, by rw [hmoved.target_of_mem i hi, hrequest]; rfl⟩
  refine ⟨?_, ?_, ?_, ?_⟩
  · intro a transaction ha
    rw [OrdMap.getElem?_insert_eq] at ha
    split at ha
    · obtain rfl := Option.some.inj ha
      exact hmoved.nodup
    · exact h.nodup ha
  · intro a transaction ha i hi
    rw [OrdMap.getElem?_insert_eq] at ha
    split at ha
    · obtain rfl := Option.some.inj ha
      exact hmem i hi
    · rw [hmoved.target_of_notMem i (hfresh ha i hi)]
      exact h.present ha i hi
  · intro i request hi
    by_cases hbatch : i ∈ burnIndices
    · exact ⟨account, _, by rw [OrdMap.getElem?_insert_eq, if_pos rfl], hbatch⟩
    · rw [hmoved.target_of_notMem i hbatch] at hi
      obtain ⟨a, transaction, ha, hmem⟩ := h.covered hi
      have hne : account ≠ a := fun heq => by rw [← heq, hnew] at ha; cases ha
      exact ⟨a, transaction, by rw [OrdMap.getElem?_insert_eq, if_neg hne, ha], hmem⟩
  · intro a a' transaction transaction' i ha ha' hi hi'
    rw [OrdMap.getElem?_insert_eq] at ha ha'
    split at ha
    case isTrue heq =>
      obtain rfl := Option.some.inj ha
      split at ha'
      case isTrue heq' => exact heq.symm.trans heq'
      case isFalse => exact absurd hi (hfresh ha' i hi')
    case isFalse =>
      split at ha'
      case isTrue =>
        obtain rfl := Option.some.inj ha'
        exact absurd hi' (hfresh ha i hi)
      case isFalse => exact h.disjoint ha ha' hi hi'

/-- A sent transaction takes its requests along, and those of the others stay. -/
theorem send {sent sent' : OrdMap LedgerBurnIndex SentWithdrawalRequest} {signature : Signature}
    {nonceValue : Hash} (h : RequestTable createdTxs created)
    (hcreated : createdTxs[account]? = some ⟨nonceValue, burnIndices⟩)
    (hmoved : OrdMap.Moved (State.sentAs signature) burnIndices created created' sent sent') :
    RequestTable (createdTxs.erase account) created' := by
  have hother {a : Address} {transaction : CreatedWithdrawalTransaction}
      (ha : (createdTxs.erase account)[a]? = some transaction) :
      createdTxs[a]? = some transaction ∧ ∀ i ∈ transaction.burnIndices, i ∉ burnIndices := by
    rw [OrdMap.getElem?_erase_eq] at ha
    split at ha
    case isTrue => cases ha
    case isFalse hne => exact ⟨ha, fun i hi hmem => hne (h.disjoint hcreated ha hmem hi)⟩
  refine ⟨?_, ?_, ?_, ?_⟩
  · intro a transaction ha
    exact h.nodup (hother ha).1
  · intro a transaction ha i hi
    rw [hmoved.source_of_notMem i ((hother ha).2 i hi)]
    exact h.present (hother ha).1 i hi
  · intro i request hi
    have hbatch := hmoved.not_mem_of_present hi
    rw [hmoved.source_of_notMem i hbatch] at hi
    obtain ⟨a, transaction, ha, hmem⟩ := h.covered hi
    have hne : account ≠ a := by
      rintro rfl
      obtain rfl := Option.some.inj (ha.symm.trans hcreated)
      exact hbatch hmem
    exact ⟨a, transaction, by rw [OrdMap.getElem?_erase_eq, if_neg hne, ha], hmem⟩
  · intro a a' transaction transaction' i ha ha' hi hi'
    exact h.disjoint (hother ha).1 (hother ha').1 hi hi'

end RequestTable

/-! ## Signatures -/

/-- No signature is at once submitted, succeeded and failed, nor two of these. -/
structure SignatureTable (submittedTxs : InsertionOrderedMap Signature MinterTransaction)
    (succeeded : OrdSet Signature) (failed : InsertionOrderedMap Signature MinterTransaction) :
    Prop where
  not_succeeded : ∀ {signature transaction}, submittedTxs.get signature = some transaction →
    signature ∉ succeeded
  not_failed : ∀ {signature transaction}, submittedTxs.get signature = some transaction →
    failed.get signature = none
  disjoint : ∀ {signature}, signature ∈ succeeded → failed.get signature = none

namespace SignatureTable

variable {submittedTxs submittedTxs' failed : InsertionOrderedMap Signature MinterTransaction}
  {succeeded : OrdSet Signature} {signature : Signature} {transaction : MinterTransaction}

theorem submit (h : SignatureTable submittedTxs succeeded failed) (hsucceeded : signature ∉ succeeded)
    (hfailed : failed.get signature = none) :
    SignatureTable (submittedTxs.insert signature transaction) succeeded failed := by
  obtain ⟨h₁, h₂, h₃⟩ := h
  refine ⟨?_, ?_, h₃⟩
  · intro signature' transaction' hget
    rw [InsertionOrderedMap.get_insert] at hget
    grind
  · intro signature' transaction' hget
    rw [InsertionOrderedMap.get_insert] at hget
    grind

theorem remove (h : SignatureTable submittedTxs succeeded failed)
    (hremove : submittedTxs.remove signature = some (transaction, submittedTxs')) :
    SignatureTable submittedTxs' succeeded failed := by
  obtain ⟨h₁, h₂, h₃⟩ := h
  obtain ⟨-, hrest⟩ := InsertionOrderedMap.remove_eq_some hremove
  refine ⟨?_, ?_, h₃⟩
  · intro signature' transaction' hget
    rw [hrest] at hget
    grind
  · intro signature' transaction' hget
    rw [hrest] at hget
    grind

theorem succeed (h : SignatureTable submittedTxs succeeded failed)
    (hfailed : failed.get signature = none)
    (hremove : submittedTxs.remove signature = some (transaction, submittedTxs')) :
    SignatureTable submittedTxs' (succeeded.insert signature) failed := by
  have hrest := (InsertionOrderedMap.remove_eq_some hremove).2
  obtain ⟨h₁, h₂, h₃⟩ := h.remove hremove
  refine ⟨?_, h₂, ?_⟩
  · intro signature' transaction' hget hmem
    rw [ExtTreeSet.mem_insert, LawfulEqCmp.compare_eq_iff_eq] at hmem
    rcases hmem with rfl | hmem
    · rw [hrest, if_pos rfl] at hget
      cases hget
    · exact h₁ hget hmem
  · intro signature' hmem
    rw [ExtTreeSet.mem_insert, LawfulEqCmp.compare_eq_iff_eq] at hmem
    rcases hmem with rfl | hmem
    · exact hfailed
    · exact h₃ hmem

theorem fail (h : SignatureTable submittedTxs succeeded failed) (hsucceeded : signature ∉ succeeded)
    (hremove : submittedTxs.remove signature = some (transaction, submittedTxs')) :
    SignatureTable submittedTxs' succeeded (failed.insert signature transaction) := by
  have hrest := (InsertionOrderedMap.remove_eq_some hremove).2
  obtain ⟨h₁, h₂, h₃⟩ := h.remove hremove
  refine ⟨h₁, ?_, ?_⟩
  · intro signature' transaction' hget
    rw [InsertionOrderedMap.get_insert]
    have := h₂ hget
    rw [hrest] at hget
    grind
  · intro signature' hmem
    rw [InsertionOrderedMap.get_insert]
    have := h₃ hmem
    grind

end SignatureTable

/-! ## Sent requests -/

/-- A withdrawal with the signature, serving the burn indices, was submitted. -/
def Submits (log : List Event) (signature : Signature) (burnIndices : List LedgerBurnIndex) : Prop :=
  ∃ event ∈ log, ∃ message signers,
    event.payload = .submittedTransaction signature message signers (.withdrawal burnIndices)

/-- The signature is that of a submitted withdrawal. -/
def IsWithdrawal (submittedTxs : InsertionOrderedMap Signature MinterTransaction)
    (signature : Signature) : Prop :=
  ∃ message account nonceValue submittedAt,
    submittedTxs.get signature = some (.withdrawal message account nonceValue submittedAt)

/-- The sent requests are those served by the submitted withdrawals. -/
structure SentTable (log : List Event) (sent : OrdMap LedgerBurnIndex SentWithdrawalRequest)
    (submittedTxs : InsertionOrderedMap Signature MinterTransaction)
    (succeeded : OrdSet Signature) (failed : InsertionOrderedMap Signature MinterTransaction) :
    Prop where
  submitted : ∀ {i : LedgerBurnIndex} {request : SentWithdrawalRequest}, sent[i]? = some request →
    IsWithdrawal submittedTxs request.signature
  recorded : ∀ {signature}, IsWithdrawal submittedTxs signature →
    ∃ burnIndices, Submits log signature burnIndices
  served : ∀ {signature burnIndices}, Submits log signature burnIndices →
    IsWithdrawal submittedTxs signature →
    ∀ i ∈ burnIndices, ∃ request, sent[i]? = some request ∧ request.signature = signature
  known : ∀ {signature burnIndices}, Submits log signature burnIndices →
    IsWithdrawal submittedTxs signature ∨ signature ∈ succeeded ∨ failed.get signature ≠ none

section Submits

variable {log : List Event} {timestamp : Timestamp} {payload : EventType} {signature : Signature}
  {burnIndices : List LedgerBurnIndex}

theorem submits_append :
    Submits (log ++ [⟨timestamp, payload⟩]) signature burnIndices ↔
      Submits log signature burnIndices ∨ ∃ message signers,
        payload = .submittedTransaction signature message signers (.withdrawal burnIndices) := by
  simp [Submits, or_and_right, exists_or]

/-- Only the submission of a withdrawal adds one. -/
theorem submits_append_of_ne
    (h : ∀ signature message signers burnIndices,
      payload ≠ .submittedTransaction signature message signers (.withdrawal burnIndices)) :
    Submits (log ++ [⟨timestamp, payload⟩]) signature burnIndices ↔
      Submits log signature burnIndices := by
  rw [submits_append, or_iff_left]
  rintro ⟨message, signers, heq⟩
  exact h _ _ _ _ heq

end Submits

namespace SentTable

variable {log log' : List Event} {sent sent' : OrdMap LedgerBurnIndex SentWithdrawalRequest}
  {submittedTxs submittedTxs' failed failed' : InsertionOrderedMap Signature MinterTransaction}
  {succeeded succeeded' : OrdSet Signature} {signature : Signature}

/-- Events that submit and conclude no withdrawal change none of the relations. -/
theorem congr (h : SentTable log sent submittedTxs succeeded failed)
    (hlog : ∀ signature burnIndices,
      Submits log' signature burnIndices ↔ Submits log signature burnIndices)
    (hsubmitted : ∀ signature,
      IsWithdrawal submittedTxs' signature ↔ IsWithdrawal submittedTxs signature)
    (hsent : ∀ i : LedgerBurnIndex, sent'[i]? = sent[i]?)
    (hsucceeded : ∀ signature ∈ succeeded, signature ∈ succeeded')
    (hfailed : ∀ signature, failed.get signature ≠ none → failed'.get signature ≠ none) :
    SentTable log' sent' submittedTxs' succeeded' failed' := by
  refine ⟨?_, ?_, ?_, ?_⟩
  · intro i request hi
    rw [hsent] at hi
    exact (hsubmitted _).mpr (h.submitted hi)
  · intro signature hw
    obtain ⟨burnIndices, hsubmits⟩ := h.recorded ((hsubmitted signature).mp hw)
    exact ⟨burnIndices, (hlog _ _).mpr hsubmits⟩
  · intro signature burnIndices hsubmits hw i hi
    rw [hsent]
    exact h.served ((hlog _ _).mp hsubmits) ((hsubmitted signature).mp hw) i hi
  · intro signature burnIndices hsubmits
    rcases h.known ((hlog _ _).mp hsubmits) with hw | hs | hf
    · exact .inl ((hsubmitted signature).mpr hw)
    · exact .inr (.inl (hsucceeded _ hs))
    · exact .inr (.inr (hfailed _ hf))

/-- A transaction that serves no sent request leaves them as they are. -/
theorem finishSent_eq (h : SentTable log sent submittedTxs succeeded failed)
    (hsweep : ¬ IsWithdrawal submittedTxs signature)
    (finished : OrdMap LedgerBurnIndex SentWithdrawalRequest) (i : LedgerBurnIndex) :
    (State.finishSent sent finished signature).1[i]? = sent[i]? := by
  rw [State.getElem?_finishSent_fst]
  cases hi : sent[i]? with
  | none => rfl
  | some request =>
      have hne : request.signature ≠ signature := fun heq => hsweep (heq ▸ h.submitted hi)
      simp [Option.filter_some, hne]

/-- A submitted withdrawal serves its batch. -/
theorem send {created created' : OrdMap LedgerBurnIndex PendingWithdrawalRequest}
    {burnIndices : List LedgerBurnIndex} {account : Address} {nonceValue : Hash}
    {timestamp : Timestamp} {signers : List Signer}
    (h : SentTable log sent submittedTxs succeeded failed) (hsucceeded : signature ∉ succeeded)
    (hfailed : failed.get signature = none) (hnew : submittedTxs.get signature = none)
    (hmoved : OrdMap.Moved (State.sentAs signature) burnIndices created created' sent sent') :
    SentTable (log ++ [⟨timestamp,
        .submittedTransaction signature message signers (.withdrawal burnIndices)⟩]) sent'
      (submittedTxs.insert signature (.withdrawal message account nonceValue timestamp))
      succeeded failed := by
  have hnotBefore : ¬ IsWithdrawal submittedTxs signature := by
    rintro ⟨_, _, _, _, hget⟩
    rw [hnew] at hget
    cases hget
  have hsubmitted (signature' : Signature) :
      IsWithdrawal (submittedTxs.insert signature
          (.withdrawal message account nonceValue timestamp)) signature' ↔
        signature = signature' ∨ IsWithdrawal submittedTxs signature' := by
    simp only [IsWithdrawal, InsertionOrderedMap.get_insert]
    by_cases heq : signature = signature'
    · simp [heq]
    · simp [heq]
  -- the signature was not submitted before, so the only submission with it is the new one
  have hfirst (burnIndices' : List LedgerBurnIndex) : ¬ Submits log signature burnIndices' := by
    intro hsubmits
    rcases h.known hsubmits with hw | hs | hf
    · exact hnotBefore hw
    · exact hsucceeded hs
    · exact hf hfailed
  refine ⟨?_, ?_, ?_, ?_⟩
  · intro i request hi
    rw [hsubmitted]
    by_cases hbatch : i ∈ burnIndices
    · left
      rw [hmoved.target_of_mem i hbatch] at hi
      obtain ⟨pending, -, rfl⟩ := Option.map_eq_some_iff.mp hi
      rfl
    · right
      rw [hmoved.target_of_notMem i hbatch] at hi
      exact h.submitted hi
  · intro signature' hw
    simp only [submits_append]
    rcases (hsubmitted signature').mp hw with rfl | hw
    · exact ⟨burnIndices, .inr ⟨message, signers, rfl⟩⟩
    · obtain ⟨burnIndices', hsubmits⟩ := h.recorded hw
      exact ⟨burnIndices', .inl hsubmits⟩
  · intro signature' burnIndices' hsubmits hw i hi
    rw [submits_append] at hsubmits
    rcases hsubmits with hsubmits | ⟨message', signers', heq⟩
    · have hne : signature ≠ signature' := fun heq => hfirst _ (heq ▸ hsubmits)
      have hold : IsWithdrawal submittedTxs signature' :=
        ((hsubmitted signature').mp hw).resolve_left hne
      obtain ⟨request, hrequest, hsignature⟩ := h.served hsubmits hold i hi
      have hbatch : i ∉ burnIndices := by
        intro hmem
        rw [hmoved.fresh i hmem] at hrequest
        cases hrequest
      exact ⟨request, by rw [hmoved.target_of_notMem i hbatch, hrequest], hsignature⟩
    · injection heq with hsig hmsg hsigners hpurpose
      injection hpurpose with hindices
      subst hsig hindices
      obtain ⟨pending, hpending⟩ := hmoved.present i hi
      exact ⟨State.sentAs signature pending, by rw [hmoved.target_of_mem i hi, hpending]; rfl, rfl⟩
  · intro signature' burnIndices' hsubmits
    rw [submits_append] at hsubmits
    rw [hsubmitted]
    rcases hsubmits with hsubmits | ⟨message', signers', heq⟩
    · rcases h.known hsubmits with hw | hs | hf
      · exact .inl (.inr hw)
      · exact .inr (.inl hs)
      · exact .inr (.inr hf)
    · injection heq with hsig
      exact .inl (.inl hsig)

/-- A concluded withdrawal takes the requests it serves out of the sent map. -/
theorem conclude {account : Address} {nonceValue : Hash}
    (h : SentTable log sent submittedTxs succeeded failed)
    (hremove : submittedTxs.remove signature =
      some (.withdrawal message account nonceValue submittedAt, submittedTxs'))
    (hlog : ∀ signature burnIndices,
      Submits log' signature burnIndices ↔ Submits log signature burnIndices)
    (hsucceeded : ∀ signature ∈ succeeded, signature ∈ succeeded')
    (hfailed : ∀ signature, failed.get signature ≠ none → failed'.get signature ≠ none)
    (hconcluded : signature ∈ succeeded' ∨ failed'.get signature ≠ none)
    (finished : OrdMap LedgerBurnIndex SentWithdrawalRequest) :
    SentTable log' (State.finishSent sent finished signature).1 submittedTxs' succeeded' failed' := by
  obtain ⟨hget, hrest⟩ := InsertionOrderedMap.remove_eq_some hremove
  have hsubmitted (signature' : Signature) :
      IsWithdrawal submittedTxs' signature' ↔
        signature ≠ signature' ∧ IsWithdrawal submittedTxs signature' := by
    simp only [IsWithdrawal, hrest]
    by_cases heq : signature = signature'
    · simp [heq]
    · simp [heq]
  refine ⟨?_, ?_, ?_, ?_⟩
  · intro i request hi
    rw [State.getElem?_finishSent_fst, Option.filter_eq_some_iff] at hi
    obtain ⟨hi, hne⟩ := hi
    simp only [ne_eq, decide_not, Bool.not_eq_eq_eq_not, Bool.not_true, decide_eq_false_iff_not]
      at hne
    exact (hsubmitted _).mpr ⟨Ne.symm hne, h.submitted hi⟩
  · intro signature' hw
    obtain ⟨burnIndices, hsubmits⟩ := h.recorded ((hsubmitted signature').mp hw).2
    exact ⟨burnIndices, (hlog _ _).mpr hsubmits⟩
  · intro signature' burnIndices hsubmits hw i hi
    obtain ⟨hne, hw⟩ := (hsubmitted signature').mp hw
    obtain ⟨request, hrequest, rfl⟩ := h.served ((hlog _ _).mp hsubmits) hw i hi
    exact ⟨request, by simp [State.getElem?_finishSent_fst, hrequest, Option.filter_some, Ne.symm hne],
      rfl⟩
  · intro signature' burnIndices hsubmits
    by_cases heq : signature = signature'
    · exact .inr (heq ▸ hconcluded)
    · rcases h.known ((hlog _ _).mp hsubmits) with hw | hs | hf
      · exact .inl ((hsubmitted signature').mpr ⟨heq, hw⟩)
      · exact .inr (.inl (hsucceeded _ hs))
      · exact .inr (.inr (hfailed _ hf))

end SentTable

/-! ## Sweeps -/

/-- The submitted sweeps are the swept ones. -/
def SweepTable (submittedTxs : InsertionOrderedMap Signature MinterTransaction) (swept : Sweeps) :
    Prop :=
  ∀ signature : Signature,
    (∃ blockHeight, submittedTxs.get signature = some (.sweepDeposit blockHeight)) ↔
      ∃ sweep, swept.bySignature[signature]? = some sweep

namespace SweepTable

variable {submittedTxs submittedTxs' : InsertionOrderedMap Signature MinterTransaction}
  {swept : Sweeps} {signature : Signature}

theorem insert (h : SweepTable submittedTxs swept) (blockHeight : BlockHeight) (sweep : Sweep) :
    SweepTable (submittedTxs.insert signature (.sweepDeposit blockHeight))
      ⟨swept.bySignature.insert signature sweep⟩ := by
  intro signature'
  have := h signature'
  simp only [InsertionOrderedMap.get_insert, OrdMap.getElem?_insert_eq]
  by_cases heq : signature = signature'
  · simp [heq]
  · simpa [heq] using this

theorem remove (h : SweepTable submittedTxs swept) {transaction : MinterTransaction}
    (hremove : submittedTxs.remove signature = some (transaction, submittedTxs')) :
    SweepTable submittedTxs' ⟨swept.bySignature.erase signature⟩ := by
  intro signature'
  have := h signature'
  simp only [(InsertionOrderedMap.remove_eq_some hremove).2, OrdMap.getElem?_erase_eq]
  by_cases heq : signature = signature'
  · simp [heq]
  · simpa [heq] using this

theorem insert_withdrawal (h : SweepTable submittedTxs swept)
    (hnew : submittedTxs.get signature = none) {account : Address} {nonceValue : Hash} :
    SweepTable (submittedTxs.insert signature
      (.withdrawal message account nonceValue submittedAt)) swept := by
  intro signature'
  have := h signature'
  simp only [InsertionOrderedMap.get_insert]
  by_cases heq : signature = signature'
  · subst heq
    simpa [hnew] using this
  · simpa [heq] using this

theorem remove_withdrawal (h : SweepTable submittedTxs swept) {account : Address}
    {nonceValue : Hash} (hremove : submittedTxs.remove signature =
      some (.withdrawal message account nonceValue submittedAt, submittedTxs')) :
    SweepTable submittedTxs' swept := by
  obtain ⟨hget, hrest⟩ := InsertionOrderedMap.remove_eq_some hremove
  intro signature'
  have := h signature'
  simp only [hrest]
  by_cases heq : signature = signature'
  · subst heq
    simpa [hget] using this
  · simpa [heq] using this

end SweepTable

/-! ## All tables -/

/-- What relates the collections of the withdrawal side, and the log. -/
structure Canister.Tables (canister : Canister) : Prop where
  nonces : NonceTable canister.state.noncePool canister.state.createdWithdrawalTxs
    canister.state.submittedTransactions
  requests : RequestTable canister.state.createdWithdrawalTxs
    canister.state.createdWithdrawalRequests
  sent : SentTable canister.log canister.state.sentWithdrawalRequests
    canister.state.submittedTransactions canister.state.succeededTransactions
    canister.state.failedTransactions
  sweeps : SweepTable canister.state.submittedTransactions canister.state.deposits.swept
  signatures : SignatureTable canister.state.submittedTransactions
    canister.state.succeededTransactions canister.state.failedTransactions

namespace Canister.Tables

variable {state state' : State} {log : List Event} {payload : EventType} {timestamp : Timestamp}

/-- Inserting a sweep under a new signature does not touch the withdrawals. -/
theorem get_insert_sweep {submittedTxs : InsertionOrderedMap Signature MinterTransaction}
    {signature signature' : Signature} {blockHeight : BlockHeight} {account : Address}
    {nonceValue : Hash} (hnew : submittedTxs.get signature = none) :
    (submittedTxs.insert signature (.sweepDeposit blockHeight)).get signature' =
        some (.withdrawal message account nonceValue submittedAt) ↔
      submittedTxs.get signature' = some (.withdrawal message account nonceValue submittedAt) := by
  rw [InsertionOrderedMap.get_insert]
  grind

/-- Nor does removing one. -/
theorem get_remove_sweep
    {submittedTxs submittedTxs' : InsertionOrderedMap Signature MinterTransaction}
    {signature signature' : Signature} {blockHeight : BlockHeight} {account : Address}
    {nonceValue : Hash}
    (hremove : submittedTxs.remove signature = some (.sweepDeposit blockHeight, submittedTxs')) :
    submittedTxs'.get signature' = some (.withdrawal message account nonceValue submittedAt) ↔
      submittedTxs.get signature' = some (.withdrawal message account nonceValue submittedAt) := by
  obtain ⟨hget, hrest⟩ := InsertionOrderedMap.remove_eq_some hremove
  rw [hrest]
  grind

theorem isWithdrawal_congr {submittedTxs submittedTxs' : InsertionOrderedMap Signature MinterTransaction}
    (h : ∀ signature message account nonceValue submittedAt,
      submittedTxs'.get signature = some (.withdrawal message account nonceValue submittedAt) ↔
        submittedTxs.get signature = some (.withdrawal message account nonceValue submittedAt))
    (signature : Signature) :
    IsWithdrawal submittedTxs' signature ↔ IsWithdrawal submittedTxs signature := by
  simp only [IsWithdrawal, h]

/-- An event that touches neither nonces nor transactions nor created or sent requests. -/
theorem frame (h : Tables ⟨state, log⟩)
    (hpayload : ∀ signature message signers burnIndices,
      payload ≠ .submittedTransaction signature message signers (.withdrawal burnIndices))
    (hpool : state'.noncePool = state.noncePool)
    (hcreatedTxs : state'.createdWithdrawalTxs = state.createdWithdrawalTxs)
    (hcreated : state'.createdWithdrawalRequests = state.createdWithdrawalRequests)
    (hsent : state'.sentWithdrawalRequests = state.sentWithdrawalRequests)
    (hsubmitted : state'.submittedTransactions = state.submittedTransactions)
    (hsucceeded : state'.succeededTransactions = state.succeededTransactions)
    (hfailed : state'.failedTransactions = state.failedTransactions)
    (hswept : state'.deposits.swept = state.deposits.swept) :
    Tables ⟨state', log ++ [⟨timestamp, payload⟩]⟩ := by
  obtain ⟨hnonces, hrequests, hsentTable, hsweeps, hsignatures⟩ := h
  refine ⟨?_, ?_, ?_, ?_, ?_⟩
  · simpa only [hpool, hcreatedTxs, hsubmitted] using hnonces
  · simpa only [hcreatedTxs, hcreated] using hrequests
  · simp only [hsent, hsubmitted, hsucceeded, hfailed]
    exact hsentTable.congr (fun _ _ => submits_append_of_ne hpayload) (fun _ => Iff.rfl)
      (fun _ => rfl) (fun _ h => h) (fun _ h => h)
  · simpa only [hsubmitted, hswept] using hsweeps
  · simpa only [hsubmitted, hsucceeded, hfailed] using hsignatures

/-- Every event keeps the tables. -/
theorem effect [SolanaSdk] (h : Tables ⟨state, log⟩) (heffect : state.Effect timestamp payload state') :
    Tables ⟨state', log ++ [⟨timestamp, payload⟩]⟩ := by
  cases heffect with
  | @upgrade args pool hpool hvalid =>
      have hparameters : Tables ⟨state.withParameters args, log ++ [⟨timestamp, .upgrade args⟩]⟩ :=
        frame h (by simp) rfl rfl rfl rfl rfl rfl rfl rfl
      refine { hparameters with nonces := ?_ }
      rcases hpool with ⟨-, rfl⟩ | ⟨texts, addresses, -, -, -, hadd⟩
      · exact h.nonces
      · exact h.nonces.addAccounts hadd
  | acceptedWithdrawal hnew => exact frame h (by simp) rfl rfl rfl rfl rfl rfl rfl rfl
  | createdWithdrawal haccount hunseen hmoved htotal hbalance hnew =>
      exact {
        nonces := h.nonces.bind haccount _ _
        requests := h.requests.create hmoved hnew _
        sent := h.sent.congr (fun _ _ => submits_append_of_ne (by simp)) (fun _ => Iff.rfl)
          (fun _ => rfl) (fun _ h => h) (fun _ h => h)
        sweeps := h.sweeps
        signatures := h.signatures }
  | sentWithdrawal hsucceeded hfailed hsubmitted hadvanced hcreated hbound hmoved =>
      exact {
        nonces := h.nonces.send hcreated hsubmitted _ _
        requests := h.requests.send hcreated hmoved
        sent := h.sent.send hsucceeded hfailed hsubmitted hmoved
        sweeps := h.sweeps.insert_withdrawal hsubmitted
        signatures := h.signatures.submit hsucceeded hfailed }
  | sweptDeposits hsucceeded hfailed hsubmitted hkey hsweep =>
      obtain ⟨taken, sweep, -, -, -, -, -, -, rfl⟩ := Deposits.sweep_eq_ok hsweep
      exact {
        nonces := h.nonces.congr_submitted fun _ _ _ _ _ => get_insert_sweep hsubmitted
        requests := h.requests
        sent := h.sent.congr (fun _ _ => submits_append_of_ne (by simp))
          (isWithdrawal_congr fun _ _ _ _ _ => get_insert_sweep hsubmitted)
          (fun _ => rfl) (fun _ h => h) (fun _ h => h)
        sweeps := h.sweeps.insert _ _
        signatures := h.signatures.submit hsucceeded hfailed }
  -- a final transaction leaves the submitted ones and frees its nonce account
  | succeededWithdrawal hfailed hsucceeded hremove haccount =>
      exact {
        nonces := h.nonces.conclude hremove
        requests := h.requests
        sent := h.sent.conclude hremove (fun _ _ => submits_append_of_ne (by simp))
          (fun _ hs => ExtTreeSet.mem_insert.mpr (.inr hs)) (fun _ h => h)
          (.inl ExtTreeSet.mem_insert_self) state.successfulWithdrawalRequests
        sweeps := h.sweeps.remove_withdrawal hremove
        signatures := h.signatures.succeed hfailed hremove }
  | succeededSweep hfailed hsucceeded hremove hfinalize =>
      obtain ⟨sweep, -, -, rfl⟩ := Deposits.finalizeSwept_eq_ok hfinalize
      have hget := (InsertionOrderedMap.remove_eq_some hremove).1
      exact {
        nonces := h.nonces.congr_submitted fun _ _ _ _ _ => get_remove_sweep hremove
        requests := h.requests
        sent := h.sent.congr (fun _ _ => submits_append_of_ne (by simp))
          (isWithdrawal_congr fun _ _ _ _ _ => get_remove_sweep hremove)
          (h.sent.finishSent_eq (by simp [IsWithdrawal, hget]) state.successfulWithdrawalRequests)
          (fun _ hs => ExtTreeSet.mem_insert.mpr (.inr hs)) (fun _ h => h)
        sweeps := h.sweeps.remove hremove
        signatures := h.signatures.succeed hfailed hremove }
  | failedWithdrawal hsucceeded hfailed hremove haccount =>
      exact {
        nonces := h.nonces.conclude hremove
        requests := h.requests
        sent := h.sent.conclude hremove (fun _ _ => submits_append_of_ne (by simp))
          (fun _ hs => hs) (fun _ hf => by rw [InsertionOrderedMap.get_insert]; grind)
          (.inr (by rw [InsertionOrderedMap.get_insert, if_pos rfl]; simp))
          state.failedWithdrawalRequests
        sweeps := h.sweeps.remove_withdrawal hremove
        signatures := h.signatures.fail hsucceeded hremove }
  | failedSweep hsucceeded hfailed hremove hdrop =>
      obtain ⟨sweep, -, -, rfl⟩ := Deposits.dropSwept_eq_ok hdrop
      have hget := (InsertionOrderedMap.remove_eq_some hremove).1
      exact {
        nonces := h.nonces.congr_submitted fun _ _ _ _ _ => get_remove_sweep hremove
        requests := h.requests
        sent := h.sent.congr (fun _ _ => submits_append_of_ne (by simp))
          (isWithdrawal_congr fun _ _ _ _ _ => get_remove_sweep hremove)
          (h.sent.finishSent_eq (by simp [IsWithdrawal, hget]) state.failedWithdrawalRequests)
          (fun _ hs => hs) (fun _ hf => by rw [InsertionOrderedMap.get_insert]; grind)
        sweeps := h.sweeps.remove hremove
        signatures := h.signatures.fail hsucceeded hremove }
  | expiredSweep hsucceeded hfailed hremove hdrop =>
      obtain ⟨sweep, -, -, rfl⟩ := Deposits.dropSwept_eq_ok hdrop
      exact {
        nonces := h.nonces.congr_submitted fun _ _ _ _ _ => get_remove_sweep hremove
        requests := h.requests
        sent := h.sent.congr (fun _ _ => submits_append_of_ne (by simp))
          (isWithdrawal_congr fun _ _ _ _ _ => get_remove_sweep hremove)
          (fun _ => rfl) (fun _ h => h) (fun _ h => h)
        sweeps := h.sweeps.remove hremove
        signatures := h.signatures.remove hremove }
  -- the tables are about transactions, which the remaining events leave alone
  | queuedDeposit hqueue =>
      obtain ⟨-, -, watchlist, -, rfl⟩ := Deposits.queue_eq_ok hqueue
      exact frame h (by simp) rfl rfl rfl rfl rfl rfl rfl rfl
  | creditedSweep hcredit hcovered hreceived =>
      obtain ⟨-, -, pendingMints, -, rfl⟩ := Deposits.creditSweep_eq_ok hcredit
      exact frame h (by simp) rfl rfl rfl rfl rfl rfl rfl rfl
  | quarantinedSweep hquarantine =>
      obtain ⟨sweep, -, rfl⟩ := Deposits.quarantineSweep_eq_ok hquarantine
      exact frame h (by simp) rfl rfl rfl rfl rfl rfl rfl rfl
  | keyFetched hkey => exact frame h (by simp) rfl rfl rfl rfl rfl rfl rfl rfl
  | minted hmint =>
      obtain ⟨pending, -, -, rfl⟩ := Deposits.mint_eq_ok hmint
      exact frame h (by simp) rfl rfl rfl rfl rfl rfl rfl rfl
  | quarantinedPendingMint hquarantine =>
      obtain ⟨pending, -, rfl⟩ := Deposits.quarantinePendingMint_eq_ok hquarantine
      exact frame h (by simp) rfl rfl rfl rfl rfl rfl rfl rfl

/-- The tables of a fresh canister are empty. -/
theorem of_init [SolanaSdk] {canister : Canister} {args : InitArgs} {now : Timestamp}
    (h : Canister.init args now = .ok canister) : canister.Tables := by
  obtain ⟨_, pool, hpool, -, rfl⟩ := Canister.exists_of_init h
  obtain ⟨-, -, hget⟩ := DurableNoncePool.addAccounts_eq_ok hpool
  have hrefers {account : Address} {reference : NonceReference} :
      ¬ RefersTo (∅ : OrdMap Address CreatedWithdrawalTransaction) .new account reference := by
    cases reference <;> simp [RefersTo]
  refine ⟨⟨?_, ?_, ?_⟩, ⟨?_, ?_, ?_, ?_⟩, ⟨?_, ?_, ?_, ?_⟩, ?_, ⟨?_, ?_, ?_⟩⟩
  · intro account reference reference' hr
    exact absurd hr hrefers
  · intro account reference hr
    exact absurd hr hrefers
  · intro account seen hseen
    rw [State.initial_noncePool, hget] at hseen
    split at hseen
    · simp [NonceAccount.default] at hseen
    · simp [DurableNoncePool.empty] at hseen
  all_goals simp [IsWithdrawal, Submits, SweepTable, Deposits.default, Sweeps.empty]

/-- A run keeps the tables. -/
theorem run [SolanaSdk] {Emits : State → Timestamp → EventType → Prop} {canister canister' : Canister}
    (h : canister.Tables) (hrun : Canister.Run Emits canister canister') : canister'.Tables := by
  refine hrun.invariant Tables ?_ ?_ h
  · intro canister transient h
    exact ⟨h.nonces, h.requests, h.sent, h.sweeps, h.signatures⟩
  · intro state log now payload state' _ h heffect
    exact h.effect heffect

end Canister.Tables

/-! ## The pool and the seen values grow -/

namespace DurableNoncePool

/-- Every account stays in the pool, with at least the values it had seen. -/
def Grows (pool pool' : DurableNoncePool) : Prop :=
  ∀ (address : Address) (account : NonceAccount), pool.accounts[address]? = some account →
    ∃ account', pool'.accounts[address]? = some account' ∧
      ∀ value ∈ account.seenNonceValues, value ∈ account'.seenNonceValues

theorem Grows.refl (pool : DurableNoncePool) : pool.Grows pool :=
  fun _ account h => ⟨account, h, fun _ hv => hv⟩

theorem Grows.trans {pool pool' pool'' : DurableNoncePool} (h : pool.Grows pool')
    (h' : pool'.Grows pool'') : pool.Grows pool'' := by
  intro address account haccount
  obtain ⟨account', haccount', hseen⟩ := h address account haccount
  obtain ⟨account'', haccount'', hseen'⟩ := h' address account' haccount'
  exact ⟨account'', haccount'', fun value hv => hseen' value (hseen value hv)⟩

/-- One account changes its state and may see more. -/
theorem grows_insert {pool : DurableNoncePool} {address : Address} {account account' : NonceAccount}
    (h : pool.accounts[address]? = some account)
    (hseen : ∀ value ∈ account.seenNonceValues, value ∈ account'.seenNonceValues) :
    pool.Grows ⟨pool.accounts.insert address account'⟩ := by
  intro a old hold
  simp only [OrdMap.getElem?_insert_eq]
  split
  case isTrue heq =>
    subst heq
    obtain rfl := Option.some.inj (h.symm.trans hold)
    exact ⟨account', rfl, hseen⟩
  case isFalse => exact ⟨old, hold, fun _ hv => hv⟩

theorem grows_addAccounts {pool pool' : DurableNoncePool} {addresses : List Address}
    (h : pool.addAccounts addresses = .ok pool') : pool.Grows pool' := by
  obtain ⟨-, hnew, hget⟩ := addAccounts_eq_ok h
  intro a old hold
  have ha : a ∉ addresses := fun hmem => by simp [hnew a hmem] at hold
  exact ⟨old, by rw [hget, if_neg ha, hold], fun _ hv => hv⟩

end DurableNoncePool

theorem State.grows_of_effect [SolanaSdk] {state state' : State} {timestamp : Timestamp}
    {payload : EventType} (h : state.Effect timestamp payload state') :
    state.noncePool.Grows state'.noncePool := by
  cases h with
  | upgrade hpool hvalid =>
      rcases hpool with ⟨-, rfl⟩ | ⟨texts, addresses, -, -, -, hadd⟩
      · exact .refl _
      · exact DurableNoncePool.grows_addAccounts hadd
  | createdWithdrawal haccount hunseen hmoved htotal hbalance hnew =>
      exact DurableNoncePool.grows_insert haccount fun _ hv => ExtTreeSet.mem_insert.mpr (.inr hv)
  | succeededWithdrawal hfailed hsucceeded hremove haccount =>
      exact DurableNoncePool.grows_insert haccount fun _ hv => hv
  | failedWithdrawal hsucceeded hfailed hremove haccount =>
      exact DurableNoncePool.grows_insert haccount fun _ hv => hv
  | _ => exact .refl _

theorem Canister.Run.grows [SolanaSdk] {Emits : State → Timestamp → EventType → Prop}
    {canister canister' : Canister} (h : Canister.Run Emits canister canister') :
    canister.state.noncePool.Grows canister'.state.noncePool := by
  refine h.invariant (fun reached => canister.state.noncePool.Grows reached.state.noncePool) ?_ ?_
    (.refl _)
  · intro reached transient hgrows
    exact hgrows
  · intro state log now payload state' _ hgrows heffect
    exact hgrows.trans (State.grows_of_effect heffect)

end Cksol
