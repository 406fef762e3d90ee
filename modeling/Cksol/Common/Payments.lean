import Mathlib.Logic.Function.Basic
import Cksol.Common.Sums

/-! # Payments between accounts

Payments are executed one after the other on the balances of accounts; one that the balance of its
source does not cover fails them all. When all payments go to one account, what every other account
pays is the sum of its payments, in whatever order they come; when all come from one account, so is
what every other account receives.
-/

namespace Cksol

variable {α : Type}

/-- An amount that goes from one account to another. -/
structure Payment (α : Type) where
  source : α
  target : α
  amount : ℕ

/-- What an account pays in total. -/
def outgoing [DecidableEq α] (payments : List (Payment α)) (account : α) : ℕ :=
  sumWhere (fun payment => payment.source = account) Payment.amount payments

/-- A payment fails if the source does not hold the amount. -/
def pay [DecidableEq α] (balances : α → ℕ) (payment : Payment α) : Option (α → ℕ) :=
  if payment.amount ≤ balances payment.source then
    let debited := Function.update balances payment.source
      (balances payment.source - payment.amount)
    some (Function.update debited payment.target (debited payment.target + payment.amount))
  else none

/-- Payments are made one after the other, all of them or none. -/
def payAll [DecidableEq α] (balances : α → ℕ) (payments : List (Payment α)) : Option (α → ℕ) :=
  payments.foldlM pay balances

section OneTarget

variable [DecidableEq α] {balances balances' : α → ℕ} {payment : Payment α}
  {payments : List (Payment α)} {target : α}

/-- A payment from another account to the target. -/
theorem pay_eq_some (htarget : payment.target = target) (hsource : payment.source ≠ target)
    (h : pay balances payment = some balances') :
    (∀ account ≠ target, balances' account + outgoing [payment] account = balances account) ∧
      balances' target = balances target + payment.amount := by
  simp only [pay, Option.ite_none_right_eq_some, Option.some.injEq] at h
  obtain ⟨hle, rfl⟩ := h
  subst htarget
  refine ⟨fun account haccount => ?_, ?_⟩
  · rw [Function.update_of_ne haccount, outgoing, sumWhere_cons]
    by_cases heq : payment.source = account
    · subst heq
      simp only [Function.update_self, decide_true, if_true, sumWhere, List.filter_nil, List.map_nil,
        List.sum_nil]
      omega
    · rw [Function.update_of_ne (Ne.symm heq)]
      simp [heq, sumWhere]
  · rw [Function.update_self, Function.update_of_ne (Ne.symm hsource)]

theorem outgoing_cons (payment : Payment α) (payments : List (Payment α)) (account : α) :
    outgoing (payment :: payments) account = outgoing [payment] account + outgoing payments account :=
  sumWhere_append _ _ [payment] payments

theorem outgoing_eq_zero {account : α} (h : account ∉ payments.map Payment.source) :
    outgoing payments account = 0 := by
  have hnone : payments.filter (fun payment => payment.source = account) = [] := by
    refine List.filter_eq_nil_iff.mpr fun payment hpayment heq => h ?_
    exact of_decide_eq_true heq ▸ List.mem_map_of_mem hpayment
  rw [outgoing, sumWhere, hnone]
  rfl

/-- An account that makes one payment pays its amount. -/
theorem outgoing_of_nodup (hnodup : (payments.map Payment.source).Nodup) (hmem : payment ∈ payments) :
    outgoing payments payment.source = payment.amount := by
  induction payments with
  | nil => cases hmem
  | cons first payments ih =>
      obtain ⟨hfirst, hnodup⟩ := List.nodup_cons.mp hnodup
      rw [outgoing, sumWhere_cons]
      rcases List.mem_cons.mp hmem with rfl | hmem
      · rw [decide_eq_true rfl, if_pos rfl]
        exact (congrArg (payment.amount + ·) (outgoing_eq_zero hfirst)).trans (Nat.add_zero _)
      · have hne : first.source ≠ payment.source :=
          fun heq => hfirst (heq ▸ List.mem_map_of_mem hmem)
        rw [decide_eq_false hne, if_neg Bool.false_ne_true, Nat.zero_add]
        exact ih hnodup hmem

theorem payAll_eq_some
    (hpayments : ∀ payment ∈ payments, payment.target = target ∧ payment.source ≠ target)
    (h : payAll balances payments = some balances') :
    (∀ account ≠ target, balances' account + outgoing payments account = balances account) ∧
      balances' target = balances target + (payments.map Payment.amount).sum := by
  induction payments generalizing balances with
  | nil =>
      obtain rfl := Option.some.inj h
      exact ⟨fun _ _ => rfl, rfl⟩
  | cons payment payments ih =>
      obtain ⟨⟨htarget, hsource⟩, hrest⟩ := List.forall_mem_cons.mp hpayments
      rw [payAll, List.foldlM_cons, Option.bind_eq_bind, Option.bind_eq_some_iff] at h
      obtain ⟨middle, hpay, hpayAll⟩ := h
      obtain ⟨hothers, hpaid⟩ := pay_eq_some htarget hsource hpay
      obtain ⟨hothers', hpaid'⟩ := ih hrest hpayAll
      refine ⟨fun account haccount => ?_, ?_⟩
      · have hfirst := hothers account haccount
        have hlater := hothers' account haccount
        rw [outgoing_cons]
        omega
      · rw [List.map_cons, List.sum_cons]
        omega

/-- The payments succeed when every account covers its own. -/
theorem exists_payAll
    (hpayments : ∀ payment ∈ payments, payment.target = target ∧ payment.source ≠ target)
    (h : ∀ account ≠ target, outgoing payments account ≤ balances account) :
    ∃ balances', payAll balances payments = some balances' := by
  induction payments generalizing balances with
  | nil => exact ⟨balances, rfl⟩
  | cons payment payments ih =>
      obtain ⟨⟨htarget, hsource⟩, hrest⟩ := List.forall_mem_cons.mp hpayments
      have hcovers : payment.amount ≤ balances payment.source := by
        have hle := h _ hsource
        rw [outgoing_cons, outgoing, sumWhere_cons] at hle
        simp only [decide_true, if_true] at hle
        omega
      obtain ⟨middle, hpay⟩ : ∃ middle, pay balances payment = some middle := ⟨_, if_pos hcovers⟩
      obtain ⟨hothers, -⟩ := pay_eq_some htarget hsource hpay
      have hleft : ∀ account ≠ target, outgoing payments account ≤ middle account := by
        intro account haccount
        have hle := h account haccount
        have hfirst := hothers account haccount
        rw [outgoing_cons] at hle
        omega
      obtain ⟨balances', hpayAll⟩ := ih hrest hleft
      refine ⟨balances', ?_⟩
      rw [payAll, List.foldlM_cons, hpay]
      exact hpayAll

end OneTarget

/-- What an account receives in total. -/
def incoming [DecidableEq α] (payments : List (Payment α)) (account : α) : ℕ :=
  sumWhere (fun payment => payment.target = account) Payment.amount payments

section OneSource

variable [DecidableEq α] {balances : α → ℕ} {payment : Payment α} {payments : List (Payment α)}
  {source : α}

theorem incoming_cons (payment : Payment α) (payments : List (Payment α)) (account : α) :
    incoming (payment :: payments) account =
      (if payment.target = account then payment.amount else 0) + incoming payments account := by
  rw [incoming, sumWhere_cons]
  simp [incoming]

/-- A payment to another account that the source covers. -/
theorem exists_pay (htarget : payment.target ≠ payment.source)
    (hcovers : payment.amount ≤ balances payment.source) :
    ∃ balances', pay balances payment = some balances' ∧
      balances' payment.source + payment.amount = balances payment.source ∧
      ∀ account ≠ payment.source, balances' account =
        balances account + if payment.target = account then payment.amount else 0 := by
  refine ⟨_, if_pos hcovers, ?_, fun account haccount => ?_⟩
  · rw [Function.update_of_ne (Ne.symm htarget), Function.update_self]
    omega
  · by_cases heq : payment.target = account
    · subst heq
      rw [Function.update_self, Function.update_of_ne haccount, if_pos rfl]
    · rw [Function.update_of_ne (Ne.symm heq), Function.update_of_ne haccount, if_neg heq, Nat.add_zero]

/-- Payments of one account succeed when it covers their sum. -/
theorem exists_payAll_of_source
    (hpayments : ∀ payment ∈ payments, payment.source = source ∧ payment.target ≠ source)
    (hcovers : (payments.map Payment.amount).sum ≤ balances source) :
    ∃ balances', payAll balances payments = some balances' ∧
      balances' source + (payments.map Payment.amount).sum = balances source ∧
      ∀ account ≠ source, balances' account = balances account + incoming payments account := by
  induction payments generalizing balances with
  | nil => exact ⟨balances, rfl, rfl, fun _ _ => rfl⟩
  | cons payment payments ih =>
      obtain ⟨⟨rfl, htarget⟩, hrest⟩ := List.forall_mem_cons.mp hpayments
      rw [List.map_cons, List.sum_cons] at hcovers ⊢
      have hfirst : payment.amount ≤ balances payment.source := by omega
      obtain ⟨middle, hpay, hpaid, hreceived⟩ := exists_pay htarget hfirst
      have hleft : (payments.map Payment.amount).sum ≤ middle payment.source := by omega
      obtain ⟨balances', hpayAll, hsource, hothers⟩ := ih hrest hleft
      refine ⟨balances', ?_, by omega, fun account haccount => ?_⟩
      · rw [payAll, List.foldlM_cons, hpay]
        exact hpayAll
      · rw [hothers account haccount, hreceived account haccount, incoming_cons, Nat.add_assoc]

end OneSource

end Cksol
