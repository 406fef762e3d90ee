import Mathlib.Algebra.GroupWithZero.Nat
import Mathlib.Tactic.Basic
import Mathlib.Data.List.Forall2

/-! # Computations that may stop

`Except ε` read through its successful results. A panicking statement of the source is a `check` or
an `orPanic`; a loop with early exit is `List.foldlM`, whose rule carries an invariant along the
processed prefix.
-/

namespace Cksol

universe u

variable {ε α β σ : Type u} {f : α → Except ε β} {l : List α} {x : Except ε α} {l' : List β} {a : α}
  {b : β} {e : ε}

/-- Continue only when the condition holds, as `assert!` does. -/
def check (condition : Prop) [Decidable condition] (panic : ε) : Except ε PUnit.{u + 1} :=
  if condition then .ok ⟨⟩ else .error panic

/-- The value, or the panic of `unwrap_or_else` and `expect`. -/
def orPanic (value : Option α) (panic : ε) : Except ε α :=
  match value with
  | some a => .ok a
  | none => .error panic

@[simp] theorem check_eq_ok {condition : Prop} [Decidable condition] {panic : ε} {u : PUnit} :
    check condition panic = .ok u ↔ condition := by
  unfold check
  split <;> simp_all

@[simp] theorem orPanic_eq_ok {value : Option α} {panic : ε} :
    orPanic value panic = .ok a ↔ value = some a := by
  cases value <;> simp [orPanic]

@[simp] theorem bind_eq_ok : (x >>= f) = .ok b ↔ ∃ a, x = .ok a ∧ f a = .ok b := by
  cases x <;> simp [bind, Except.bind]

@[simp] theorem pure_eq_ok {a b : α} : (pure a : Except ε α) = .ok b ↔ a = b := by
  simp [pure, Except.pure]

@[simp] theorem map_eq_ok {f : α → β} : x.map f = .ok b ↔ ∃ a, x = .ok a ∧ f a = b := by
  cases x <;> simp [Except.map]

@[simp] theorem mapError_eq_ok {ε' : Type u} {f : ε → ε'} : x.mapError f = .ok a ↔ x = .ok a := by
  cases x <;> simp [Except.mapError]

theorem toOption_eq_some : x.toOption = some a ↔ x = .ok a := by
  cases x <;> simp [Except.toOption]

theorem check_eq_error {condition : Prop} [Decidable condition] {panic e : ε} :
    (check condition panic : Except ε PUnit.{u + 1}) = .error e ↔ ¬ condition ∧ panic = e := by
  unfold check
  split <;> simp [*]

theorem orPanic_eq_error {value : Option α} {panic e : ε} :
    orPanic value panic = .error e ↔ value = none ∧ panic = e := by
  cases value <;> simp [orPanic]

theorem bind_eq_error : (x >>= f) = .error e ↔ x = .error e ∨ ∃ a, x = .ok a ∧ f a = .error e := by
  cases x <;> simp [bind, Except.bind]

theorem mapError_eq_error {ε' : Type u} {f : ε → ε'} {e : ε'} :
    x.mapError f = .error e ↔ ∃ e', x = .error e' ∧ f e' = e := by
  cases x <;> simp [Except.mapError]

theorem exists_eq_ok_of_isOk (h : x.isOk = true) : ∃ a, x = .ok a := by
  cases x with
  | ok a => exact ⟨a, rfl⟩
  | error => cases h

theorem map_bind {γ : Type u} (x : Except ε α) (f : α → Except ε β) (g : β → γ) :
    (x >>= f).map g = x >>= fun a => (f a).map g := by
  cases x <;> rfl

theorem map_pure (a : α) (f : α → β) : (pure a : Except ε α).map f = pure (f a) := rfl

/-- A function that commutes with every iteration of a loop commutes with the loop. -/
theorem foldlM_map {f : σ → α → Except ε σ} {g : σ → σ}
    (hstep : ∀ s a, f (g s) a = (f s a).map g) (s : σ) (l : List α) :
    l.foldlM f (g s) = (l.foldlM f s).map g := by
  induction l generalizing s with
  | nil => rfl
  | cons a l ih =>
      rw [List.foldlM_cons, List.foldlM_cons, hstep, map_bind]
      cases f s a with
      | error => rfl
      | ok s' => exact ih s'

theorem forall₂_of_mapM_eq_ok (h : l.mapM f = .ok l') :
    List.Forall₂ (fun a b => f a = .ok b) l l' := by
  induction l generalizing l' with
  | nil =>
      rw [List.mapM_nil, pure_eq_ok] at h
      rw [← h]
      exact .nil
  | cons a l ih =>
      simp only [List.mapM_cons, bind_eq_ok, pure_eq_ok] at h
      obtain ⟨b, hb, rest, hrest, rfl⟩ := h
      exact .cons hb (ih hrest)

/-- The result at a position is that of the element there. -/
theorem getElem?_of_mapM_eq_ok (h : l.mapM f = .ok l') {i : ℕ} (hi : l[i]? = some a) :
    ∃ b, l'[i]? = some b ∧ f a = .ok b := by
  have hall := forall₂_of_mapM_eq_ok h
  clear h
  induction hall generalizing i with
  | nil => simp at hi
  | @cons a' b l l' hab _ ih =>
      cases i with
      | zero =>
          obtain rfl := Option.some.inj hi
          exact ⟨b, rfl, hab⟩
      | succ i => exact ih hi

/-- A computation that yields what a test accepts. -/
theorem exists_of_any {o : Option α} {P : α → Prop} [DecidablePred P] (h : o.any (P ·) = true) :
    ∃ a, o = some a ∧ P a := by
  obtain ⟨a, ha, hP⟩ := (Option.any_eq_true _ _).mp h
  exact ⟨a, ha, of_decide_eq_true hP⟩

theorem exists_left_of_forall₂ {R : α → β → Prop} (h : List.Forall₂ R l l') {b : β}
    (hb : b ∈ l') : ∃ a ∈ l, R a b := by
  induction h with
  | nil => cases hb
  | @cons a b' l l' hab _ ih =>
      rcases List.mem_cons.mp hb with rfl | hb
      · exact ⟨a, List.mem_cons_self, hab⟩
      · obtain ⟨a', ha', hR⟩ := ih hb
        exact ⟨a', List.mem_cons_of_mem _ ha', hR⟩

theorem mem_of_mapM_eq_ok (h : l.mapM f = .ok l') (hb : b ∈ l') : ∃ a ∈ l, f a = .ok b :=
  exists_left_of_forall₂ (forall₂_of_mapM_eq_ok h) hb

theorem exists_mapM_eq_ok (h : ∀ a ∈ l, ∃ b, f a = .ok b) : ∃ l', l.mapM f = .ok l' := by
  induction l with
  | nil => exact ⟨[], List.mapM_nil⟩
  | cons a l ih =>
      obtain ⟨⟨b, hb⟩, hrest⟩ := List.forall_mem_cons.mp h
      obtain ⟨l', hl'⟩ := ih hrest
      refine ⟨b :: l', ?_⟩
      simp only [List.mapM_cons, bind_eq_ok, pure_eq_ok]
      exact ⟨b, hb, l', hl', rfl⟩

theorem mapM_eq_ok_map {g : α → β} (h : ∀ a ∈ l, f a = .ok (g a)) : l.mapM f = .ok (l.map g) := by
  induction l with
  | nil => exact List.mapM_nil
  | cons a l ih =>
      obtain ⟨ha, hrest⟩ := List.forall_mem_cons.mp h
      simp only [List.mapM_cons, bind_eq_ok, pure_eq_ok]
      exact ⟨g a, ha, l.map g, ih hrest, rfl⟩

theorem mem_of_mapM_eq_error (h : l.mapM f = .error e) : ∃ a ∈ l, f a = .error e := by
  induction l with
  | nil => cases h
  | cons a l ih =>
      rw [List.mapM_cons, bind_eq_error] at h
      rcases h with ha | ⟨b, -, hrest⟩
      · exact ⟨a, List.mem_cons_self, ha⟩
      · rcases bind_eq_error.mp hrest with hrest | ⟨_, -, hpure⟩
        · obtain ⟨a', ha', hf⟩ := ih hrest
          exact ⟨a', List.mem_cons_of_mem _ ha', hf⟩
        · cases hpure

/-- A loop that only checks ends well exactly when every check does. -/
theorem forM_eq_ok {f : α → Except ε PUnit.{u + 1}} :
    l.forM f = .ok ⟨⟩ ↔ ∀ a ∈ l, f a = .ok ⟨⟩ := by
  induction l with
  | nil => simp [pure, Except.pure]
  | cons a l ih =>
      show (f a >>= fun _ => l.forM f) = .ok ⟨⟩ ↔ _
      rw [bind_eq_ok, List.forall_mem_cons]
      constructor
      · rintro ⟨⟨⟩, ha, hl⟩
        exact ⟨ha, ih.mp hl⟩
      · rintro ⟨ha, hl⟩
        exact ⟨⟨⟩, ha, ih.mpr hl⟩

/-- Loop rule: an invariant of the processed prefix and the accumulator, established at the start and
kept by every iteration, holds of the whole list when the loop ends without an early exit. -/
theorem foldlM_invariant {f : σ → α → Except ε σ} (P : List α → σ → Prop) {s s' : σ}
    (hinit : P [] s) (hstep : ∀ done s a s', P done s → f s a = .ok s' → P (done ++ [a]) s')
    (h : l.foldlM f s = .ok s') : P l s' := by
  suffices key : ∀ done s, P done s → l.foldlM f s = .ok s' → P (done ++ l) s' by
    simpa using key [] s hinit h
  clear hinit h
  induction l with
  | nil =>
      intro done s hP h
      simp only [List.foldlM_nil, pure_eq_ok] at h
      simpa [h] using hP
  | cons a l ih =>
      intro done s hP h
      rw [List.foldlM_cons, bind_eq_ok] at h
      obtain ⟨s₁, h₁, h₂⟩ := h
      simpa using ih (done ++ [a]) s₁ (hstep done s a s₁ hP h₁) h₂

/-- A loop that exits early stops at one element, after the elements before it went through. -/
theorem exists_of_foldlM_eq_error {f : σ → α → Except ε σ} {s : σ} (h : l.foldlM f s = .error e) :
    ∃ done a rest s', l = done ++ a :: rest ∧ done.foldlM f s = .ok s' ∧ f s' a = .error e := by
  induction l generalizing s with
  | nil => cases h
  | cons a l ih =>
      rw [List.foldlM_cons, bind_eq_error] at h
      rcases h with ha | ⟨s₁, hs₁, hl⟩
      · exact ⟨[], a, l, s, rfl, List.foldlM_nil, ha⟩
      · obtain ⟨done, b, rest, s', rfl, hdone, hb⟩ := ih hl
        refine ⟨a :: done, b, rest, s', rfl, ?_, hb⟩
        rw [List.foldlM_cons, bind_eq_ok]
        exact ⟨s₁, hs₁, hdone⟩

/-- Loop rule: when an invariant of the accumulator and what remains lets every iteration succeed, the
loop ends without an early exit. -/
theorem exists_foldlM_eq_ok {f : σ → α → Except ε σ} (P : List α → σ → Prop) {s : σ} (hinit : P l s)
    (hstep : ∀ a rest s, P (a :: rest) s → ∃ s', f s a = .ok s' ∧ P rest s') :
    ∃ s', l.foldlM f s = .ok s' := by
  induction l generalizing s with
  | nil => exact ⟨s, List.foldlM_nil⟩
  | cons a l ih =>
      obtain ⟨s₁, h₁, hrest⟩ := hstep a l s hinit
      obtain ⟨s', hs'⟩ := ih hrest
      exact ⟨s', by rw [List.foldlM_cons, bind_eq_ok]; exact ⟨s₁, h₁, hs'⟩⟩

end Cksol
