import Cksol.Common.Fallible

/-! # What the steps of a loop register

Each step of a loop registers some items. When the states know exactly the items that were registered on
the way to them, nothing is registered twice exactly when every step registers items that its state does
not know.
-/

namespace Cksol

universe u v

variable {ε σ ι : Type u} {α : Type v} {step : σ → ι → Except ε σ} {s s' : σ} {inputs : List ι}

/-- The inputs of a loop, each with the state in which it is processed. -/
def trace (step : σ → ι → Except ε σ) : σ → List ι → List (σ × ι)
  | _, [] => []
  | s, i :: inputs =>
      (s, i) :: match step s i with
        | .ok s' => trace step s' inputs
        | .error _ => []

theorem trace_cons {i : ι} (h : step s i = .ok s') :
    trace step s (i :: inputs) = (s, i) :: trace step s' inputs := by
  rw [trace, h]

/-- A loop that ends has processed all of its inputs. -/
theorem map_snd_trace (h : inputs.foldlM step s = .ok s') :
    (trace step s inputs).map Prod.snd = inputs := by
  induction inputs generalizing s with
  | nil => rfl
  | cons i inputs ih =>
      rw [List.foldlM_cons, bind_eq_ok] at h
      obtain ⟨s₁, hstep, hrest⟩ := h
      rw [trace_cons hstep, List.map_cons, ih hrest]

/-- What is registered whatever the state is can be read off the inputs. -/
theorem flatMap_trace (h : inputs.foldlM step s = .ok s') (f : ι → List α) :
    ((trace step s inputs).flatMap fun entry => f entry.2) = inputs.flatMap f := by
  rw [← List.flatMap_map, map_snd_trace h]

/-- Under the invariant, a step registers distinct items, and the state after it knows these besides
those that were known before. -/
structure Registry (step : σ → ι → Except ε σ) (Inv : σ → Prop) (registers : σ → ι → List α)
    (Known : σ → α → Prop) : Prop where
  invariant : ∀ {s i s'}, Inv s → step s i = .ok s' → Inv s'
  nodup : ∀ {s i s'}, Inv s → step s i = .ok s' → (registers s i).Nodup
  known_iff : ∀ {s i s'}, Inv s → step s i = .ok s' →
    ∀ a, Known s' a ↔ Known s a ∨ a ∈ registers s i

namespace Registry

variable {Inv : σ → Prop} {registers : σ → ι → List α} {Known : σ → α → Prop}

/-- The induction is on the inputs, for any state that the loop may start in. -/
theorem nodup_and_unknown_iff (h : Registry step Inv registers Known) (hinv : Inv s)
    (hrun : inputs.foldlM step s = .ok s') :
    (((trace step s inputs).flatMap fun entry => registers entry.1 entry.2).Nodup ∧
        ∀ a ∈ (trace step s inputs).flatMap fun entry => registers entry.1 entry.2, ¬ Known s a) ↔
      ∀ entry ∈ trace step s inputs, ∀ a ∈ registers entry.1 entry.2, ¬ Known entry.1 a := by
  induction inputs generalizing s with
  | nil => simp [trace]
  | cons i inputs ih =>
      rw [List.foldlM_cons, bind_eq_ok] at hrun
      obtain ⟨s₁, hstep, hrest⟩ := hrun
      have hnodup := h.nodup hinv hstep
      have hknown := h.known_iff hinv hstep
      rw [trace_cons hstep, List.flatMap_cons, List.forall_mem_cons, ← ih (h.invariant hinv hstep) hrest,
        List.nodup_append]
      simp only [List.mem_append, hknown]
      constructor
      · rintro ⟨⟨-, hrestNodup, hdisjoint⟩, hnew⟩
        refine ⟨fun a ha => hnew a (.inl ha), hrestNodup, fun a ha => ?_⟩
        rintro (hold | hmem)
        · exact hnew a (.inr ha) hold
        · exact hdisjoint a hmem a ha rfl
      · rintro ⟨hnew, hrestNodup, hrestNew⟩
        refine ⟨⟨hnodup, hrestNodup, fun a ha b hb heq => hrestNew b hb (.inr (heq ▸ ha))⟩, ?_⟩
        rintro a (ha | ha)
        · exact hnew a ha
        · exact fun hold => hrestNew a ha (.inl hold)

/-- From a state that knows nothing, nothing is registered twice exactly when every step registers
unknown items. -/
theorem nodup_iff (h : Registry step Inv registers Known) (hinv : Inv s) (hnone : ∀ a, ¬ Known s a)
    (hrun : inputs.foldlM step s = .ok s') :
    ((trace step s inputs).flatMap fun entry => registers entry.1 entry.2).Nodup ↔
      ∀ entry ∈ trace step s inputs, ∀ a ∈ registers entry.1 entry.2, ¬ Known entry.1 a := by
  rw [← h.nodup_and_unknown_iff hinv hrun, and_iff_left]
  exact fun a _ => hnone a

/-- The states of the trace satisfy the invariant, and their steps succeed. -/
theorem trace_spec (h : Registry step Inv registers Known) (hinv : Inv s)
    (hrun : inputs.foldlM step s = .ok s') :
    ∀ entry ∈ trace step s inputs, Inv entry.1 ∧ ∃ s₁, step entry.1 entry.2 = .ok s₁ := by
  induction inputs generalizing s with
  | nil => simp [trace]
  | cons i inputs ih =>
      rw [List.foldlM_cons, bind_eq_ok] at hrun
      obtain ⟨s₁, hstep, hrest⟩ := hrun
      rw [trace_cons hstep, List.forall_mem_cons]
      exact ⟨⟨hinv, s₁, hstep⟩, ih (h.invariant hinv hstep) hrest⟩

end Registry

end Cksol
