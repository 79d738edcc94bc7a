import PendantClient.Lib.Transition

/-! Runs whose length a potential bounds. Steps of a system's own use the potential up, and what comes from outside may raise it;
    where a system that has not ended can always take a step of its own, it can be brought to its end. -/

namespace Transition
variable {σ α ω : Type}

/-- Own steps lower the potential, and any other step raises it by at most `k` for each thing that comes with it. -/
structure Pays (step : σ → α → Option σ) (potential : σ → Nat) (own : α → Bool) (g : σ → α → List ω) (k : Nat) : Prop where
  spend : ∀ s a t, own a = true → step s a = some t → potential t < potential s
  bring : ∀ s a t, own a = false → step s a = some t → potential t ≤ potential s + k * (g s a).length

variable {step : σ → α → Option σ} {potential : σ → Nat} {own : α → Bool} {g : σ → α → List ω} {k : Nat} {s t : σ} {acts : List α}

/-- A run makes no more own steps than the potential and what has come from outside pay for. -/
theorem Pays.run (h : Pays step potential own g k) (hrun : run step s acts = some t) :
    acts.countP own + potential t ≤ potential s + k * (outputs step g s acts).length := by
  induction acts generalizing s with
  | nil =>
    cases hrun
    simp [outputs]
  | cons a acts ih =>
    obtain ⟨u, hstep, hrun⟩ := run_cons.mp hrun
    have hrest := ih hrun
    rw [outputs, hstep, Option.map_some, Option.getD_some, List.length_append, Nat.mul_add, List.countP_cons]
    cases ha : own a with
    | true =>
      have hlower := h.spend s a u ha hstep
      rw [if_pos rfl]
      omega
    | false =>
      have hraise := h.bring s a u ha hstep
      rw [if_neg Bool.false_ne_true]
      omega

/-- Where a state that has not ended takes an own step that meets the condition, a run of such steps leads to an end, and keeps
    what they keep. -/
theorem Pays.exists_end (h : Pays step potential own g k) {P E : σ → Prop} {C : α → Prop}
    (keep : ∀ s a t, C a → P s → step s a = some t → P t)
    (progress : ∀ s, P s → ¬E s → ∃ a t, C a ∧ own a = true ∧ step s a = some t) (hs : P s) :
    ∃ more t, (∀ a ∈ more, C a) ∧ Transition.run step s more = some t ∧ P t ∧ E t := by
  -- on the potential, which every own step lowers
  induction hpotential : potential s using Nat.strongRecOn generalizing s with
  | ind n ih =>
    by_cases hended : E s
    · exact ⟨[], s, fun _ ha => absurd ha List.not_mem_nil, rfl, hs, hended⟩
    · obtain ⟨a, u, ha, hown, hstep⟩ := progress s hs hended
      obtain ⟨more, t, hmore, hrun, hend⟩ := ih (potential u) (hpotential ▸ h.spend s a u hown hstep) (keep s a u ha hs hstep) rfl
      refine ⟨a :: more, t, fun b hb => ?_, run_cons.mpr ⟨u, hstep, hrun⟩, hend⟩
      rcases List.mem_cons.mp hb with rfl | hb
      · exact ha
      · exact hmore b hb

end Transition
