import Mathlib.Data.List.Induction

/-! Runs of a transition system given by a partial step function: `none` is a step the state does not
    take. Invariants pass from one step to a whole run, also when they hold only for steps that meet a
    condition. -/

namespace Transition
variable {σ α : Type} (step : σ → α → Option σ)

/-- The state after the steps, in order. -/
def run : σ → List α → Option σ
  | s, [] => some s
  | s, a :: rest => (step s a).bind fun t => run t rest

/-- Every step of the run meets the condition in the state it starts from. -/
def Meets (cond : σ → α → Prop) (s : σ) (acts : List α) : Prop :=
  ∀ pre a post t, acts = pre ++ a :: post → run step s pre = some t → cond t a

/-- A step of the run met the condition in the state it started from. -/
def Happens (cond : σ → α → Prop) (s : σ) (acts : List α) : Prop :=
  ∃ pre a post t, acts = pre ++ a :: post ∧ run step s pre = some t ∧ cond t a

/-- What the steps of a run give out, in order, when a step `a` from `s` gives out `g s a`. -/
def outputs {ω : Type} (g : σ → α → List ω) : σ → List α → List ω
  | _, [] => []
  | s, a :: rest => g s a ++ ((step s a).map fun t => outputs g t rest).getD []

variable {step} {s t u : σ} {a : α} {acts acts' : List α}

theorem run_cons : run step s (a :: acts) = some u ↔ ∃ t, step s a = some t ∧ run step t acts = some u := by
  rw [run, Option.bind_eq_some_iff]

theorem run_append : run step s (acts ++ acts') = (run step s acts).bind fun t => run step t acts' := by
  induction acts generalizing s with
  | nil => rfl
  | cons a acts ih =>
    rw [List.cons_append, run, run, Option.bind_assoc]
    congr 1
    funext t
    exact ih

theorem run_append_of (h : run step s acts = some t) : run step s (acts ++ acts') = run step t acts' := by
  rw [run_append, h]
  rfl

theorem run_snoc (h : run step s acts = some t) (ha : step t a = some u) : run step s (acts ++ [a]) = some u := by
  rw [run_append_of h, run_cons]
  exact ⟨u, ha, rfl⟩

theorem Meets.nil {cond : σ → α → Prop} : Meets step cond s [] := by
  rintro pre a post t h
  simp at h

theorem Meets.cons {cond : σ → α → Prop} (h : Meets step cond s (a :: acts)) (ha : step s a = some t) :
    cond s a ∧ Meets step cond t acts := by
  refine ⟨h [] a acts s rfl rfl, ?_⟩
  rintro pre b post u rfl hu
  exact h (a :: pre) b post u rfl (run_cons.mpr ⟨t, ha, hu⟩)

theorem Meets.intro {cond : σ → α → Prop} (ha : cond s a) (h : ∀ t, step s a = some t → Meets step cond t acts) :
    Meets step cond s (a :: acts) := by
  rintro pre b post u heq hu
  cases pre with
  | nil =>
    cases heq
    cases hu
    exact ha
  | cons d pre =>
    obtain ⟨rfl, rfl⟩ := List.cons.inj heq
    obtain ⟨t, ht, hu⟩ := run_cons.mp hu
    exact h t ht pre b post u rfl hu

theorem Meets.of_append {cond : σ → α → Prop} {pre post : List α} (h : Meets step cond s (pre ++ post)) :
    Meets step cond s pre := by
  rintro before a after t rfl ht
  exact h before a (after ++ post) t (by rw [List.append_assoc, List.cons_append]) ht

/-- Over a decidable condition it can be computed whether a run meets it. -/
instance Meets.decidable {cond : σ → α → Prop} [∀ s a, Decidable (cond s a)] :
    ∀ (acts : List α) (s : σ), Decidable (Meets step cond s acts)
  | [], _ => isTrue .nil
  | a :: acts, s =>
    match h : step s a with
    | none => decidable_of_iff (cond s a)
        ⟨fun ha => .intro ha fun _ ht => by simp [h] at ht, fun hm => hm [] a acts s rfl rfl⟩
    | some t =>
      have : Decidable (Meets step cond t acts) := Meets.decidable acts t
      decidable_of_iff (cond s a ∧ Meets step cond t acts)
        ⟨fun ha => .intro ha.1 fun u hu => Option.some.inj (h.symm.trans hu) ▸ ha.2, fun hm => hm.cons h⟩

/-- What every step that meets the condition keeps, a run of such steps keeps. -/
theorem run_invariant_of_meets {P : σ → Prop} {cond : σ → α → Prop}
    (keep : ∀ s a t, P s → cond s a → step s a = some t → P t) (hcond : Meets step cond s acts)
    (h : run step s acts = some t) (hs : P s) : P t := by
  induction acts generalizing s with
  | nil =>
    cases h
    exact hs
  | cons a acts ih =>
    obtain ⟨u, ha, hu⟩ := run_cons.mp h
    obtain ⟨hc, hrest⟩ := hcond.cons ha
    exact ih hrest hu (keep s a u hs hc ha)

/-- What every step keeps, a run keeps. -/
theorem run_invariant {P : σ → Prop} (keep : ∀ s a t, P s → step s a = some t → P t)
    (h : run step s acts = some t) (hs : P s) : P t := by
  have hcond : Meets step (fun _ _ => True) s acts := fun _ _ _ _ _ _ => trivial
  exact run_invariant_of_meets (fun s a t hp _ => keep s a t hp) hcond h hs

/-- Induction over the states a run goes through, with the steps that led to each. -/
theorem run_induction {P : List α → σ → Prop} (start : P [] s)
    (next : ∀ pre a t u, run step s pre = some t → P pre t → step t a = some u → P (pre ++ [a]) u)
    (h : run step s acts = some t) : P acts t := by
  induction acts using List.reverseRecOn generalizing t with
  | nil =>
    cases h
    exact start
  | append_singleton pre a ih =>
    rw [run_append, Option.bind_eq_some_iff] at h
    obtain ⟨u, hu, h⟩ := h
    obtain ⟨v, ha, hv⟩ := run_cons.mp h
    cases hv
    exact next pre a u t hu (ih hu) ha

/-- An invariant of the state and what has been given out: each step of a kind keeps it, so does a run of such steps. -/
theorem outputs_invariant_from {ω : Type} {g : σ → α → List ω} {P : σ → List ω → Prop} {C : α → Prop}
    (keep : ∀ s a t os, P s os → C a → step s a = some t → P t (os ++ g s a)) (hacts : ∀ a ∈ acts, C a)
    (h : run step s acts = some t) (os : List ω) (hs : P s os) : P t (os ++ outputs step g s acts) := by
  induction acts generalizing s os with
  | nil =>
    cases h
    rw [outputs, List.append_nil]
    exact hs
  | cons a acts ih =>
    obtain ⟨u, ha, hu⟩ := run_cons.mp h
    rw [outputs, ha, Option.map_some, Option.getD_some, ← List.append_assoc]
    exact ih (fun b hb => hacts b (List.mem_cons_of_mem a hb)) hu _ (keep s a u os hs (hacts a List.mem_cons_self) ha)

theorem outputs_invariant {ω : Type} {g : σ → α → List ω} {P : σ → List ω → Prop} {C : α → Prop}
    (keep : ∀ s a t os, P s os → C a → step s a = some t → P t (os ++ g s a)) (hacts : ∀ a ∈ acts, C a)
    (h : run step s acts = some t) (hs : P s []) : P t (outputs step g s acts) :=
  outputs_invariant_from keep hacts h [] hs

theorem Happens.not_nil {cond : σ → α → Prop} : ¬Happens step cond s [] := by
  rintro ⟨pre, a, post, t, h, -⟩
  simp at h

theorem happens_snoc {cond : σ → α → Prop} (h : run step s acts = some t) :
    Happens step cond s (acts ++ [a]) ↔ Happens step cond s acts ∨ cond t a := by
  constructor
  · rintro ⟨pre, b, post, u, heq, hu, hb⟩
    rcases List.eq_nil_or_concat post with rfl | ⟨post, c, rfl⟩
    · obtain ⟨hpre, hb'⟩ := List.append_inj' heq rfl
      cases hb'
      rw [← hpre, h] at hu
      cases hu
      exact .inr hb
    · rw [List.concat_eq_append, ← List.cons_append, ← List.append_assoc] at heq
      exact .inl ⟨pre, b, post, u, (List.append_inj' heq rfl).1, hu, hb⟩
  · rintro (⟨pre, b, post, u, rfl, hu, hb⟩ | ha)
    · exact ⟨pre, b, post ++ [a], u, by rw [List.append_assoc, List.cons_append], hu, hb⟩
    · exact ⟨acts, a, [], t, rfl, h, ha⟩

end Transition
