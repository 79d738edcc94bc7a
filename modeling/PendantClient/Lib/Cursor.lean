/-! Loops over a cursor. A reader takes one record from a position and moves on; `scan` repeats it up to
    an end position, and stops at the first error with the state reached so far. Two readers that take the same
    records go over the data in lockstep. -/

/-- Both computations fail, or both succeed with related results. -/
inductive Alike {α β ε δ : Type} (R : α → β → Prop) : Except ε α → Except δ β → Prop
  | ok {a : α} {b : β} (h : R a b) : Alike R (.ok a) (.ok b)
  | error (e : ε) (d : δ) : Alike R (.error e) (.error d)

namespace Alike
variable {α β γ δ ε ε' : Type} {R : α → β → Prop} {S : γ → δ → Prop} {x : Except ε α} {y : Except ε' β}

theorem refl (x : Except ε α) : Alike Eq x x := by
  cases x with
  | error e => exact .error e e
  | ok a => exact .ok rfl

theorem bind {f : α → Except ε γ} {g : β → Except ε' δ} (h : Alike R x y) (hnext : ∀ a b, R a b → Alike S (f a) (g b)) :
    Alike S (x >>= f) (y >>= g) := by
  cases h with
  | ok h => exact hnext _ _ h
  | error e d => exact .error e d

theorem ite {p : Prop} [Decidable p] {x' : Except ε α} {y' : Except ε' β} (h : p → Alike R x y) (h' : ¬p → Alike R x' y') :
    Alike R (if p then x else x') (if p then y else y') := by
  split
  · exact h ‹_›
  · exact h' ‹_›

end Alike

/-- One record of a format: from a position and a state to the next position and state. -/
structure Reader (σ ε : Type) where
  step : Nat → σ → Except ε (Nat × σ)
  advances : ∀ {pos pos' : Nat} {s s' : σ}, step pos s = .ok (pos', s') → pos < pos'

namespace Reader
variable {σ ε : Type} (r : Reader σ ε)

/-- Reads records while the position is before `stop`. -/
def scan (stop pos : Nat) (s : σ) : σ × Option ε :=
  if pos < stop then
    match h : r.step pos s with
    | .error e => (s, some e)
    | .ok (pos', s') =>
      have := r.advances h
      scan stop pos' s'
  else (s, none)
termination_by stop - pos

variable {r} {stop pos pos' : Nat} {s s' : σ}

theorem scan_done (h : stop ≤ pos) : r.scan stop pos s = (s, none) := by
  rw [scan, if_neg (by omega)]

theorem scan_error {e : ε} (hp : pos < stop) (h : r.step pos s = .error e) : r.scan stop pos s = (s, some e) := by
  rw [scan, if_pos hp]
  split
  · rename_i e' he
    rw [h] at he
    cases he
    rfl
  · rename_i he
    rw [h] at he
    cases he

theorem scan_ok (hp : pos < stop) (h : r.step pos s = .ok (pos', s')) : r.scan stop pos s = r.scan stop pos' s' := by
  rw [scan, if_pos hp]
  split
  · rename_i he
    rw [h] at he
    cases he
  · rename_i he
    rw [h] at he
    cases he
    rfl

/-- A reader that takes each of some pieces as a record goes through the pieces one after the other, whatever follows them. -/
theorem scan_pieces {β γ : Type} {data rest : List γ} {bytes : β → List γ} {next : σ → β → σ} (hne : ∀ b, bytes b ≠ [])
    (hstep : ∀ {pos s b rest}, data.drop pos = bytes b ++ rest → r.step pos s = .ok (pos + (bytes b).length, next s b))
    (pieces : List β) : ∀ {pos : Nat} {s : σ}, data.drop pos = pieces.flatMap bytes ++ rest →
    r.scan data.length pos s = r.scan data.length (pos + (pieces.flatMap bytes).length) (pieces.foldl next s) := by
  induction pieces with
  | nil => exact fun _ => rfl
  | cons b pieces ih =>
    intro pos s h
    rw [List.flatMap_cons, List.append_assoc] at h
    have hpos : pos < data.length := by
      rcases Nat.lt_or_ge pos data.length with hlt | hend
      · exact hlt
      · rw [List.drop_of_length_le hend] at h
        exact absurd (List.append_eq_nil_iff.mp h.symm).1 (hne b)
    have hrest : data.drop (pos + (bytes b).length) = pieces.flatMap bytes ++ rest := by
      rw [← List.drop_drop, h, List.drop_left]
    rw [scan_ok hpos (hstep h), ih hrest, List.flatMap_cons, List.length_append, Nat.add_assoc]
    rfl

/-- Readers that move alike end alike, with related states. -/
theorem scan_alike {τ δ : Type} {r' : Reader τ δ} {R : σ → τ → Prop}
    (hstep : ∀ pos s t, R s t → Alike (fun x y => x.1 = y.1 ∧ R x.2 y.2) (r.step pos s) (r'.step pos t)) : ∀ {pos : Nat}
    {s : σ} {t : τ}, R s t → R (r.scan stop pos s).1 (r'.scan stop pos t).1 ∧
      ((r.scan stop pos s).2.isSome ↔ (r'.scan stop pos t).2.isSome) := by
  intro pos
  induction hleft : stop - pos using Nat.strongRecOn generalizing pos with
  | ind left ih =>
    intro s t hrel
    rcases Nat.lt_or_ge pos stop with hlt | hge
    · have halike := hstep pos s t hrel
      cases hs : r.step pos s with
      | error e =>
        cases ht : r'.step pos t with
        | error d =>
          rw [scan_error hlt hs, scan_error hlt ht]
          exact ⟨hrel, Iff.rfl⟩
        | ok y =>
          rw [hs, ht] at halike
          cases halike
      | ok x =>
        cases ht : r'.step pos t with
        | error d =>
          rw [hs, ht] at halike
          cases halike
        | ok y =>
          obtain ⟨p, s'⟩ := x
          obtain ⟨q, t'⟩ := y
          rw [hs, ht] at halike
          obtain ⟨rfl, hrel'⟩ : p = q ∧ R s' t' := by
            cases halike with
            | ok h => exact h
          have hadvance := r.advances hs
          rw [scan_ok hlt hs, scan_ok hlt ht]
          exact ih (stop - p) (by omega) rfl hrel'
    · rw [scan_done hge, scan_done hge]
      exact ⟨hrel, Iff.rfl⟩

end Reader
