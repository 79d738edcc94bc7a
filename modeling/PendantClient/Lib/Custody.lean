import Mathlib.Data.Set.Basic
import Mathlib.Logic.Relation

/-! Items that one keeper hands over to another: a source produces them and releases them, a store takes them in. A hand-over
    may store an item and not release it, so that it is stored again later, but not the other way round. -/

namespace Custody

/-- What the source has produced, what it still holds, and what the store has. -/
structure State (α : Type*) where
  produced : Set α
  held : Set α
  stored : Set α

variable {α : Type*}

/-- An item is produced; or items are released, when the store takes at least those of them that were held. -/
inductive Step : State α → State α → Prop
  | produce (s : State α) (x : α) : Step s { s with produced := insert x s.produced, held := insert x s.held }
  | handOver (s : State α) (released stored : Set α) (keeps : s.stored ⊆ stored) (covers : s.held ∩ released ⊆ stored) :
    Step s { s with held := s.held \ released, stored }

/-- Nothing that was produced is lost. -/
def State.Safe (s : State α) : Prop := s.produced ⊆ s.held ∪ s.stored

variable {s t : State α}

theorem State.Safe.step (h : s.Safe) (hstep : Step s t) : t.Safe := by
  cases hstep with
  | produce x =>
    rintro y (rfl | hy)
    · exact .inl (.inl rfl)
    · rcases h hy with hheld | hstored
      · exact .inl (.inr hheld)
      · exact .inr hstored
  | handOver released stored keeps covers =>
    intro y hy
    rcases h hy with hheld | hstored
    · by_cases hreleased : y ∈ released
      · exact .inr (covers ⟨hheld, hreleased⟩)
      · exact .inl ⟨hheld, hreleased⟩
    · exact .inr (keeps hstored)

theorem State.Safe.run (h : s.Safe) (hrun : Relation.ReflTransGen Step s t) : t.Safe := by
  induction hrun with
  | refl => exact h
  | tail _ hstep ih => exact ih.step hstep

/-- What was once stored stays stored. -/
theorem stored_subset (hrun : Relation.ReflTransGen Step s t) : s.stored ⊆ t.stored := by
  induction hrun with
  | refl => exact subset_rfl
  | tail _ hstep ih =>
    cases hstep with
    | produce => exact ih
    | handOver _ _ keeps => exact ih.trans keeps

/-- What the source no longer holds is stored. -/
theorem State.Safe.stored_of_released (h : s.Safe) {x : α} (hx : x ∈ s.produced) (hnot : x ∉ s.held) : x ∈ s.stored :=
  (h hx).resolve_left hnot

end Custody
