import Mathlib.Data.List.Forall2
import Mathlib.Logic.Basic

/-! Lists of one length whose entries are related place by place, with the place included or without it. -/

theorem getElem?_concat_eq_some {α : Type} {xs : List α} {x y : α} {i : Nat} :
    (xs ++ [x])[i]? = some y ↔ xs[i]? = some y ∨ i = xs.length ∧ y = x := by
  rcases Nat.lt_trichotomy i xs.length with hlt | rfl | hgt
  · rw [List.getElem?_append_left hlt]
    exact (or_iff_left fun h => Nat.ne_of_lt hlt h.1).symm
  · rw [List.getElem?_concat_length, List.getElem?_eq_none (Nat.le_refl _)]
    simp [eq_comm]
  · rw [List.getElem?_eq_none (by rw [List.length_append, List.length_singleton]; omega),
      List.getElem?_eq_none (Nat.le_of_lt hgt)]
    simp [Nat.ne_of_gt hgt]

/-- Two lists of one length are related place by place. -/
structure Pointwise {α β : Type} (R : Nat → α → β → Prop) (xs : List α) (ys : List β) : Prop where
  length : xs.length = ys.length
  rel : ∀ i x y, xs[i]? = some x → ys[i]? = some y → R i x y

namespace Pointwise
variable {α β : Type} {R S : Nat → α → β → Prop} {xs : List α} {ys : List β} {x : α} {y : β}

theorem nil : Pointwise R [] [] := ⟨rfl, nofun⟩

theorem snoc (h : Pointwise R xs ys) (hlast : R xs.length x y) : Pointwise R (xs ++ [x]) (ys ++ [y]) where
  length := by rw [List.length_append, List.length_append, h.length, List.length_singleton, List.length_singleton]
  rel i x' y' hx hy := by
    rcases getElem?_concat_eq_some.mp hx with hx | ⟨rfl, rfl⟩
    · rcases getElem?_concat_eq_some.mp hy with hy | ⟨rfl, -⟩
      · exact h.rel i x' y' hx hy
      · exact absurd (List.getElem?_eq_some_iff.mp hx).1 (by rw [h.length]; exact Nat.lt_irrefl _)
    · rw [h.length, List.getElem?_concat_length] at hy
      cases hy
      exact hlast

theorem exists_right (h : Pointwise R xs ys) {i : Nat} (hx : xs[i]? = some x) : ∃ y, ys[i]? = some y ∧ R i x y := by
  obtain ⟨hi, -⟩ := List.getElem?_eq_some_iff.mp hx
  have hy := List.getElem?_eq_getElem (h.length ▸ hi)
  exact ⟨_, hy, h.rel i x _ hx hy⟩

theorem exists_left (h : Pointwise R xs ys) {i : Nat} (hy : ys[i]? = some y) : ∃ x, xs[i]? = some x ∧ R i x y := by
  obtain ⟨hi, -⟩ := List.getElem?_eq_some_iff.mp hy
  have hx := List.getElem?_eq_getElem (h.length ▸ hi)
  exact ⟨_, hx, h.rel i _ y hx hy⟩

theorem exists_of_mem (h : Pointwise R xs ys) (hy : y ∈ ys) : ∃ i x, xs[i]? = some x ∧ ys[i]? = some y ∧ R i x y := by
  obtain ⟨i, hi⟩ := List.getElem?_of_mem hy
  obtain ⟨x, hx, hrel⟩ := h.exists_left hi
  exact ⟨i, x, hx, hi, hrel⟩

/-- What the relation makes equal for two entries is equal for the lists. -/
theorem map_eq {γ : Type} {f : α → γ} {g : β → γ} (h : Pointwise R xs ys) (heq : ∀ i x y, R i x y → f x = g y) :
    xs.map f = ys.map g := by
  apply List.ext_getElem
  · rw [List.length_map, List.length_map, h.length]
  · intro i hx hy
    rw [List.getElem_map, List.getElem_map]
    exact heq i _ _ (h.rel i _ _ (List.getElem?_eq_getElem _) (List.getElem?_eq_getElem _))

end Pointwise

/-! ### Without the place -/

section
variable {α β : Type} {R : α → β → Prop} {xs : List α} {ys : List β}

theorem List.Forall₂.rel_getElem? (h : List.Forall₂ R xs ys) : ∀ i : Nat, Option.Rel R xs[i]? ys[i]? := by
  induction h with
  | nil => exact fun _ => .none
  | cons hxy _ ih =>
    rintro (_ | i)
    · exact .some hxy
    · exact ih i

theorem List.Forall₂.set (h : List.Forall₂ R xs ys) {x : α} {y : β} (hxy : R x y) :
    ∀ i, List.Forall₂ R (xs.set i x) (ys.set i y) := by
  induction h with
  | nil => exact fun _ => .nil
  | cons hhead htail ih =>
    rintro (_ | i)
    · exact .cons hxy htail
    · exact .cons hhead (ih i)

theorem List.Forall₂.snoc (h : List.Forall₂ R xs ys) {x : α} {y : β} (hxy : R x y) :
    List.Forall₂ R (xs ++ [x]) (ys ++ [y]) := List.rel_append h (.cons hxy .nil)

/-- Entries that a predicate does not tell apart are filtered alike. -/
theorem List.Forall₂.filter (h : List.Forall₂ R xs ys) {p : α → Bool} {q : β → Bool} (hpq : ∀ x y, R x y → q y = p x) :
    List.Forall₂ R (xs.filter p) (ys.filter q) := by
  induction h with
  | nil => exact .nil
  | cons hxy _ ih =>
    rw [List.filter_cons, List.filter_cons, hpq _ _ hxy]
    split
    · exact .cons hxy ih
    · exact ih

/-- What the relation makes equal for two entries is equal for the lists. -/
theorem List.Forall₂.map_eq {γ : Type} (h : List.Forall₂ R xs ys) {f : α → γ} {g : β → γ} (heq : ∀ x y, R x y → g y = f x) :
    ys.map g = xs.map f := by
  induction h with
  | nil => rfl
  | cons hxy _ ih => rw [List.map_cons, List.map_cons, heq _ _ hxy, ih]

/-- Each entry on the left has its own on the right. -/
theorem List.Forall₂.exists_of_mem (h : List.Forall₂ R xs ys) {x : α} (hx : x ∈ xs) : ∃ y ∈ ys, R x y := by
  induction h with
  | nil => exact absurd hx List.not_mem_nil
  | cons hxy _ ih =>
    rcases List.mem_cons.mp hx with rfl | hx
    · exact ⟨_, List.mem_cons_self, hxy⟩
    · obtain ⟨y, hy, hrel⟩ := ih hx
      exact ⟨y, List.mem_cons_of_mem _ hy, hrel⟩

end
