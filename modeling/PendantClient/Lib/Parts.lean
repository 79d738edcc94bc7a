import Mathlib.Data.List.Perm.Subperm
import Mathlib.Data.List.Dedup
import Mathlib.Data.List.Range

/-! Numbered parts `0..n-1` of one whole, received in any order with repetitions: when are they all
    there, and how a count of the distinct numbers tells. Numbers that are no part count like parts. -/

namespace Parts

/-- Every part of `0..n-1` is among the received ones. -/
def Complete (n : Nat) (got : List Nat) : Prop := ∀ s < n, s ∈ got

instance (n : Nat) (got : List Nat) : Decidable (Complete n got) := inferInstanceAs (Decidable (∀ s < n, s ∈ got))

theorem Complete.mono {n : Nat} {got got' : List Nat} (h : Complete n got) (hsub : ∀ s ∈ got, s ∈ got') :
    Complete n got' := fun s hs => hsub s (h s hs)

theorem complete_congr {n : Nat} {got got' : List Nat} (h : ∀ s, s ∈ got ↔ s ∈ got') :
    Complete n got ↔ Complete n got' :=
  ⟨fun hc => hc.mono fun s hs => (h s).mp hs, fun hc => hc.mono fun s hs => (h s).mpr hs⟩

/-- Distinct numbers below `n` are complete as soon as there are `n` of them. -/
theorem complete_iff_length {n : Nat} {keys : List Nat} (nodup : keys.Nodup) (below : ∀ k ∈ keys, k < n) :
    Complete n keys ↔ n ≤ keys.length := by
  constructor
  · intro hc
    have hsub : List.Subperm (List.range n) keys :=
      List.nodup_range.subperm fun s hs => hc s (List.mem_range.mp hs)
    simpa using hsub.length_le
  · intro hn s hs
    have hsub : List.Subperm keys (List.range n) := nodup.subperm fun k hk => List.mem_range.mpr (below k hk)
    have hperm := hsub.perm_of_length_le (by simpa using hn)
    exact hperm.mem_iff.mpr (List.mem_range.mpr hs)

/-- The parts that are not among the received ones. -/
def missing (n : Nat) (got : List Nat) : List Nat := (List.range n).filter fun s => s ∉ got

/-- The received numbers that are no part, each once. -/
def strays (n : Nat) (got : List Nat) : List Nat := got.dedup.filter fun s => n ≤ s

theorem complete_iff_missing {n : Nat} {got : List Nat} : Complete n got ↔ missing n got = [] := by
  simp [Complete, missing, List.filter_eq_nil_iff]

/-- There are `n` distinct numbers when strays make up for the missing parts. -/
theorem le_length_dedup_iff {n : Nat} {got : List Nat} :
    n ≤ got.dedup.length ↔ (missing n got).length ≤ (strays n got).length := by
  have hparts : ((List.range n).filter fun s => !decide (s ∉ got)).length =
      (got.dedup.filter fun s => !decide (n ≤ s)).length := by
    refine List.Perm.length_eq ((List.perm_ext_iff_of_nodup (List.nodup_range.filter _) (got.nodup_dedup.filter _)).mpr ?_)
    intro s
    simp [and_comm]
  have hall := List.length_eq_length_filter_add (l := List.range n) fun s => decide (s ∉ got)
  have hgot := List.length_eq_length_filter_add (l := got.dedup) fun s => decide (n ≤ s)
  rw [List.length_range] at hall
  unfold missing strays
  omega

end Parts
