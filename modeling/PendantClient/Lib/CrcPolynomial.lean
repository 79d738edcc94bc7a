import Mathlib.Algebra.CharP.Two
import Mathlib.Algebra.Field.ZMod
import Mathlib.Algebra.Polynomial.Div
import Mathlib.Tactic.LinearCombination
import PendantClient.Lib.Crc

/-! The check as a remainder. Bits are the coefficients of a polynomial over the field of two elements, the first
    bit the highest; a step of the register multiplies by `X`, adds the bit above the register and subtracts the
    generator if that leaves a term of the register's degree. -/

namespace Crc
open Polynomial

/-- The coefficient of a bit. -/
def coefficient (bit : Bool) : ZMod 2 := if bit then 1 else 0

theorem coefficient_false : coefficient false = 0 := rfl

theorem coefficient_xor (a b : Bool) : coefficient (a ^^ b) = coefficient a + coefficient b := by
  cases a <;> cases b <;> decide

/-- The polynomial of some bits, most significant first. -/
noncomputable def ofBits : List Bool → (ZMod 2)[X]
  | [] => 0
  | bit :: bits => C (coefficient bit) * X ^ bits.length + ofBits bits

theorem ofBits_concat (bits : List Bool) (bit : Bool) :
    ofBits (bits ++ [bit]) = ofBits bits * X + C (coefficient bit) := by
  induction bits with
  | nil => simp [ofBits]
  | cons b bits ih =>
    rw [List.cons_append, ofBits, ofBits, ih, List.length_append, List.length_singleton]
    ring

theorem ofBits_zipWith_xor (xs : List Bool) : ∀ (ys : List Bool), xs.length = ys.length →
    ofBits (List.zipWith Bool.xor xs ys) = ofBits xs + ofBits ys := by
  induction xs with
  | nil =>
    intro ys hlen
    rw [List.length_eq_zero_iff.mp hlen.symm]
    exact (add_zero _).symm
  | cons x xs ih =>
    intro ys hlen
    cases ys with
    | nil => cases hlen
    | cons y ys =>
      have hlen' : xs.length = ys.length := Nat.succ.inj hlen
      rw [List.zipWith_cons_cons, ofBits, ofBits, ofBits, ih ys hlen', coefficient_xor, C_add, List.length_zipWith,
        ← hlen', Nat.min_self]
      ring

theorem degree_ofBits_lt (bits : List Bool) : (ofBits bits).degree < bits.length := by
  induction bits with
  | nil =>
    rw [ofBits, degree_zero]
    exact WithBot.bot_lt_coe 0
  | cons bit bits ih =>
    have hlt : ((bits.length : ℕ) : WithBot ℕ) < ((bit :: bits).length : ℕ) := by
      rw [List.length_cons]
      exact_mod_cast Nat.lt_succ_self _
    refine lt_of_le_of_lt (degree_add_le _ _) (max_lt (lt_of_le_of_lt (degree_C_mul_X_pow_le _ _) hlt) (ih.trans hlt))

variable {w : Nat}

/-- The polynomial of a register's bits. -/
noncomputable def ofRegister (reg : BitVec w) : (ZMod 2)[X] := ofBits (bitsOf reg)

/-- The generator whose terms below its highest are given by the register's polynomial. -/
noncomputable def generator (poly : BitVec w) : (ZMod 2)[X] := X ^ w + ofRegister poly

theorem degree_ofRegister_lt (reg : BitVec w) : (ofRegister reg).degree < w := by
  have h := degree_ofBits_lt (bitsOf reg)
  rwa [length_bitsOf] at h

theorem monic_generator (poly : BitVec w) : (generator poly).Monic := monic_X_pow_add (degree_ofRegister_lt poly)

theorem degree_generator (poly : BitVec w) : (generator poly).degree = w := by
  rw [generator, degree_add_eq_left_of_degree_lt] <;> rw [degree_X_pow]
  exact degree_ofRegister_lt poly

theorem ofRegister_xor (a b : BitVec w) : ofRegister (a ^^^ b) = ofRegister a + ofRegister b := by
  rw [ofRegister, bitsOf_xor, ofBits_zipWith_xor _ _ (by rw [length_bitsOf, length_bitsOf])]
  rfl

theorem ofRegister_zero : ofRegister (0#w) = 0 := by
  rw [← BitVec.xor_self (x := 0#w), ofRegister_xor]
  exact CharTwo.add_self_eq_zero _

/-- A shift multiplies by `X`; the top bit falls out. -/
theorem ofRegister_shiftLeft (reg : BitVec w) :
    ofRegister (reg <<< 1) = ofRegister reg * X + C (coefficient reg.msb) * X ^ w := by
  cases w with
  | zero => simp [ofRegister, bitsOf, ofBits, coefficient_false, BitVec.msb]
  | succ n =>
    have hold : bitsOf reg = reg.msb :: (List.range n).map (reg <<< 1).getMsbD := map_getMsbD_succ reg n
    have hnew : bitsOf (reg <<< 1) = (List.range n).map (reg <<< 1).getMsbD ++ [false] := by
      rw [bitsOf, List.range_succ, List.map_append, List.map_singleton, getMsbD_succ, BitVec.getMsbD_of_ge _ _ (Nat.le_refl _)]
    rw [ofRegister, ofRegister, hold, hnew, ofBits_concat, ofBits, List.length_map, List.length_range, coefficient_false, C_0]
    have htwice : C (coefficient reg.msb) * X ^ (n + 1) + C (coefficient reg.msb) * X ^ (n + 1) = (0 : (ZMod 2)[X]) :=
      CharTwo.add_self_eq_zero _
    linear_combination -htwice

theorem ofRegister_shiftIn (poly reg : BitVec w) (bit : Bool) :
    ofRegister (shiftIn poly reg bit) = ofRegister reg * X + C (coefficient bit) * X ^ w +
      C (coefficient (reg.msb ^^ bit)) * generator poly := by
  have hsubtracted : ofRegister (if reg.msb ^^ bit then poly else 0#w) =
      C (coefficient (reg.msb ^^ bit)) * ofRegister poly := by
    cases reg.msb ^^ bit with
    | true => simp [coefficient]
    | false => simp [coefficient_false, ofRegister_zero]
  rw [shiftIn, ofRegister_xor, ofRegister_shiftLeft, hsubtracted, generator, coefficient_xor, C_add]
  have htwice : C (coefficient bit) * X ^ w + C (coefficient bit) * X ^ w = (0 : (ZMod 2)[X]) :=
    CharTwo.add_self_eq_zero _
  linear_combination -htwice

/-- Feeding bits keeps the class of the register and the bits above it, shifted together. -/
theorem exists_feed (poly : BitVec w) (bits : List Bool) : ∀ (reg : BitVec w), ∃ q : (ZMod 2)[X],
    ofRegister (feed poly reg bits) + generator poly * q = ofRegister reg * X ^ bits.length + ofBits bits * X ^ w := by
  induction bits with
  | nil =>
    intro reg
    exact ⟨0, by simp [ofBits]⟩
  | cons bit bits ih =>
    intro reg
    obtain ⟨q, hq⟩ := ih (shiftIn poly reg bit)
    refine ⟨q + C (coefficient (reg.msb ^^ bit)) * X ^ bits.length, ?_⟩
    have htwice : generator poly * (C (coefficient (reg.msb ^^ bit)) * X ^ bits.length) +
        generator poly * (C (coefficient (reg.msb ^^ bit)) * X ^ bits.length) = 0 := CharTwo.add_self_eq_zero _
    rw [ofRegister_shiftIn] at hq
    rw [feed_cons, ofBits, List.length_cons]
    linear_combination hq + htwice

/-- The polynomial of some bytes, most significant bit first. -/
noncomputable def ofBytes (data : List UInt8) : (ZMod 2)[X] := ofBits (data.flatMap fun b => bitsOf b.toBitVec)

/-- The check is the remainder of the data, moved up by the width of the register, modulo the generator. -/
theorem ofRegister_compute (poly : BitVec w) (data : List UInt8) :
    ofRegister (compute poly data) = (ofBytes data * X ^ w) %ₘ generator poly := by
  obtain ⟨q, hq⟩ := exists_feed poly (data.flatMap fun b => bitsOf b.toBitVec) 0#w
  rw [ofRegister_zero, zero_mul, zero_add] at hq
  refine (div_modByMonic_unique q _ (monic_generator poly) ⟨hq, ?_⟩).2.symm
  rw [degree_generator]
  exact degree_ofRegister_lt _

end Crc
