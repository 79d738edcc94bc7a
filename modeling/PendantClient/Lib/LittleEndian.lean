import Mathlib.Data.Nat.Digits.Defs

/-! Integers of a fixed width, lowest byte first. -/

namespace LittleEndian

/-- The lowest `k` bytes of `v`. -/
def bytes : Nat → Nat → List UInt8
  | 0, _ => []
  | k + 1, v => UInt8.ofNat (v % 256) :: bytes k (v / 256)

/-- The number that some bytes write, the lowest byte first. -/
def value (data : List UInt8) : Nat := Nat.ofDigits 256 (data.map UInt8.toNat)

/-- The number of a `w`-bit two's complement word. -/
def signed (w : Nat) (n : Nat) : Int := if n < 2 ^ (w - 1) then n else n - 2 ^ w

@[simp] theorem length_bytes (k : Nat) : ∀ (v : Nat), (bytes k v).length = k := by
  induction k with
  | zero => exact fun _ => rfl
  | succ k ih => exact fun v => congrArg (· + 1) (ih (v / 256))

theorem value_cons (b : UInt8) (rest : List UInt8) : value (b :: rest) = b.toNat + 256 * value rest := rfl

theorem value_bytes {k : Nat} : ∀ {v : Nat}, v < 256 ^ k → value (bytes k v) = v := by
  induction k with
  | zero =>
    intro v hv
    have : v = 0 := by simpa using hv
    rw [this]
    rfl
  | succ k ih =>
    intro v hv
    have hv' : v / 256 < 256 ^ k := by
      rw [Nat.div_lt_iff_lt_mul (by decide), ← Nat.pow_succ]
      exact hv
    have hb : (UInt8.ofNat (v % 256)).toNat = v % 256 := by
      rw [UInt8.toNat_ofNat']
      exact Nat.mod_eq_of_lt (Nat.mod_lt v (by decide))
    rw [bytes, value_cons, ih hv', hb]
    exact Nat.mod_add_div v 256

theorem value_lt (data : List UInt8) : value data < 256 ^ data.length := by
  have h := Nat.ofDigits_lt_base_pow_length (b := 256) (l := data.map UInt8.toNat) (by decide) (by
    intro x hx
    obtain ⟨b, -, rfl⟩ := List.mem_map.mp hx
    exact b.toNat_lt)
  rwa [List.length_map] at h

theorem signed_of_lt {w n : Nat} (h : n < 2 ^ (w - 1)) : signed w n = n := if_pos h

end LittleEndian
