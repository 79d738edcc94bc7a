/-! Cyclic redundancy checks, bit by bit. The register takes the bits of the data most significant first; a
    bit that differs from the one shifted out subtracts the polynomial. A step is linear in the register
    and the bit together, so a register's top bits can be fed in as if they were data (`feed_top`); that is
    what tables of precomputed remainders rest on. -/

namespace Crc
variable {w : Nat}

/-- One bit through the register. -/
def shiftIn (poly reg : BitVec w) (bit : Bool) : BitVec w :=
  (reg <<< 1) ^^^ (if reg.msb ^^ bit then poly else 0#w)

/-- The register after some bits. -/
def feed (poly reg : BitVec w) (bits : List Bool) : BitVec w := bits.foldl (shiftIn poly) reg

/-- The bits of a word, most significant first. -/
def bitsOf {n : Nat} (word : BitVec n) : List Bool := (List.range n).map word.getMsbD

/-- The check of some bytes: the register starts at zero, and nothing is added at the end. -/
def compute (poly : BitVec w) (data : List UInt8) : BitVec w := feed poly 0#w (data.flatMap fun b => bitsOf b.toBitVec)

variable (poly : BitVec w)

@[simp] theorem feed_nil (reg : BitVec w) : feed poly reg [] = reg := rfl

theorem feed_cons (reg : BitVec w) (bit : Bool) (bits : List Bool) :
    feed poly reg (bit :: bits) = feed poly (shiftIn poly reg bit) bits := rfl

theorem feed_append (reg : BitVec w) (xs ys : List Bool) :
    feed poly reg (xs ++ ys) = feed poly (feed poly reg xs) ys := List.foldl_append

@[simp] theorem length_bitsOf {n : Nat} (word : BitVec n) : (bitsOf word).length = n := by
  rw [bitsOf, List.length_map, List.length_range]

theorem bitsOf_xor {n : Nat} (a b : BitVec n) : bitsOf (a ^^^ b) = List.zipWith Bool.xor (bitsOf a) (bitsOf b) := by
  rw [bitsOf, bitsOf, bitsOf, List.zipWith_map, List.zipWith_self]
  exact List.map_congr_left fun i _ => BitVec.getMsbD_xor

/-! ### Linearity -/

theorem shiftIn_xor (a b : BitVec w) (p q : Bool) :
    shiftIn poly (a ^^^ b) (p ^^ q) = shiftIn poly a p ^^^ shiftIn poly b q := by
  have hcond : (if (a ^^^ b).msb ^^ (p ^^ q) then poly else 0#w) =
      (if a.msb ^^ p then poly else 0#w) ^^^ (if b.msb ^^ q then poly else 0#w) := by
    rw [BitVec.msb_xor]
    cases a.msb <;> cases b.msb <;> cases p <;> cases q <;> simp
  unfold shiftIn
  rw [hcond, BitVec.shiftLeft_xor_distrib]
  ac_rfl

theorem feed_xor (xs : List Bool) : ∀ (ys : List Bool) (a b : BitVec w), xs.length = ys.length →
    feed poly (a ^^^ b) (List.zipWith Bool.xor xs ys) = feed poly a xs ^^^ feed poly b ys := by
  induction xs with
  | nil =>
    intro ys a b hlen
    rw [List.length_eq_zero_iff.mp hlen.symm]
    rfl
  | cons x xs ih =>
    intro ys a b hlen
    cases ys with
    | nil => cases hlen
    | cons y ys =>
      rw [List.zipWith_cons_cons, feed_cons, feed_cons, feed_cons, shiftIn_xor]
      exact ih ys _ _ (Nat.succ.inj hlen)

theorem zipWith_xor_false (xs : List Bool) : List.zipWith Bool.xor (List.replicate xs.length false) xs = xs := by
  induction xs with
  | nil => rfl
  | cons x xs ih =>
    rw [List.length_cons, List.replicate_succ, List.zipWith_cons_cons, ih, Bool.false_xor]

theorem feed_split (a b : BitVec w) (bits : List Bool) :
    feed poly (a ^^^ b) bits = feed poly a (List.replicate bits.length false) ^^^ feed poly b bits := by
  have h := feed_xor poly (List.replicate bits.length false) bits a b (by simp)
  rwa [zipWith_xor_false] at h

/-! ### A register's top bits -/

theorem getMsbD_succ (reg : BitVec w) (i : Nat) : (reg <<< 1).getMsbD i = reg.getMsbD (i + 1) := by
  rw [BitVec.getMsbD_shiftLeft, Nat.add_comm]

theorem map_getMsbD_succ (reg : BitVec w) (n : Nat) :
    (List.range (n + 1)).map reg.getMsbD = reg.msb :: (List.range n).map (reg <<< 1).getMsbD := by
  rw [List.range_succ_eq_map, List.map_cons, List.map_map]
  congr 1
  exact List.map_congr_left fun i _ => (getMsbD_succ reg i).symm

/-- The top bits of the register, xored into the data: what is left of the register moves up. -/
theorem feed_top (bits : List Bool) : ∀ (reg : BitVec w),
    feed poly reg bits = (reg <<< bits.length) ^^^
      feed poly 0#w (List.zipWith Bool.xor ((List.range bits.length).map reg.getMsbD) bits) := by
  induction bits with
  | nil => intro reg; simp
  | cons bit bits ih =>
    intro reg
    have hfirst : shiftIn poly 0#w (reg.msb ^^ bit) = if reg.msb ^^ bit then poly else 0#w := by
      simp [shiftIn]
    have hlen : (List.zipWith Bool.xor ((List.range bits.length).map (reg <<< 1).getMsbD) bits).length = bits.length := by
      simp
    -- the register after the first bit is a shift and a multiple of the polynomial, fed independently
    rw [List.length_cons, map_getMsbD_succ, List.zipWith_cons_cons, feed_cons, feed_cons, hfirst]
    rw [show shiftIn poly reg bit = (if reg.msb ^^ bit then poly else 0#w) ^^^ (reg <<< 1) from BitVec.xor_comm _ _,
      feed_split, ih (reg <<< 1)]
    have hsplit := feed_split poly (if reg.msb ^^ bit then poly else 0#w) 0#w
      (List.zipWith Bool.xor ((List.range bits.length).map (reg <<< 1).getMsbD) bits)
    rw [BitVec.xor_zero, hlen] at hsplit
    rw [hsplit, ← BitVec.shiftLeft_add, Nat.add_comm 1]
    ac_rfl

end Crc
