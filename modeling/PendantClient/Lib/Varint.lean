import Mathlib.Tactic.Ring

/-! Base-128 varints. A number is written seven bits a byte, lowest bits first; every byte but the last
    has its top bit set. A decoder may cap the shift it accepts. -/

namespace Leb128

/-- The varint of `value`. -/
def encode (value : Nat) : List UInt8 :=
  if 0x7F < value then UInt8.ofNat ((value &&& 0x7F) ||| 0x80) :: encode (value >>> 7)
  else [UInt8.ofNat (value &&& 0x7F)]
termination_by value
decreasing_by
  rw [Nat.shiftRight_eq_div_pow]
  omega

/-- What can be wrong with a varint. -/
inductive Error
  | truncated
  | tooLong
  deriving Repr, DecidableEq

/-- Reads one varint from the front of the bytes. `result` and `shift` are the loop's accumulators and
    `pos` the position of the first byte; the answer is the value and the position after it. With
    `maxShift = some m` a shift over `m` is refused before the next byte is looked at. -/
def decodeFrom (maxShift : Option Nat) : List UInt8 → Nat → Nat → Nat → Except Error (Nat × Nat)
  | [], _, _, _ => .error .truncated
  | b :: rest, result, shift, pos =>
    if b.toNat &&& 0x80 = 0 then .ok (result ||| (b.toNat &&& 0x7F) <<< shift, pos + 1)
    else if maxShift.any (· < shift + 7) then .error .tooLong
    else decodeFrom maxShift rest (result ||| (b.toNat &&& 0x7F) <<< shift) (shift + 7) (pos + 1)

/-! ### Bytes -/

theorem and_127 (n : Nat) : n &&& 0x7F = n % 128 := Nat.and_two_pow_sub_one_eq_mod n 7

theorem shiftRight_7 (n : Nat) : n >>> 7 = n / 128 := Nat.shiftRight_eq_div_pow n 7

theorem low_or_128 (n : Nat) : (n &&& 0x7F) ||| 0x80 = n % 128 + 128 := by
  rw [and_127, Nat.or_comm]
  exact (Nat.two_pow_add_eq_or_of_lt (i := 7) (Nat.mod_lt n (by decide)) 1).symm.trans (Nat.add_comm _ _)

theorem and_128_of_lt {n : Nat} (h : n < 128) : n &&& 0x80 = 0 := by
  apply Nat.eq_of_testBit_eq
  intro i
  rw [Nat.testBit_and, Nat.zero_testBit, show (0x80 : Nat) = 2 ^ 7 from rfl, Nat.testBit_two_pow]
  by_cases hi : 7 = i
  · subst hi
    rw [Nat.testBit_lt_two_pow (by omega), Bool.false_and]
  · rw [decide_eq_false hi, Bool.and_false]

theorem and_128_of_ge {n : Nat} (h : 128 ≤ n) (h' : n < 256) : n &&& 0x80 ≠ 0 := by
  obtain ⟨m, rfl⟩ : ∃ m, n = 128 + m := ⟨n - 128, by omega⟩
  have hm : m < 2 ^ 7 := by omega
  have hor := Nat.two_pow_add_eq_or_of_lt hm 1
  intro h0
  have hbit : Nat.testBit ((128 + m) &&& 0x80) 7 = true := by
    rw [show 128 + m = 2 ^ 7 * 1 + m by omega, hor, Nat.testBit_and, Nat.testBit_or]
    rfl
  rw [h0, Nat.zero_testBit] at hbit
  cases hbit

theorem encode_small {value : Nat} (h : value ≤ 0x7F) : encode value = [UInt8.ofNat value] := by
  rw [encode, if_neg (by omega), and_127, Nat.mod_eq_of_lt (by omega)]

theorem encode_large {value : Nat} (h : 0x7F < value) :
    encode value = UInt8.ofNat (value % 128 + 128) :: encode (value / 128) := by
  rw [encode, if_pos h, low_or_128, shiftRight_7]

theorem length_encode_pos (value : Nat) : 0 < (encode value).length := by
  rw [encode]
  split <;> simp

theorem length_encode_le {k : Nat} : ∀ {value : Nat}, 0 < k → value < 128 ^ k → (encode value).length ≤ k := by
  induction k with
  | zero => intro value h; omega
  | succ k ih =>
    intro value _ hv
    by_cases hs : value ≤ 0x7F
    · simp [encode_small hs]
    · rw [encode_large (by omega), List.length_cons]
      have hk : 0 < k := by
        rcases Nat.eq_zero_or_pos k with rfl | h
        · simp at hv
          omega
        · exact h
      have := ih hk (Nat.div_lt_of_lt_mul (by rw [Nat.pow_succ, Nat.mul_comm] at hv; exact hv))
      omega

theorem lt_pow_length_encode (value : Nat) : value < 128 ^ (encode value).length := by
  induction value using Nat.strongRecOn with
  | ind value ih =>
    by_cases hs : value ≤ 0x7F
    · rw [encode_small hs]
      exact Nat.lt_succ_of_le hs
    · have := ih (value / 128) (by omega)
      rw [encode_large (by omega), List.length_cons, Nat.pow_succ]
      omega

theorem length_encode_mono {a b : Nat} (h : a ≤ b) : (encode a).length ≤ (encode b).length :=
  length_encode_le (length_encode_pos b) (Nat.lt_of_le_of_lt h (lt_pow_length_encode b))

theorem pow_le_of_lt_length {k value : Nat} (hk : 0 < k) (h : k < (encode value).length) : 128 ^ k ≤ value := by
  rcases Nat.lt_or_ge value (128 ^ k) with hlt | hge
  · exact absurd (length_encode_le hk hlt) (Nat.not_le.mpr h)
  · exact hge

/-! ### One byte of the decoder -/

section
variable {maxShift : Option Nat} {result shift pos : Nat} {rest : List UInt8}

theorem decodeFrom_last {n : Nat} (h : n < 128) :
    decodeFrom maxShift (UInt8.ofNat n :: rest) result shift pos = .ok (result ||| n <<< shift, pos + 1) := by
  have hb : (UInt8.ofNat n).toNat = n := by
    rw [UInt8.toNat_ofNat']
    omega
  rw [decodeFrom, hb, if_pos (and_128_of_lt h), and_127, Nat.mod_eq_of_lt h]

theorem decodeFrom_more {n : Nat} (h : n < 128) (hm : ∀ m ∈ maxShift, shift + 7 ≤ m) :
    decodeFrom maxShift (UInt8.ofNat (n + 128) :: rest) result shift pos =
      decodeFrom maxShift rest (result ||| n <<< shift) (shift + 7) (pos + 1) := by
  have hb : (UInt8.ofNat (n + 128)).toNat = n + 128 := by
    rw [UInt8.toNat_ofNat']
    omega
  have hany : ¬ (maxShift.any (· < shift + 7)) = true := by
    cases maxShift with
    | none => simp
    | some m => simpa using hm m rfl
  rw [decodeFrom, hb, if_neg (and_128_of_ge (by omega) (by omega)), if_neg hany, and_127]
  congr 3
  omega

end

/-- Bits placed above an accumulator that fits below them add to it. -/
theorem or_shiftLeft {acc shift : Nat} (h : acc < 2 ^ shift) (n : Nat) :
    acc ||| n <<< shift = acc + n * 2 ^ shift := by
  rw [Nat.or_comm, Nat.shiftLeft_eq, Nat.mul_comm, ← Nat.two_pow_add_eq_or_of_lt h, Nat.add_comm]

/-! ### Varints as they stand in the data -/

/-- Bytes that are one varint, not necessarily the shortest one of its value. -/
inductive Varint : List UInt8 → Nat → Prop
  | last {n : Nat} (h : n < 128) : Varint [UInt8.ofNat n] n
  | more {n value : Nat} {bytes : List UInt8} (h : n < 128) (rest : Varint bytes value) :
      Varint (UInt8.ofNat (n + 128) :: bytes) (n + 128 * value)

theorem Varint.length_pos {bytes : List UInt8} {value : Nat} (h : Varint bytes value) : 0 < bytes.length := by
  cases h <;> simp

theorem varint_encode (value : Nat) : Varint (encode value) value := by
  induction value using Nat.strongRecOn with
  | ind value ih =>
    by_cases hs : value ≤ 0x7F
    · rw [encode_small hs]
      exact .last (by omega)
    · rw [encode_large (by omega)]
      have := Varint.more (Nat.mod_lt value (by decide)) (ih (value / 128) (by omega))
      rwa [Nat.mod_add_div] at this

/-- The decoder reads the value of a varint, whatever bytes follow, as long as the last byte's shift is allowed. -/
theorem decodeFrom_varint {maxShift : Option Nat} {bytes : List UInt8} {value : Nat} (h : Varint bytes value) :
    ∀ {acc shift pos : Nat} (rest : List UInt8), acc < 2 ^ shift →
      (∀ m ∈ maxShift, shift + 7 * (bytes.length - 1) ≤ m) →
      decodeFrom maxShift (bytes ++ rest) acc shift pos = .ok (acc + value * 2 ^ shift, pos + bytes.length) := by
  induction h with
  | last hn =>
    intro acc shift pos rest hacc hm
    rw [List.singleton_append, decodeFrom_last hn, or_shiftLeft hacc]
    rfl
  | @more n value bytes hn hv ih =>
    intro acc shift pos rest hacc hm
    have hlen := hv.length_pos
    simp only [List.length_cons] at hm
    have hacc' : acc + n * 2 ^ shift < 2 ^ (shift + 7) := by
      rw [Nat.pow_add]
      have := Nat.mul_le_mul_right (2 ^ shift) (show n ≤ 127 by omega)
      omega
    rw [List.cons_append, decodeFrom_more hn fun m hmem => by have := hm m hmem; omega,
      or_shiftLeft hacc, ih rest hacc' fun m hmem => by have := hm m hmem; omega]
    have hsum : acc + n * 2 ^ shift + value * 2 ^ (shift + 7) = acc + (n + 128 * value) * 2 ^ shift := by
      rw [Nat.pow_add, show (2 : Nat) ^ 7 = 128 from rfl]
      ring
    rw [hsum, List.length_cons]
    congr 2
    omega

theorem exists_byte (b : UInt8) : ∃ n < 128, b = UInt8.ofNat n ∧ b.toNat &&& 0x80 = 0 ∨
    b = UInt8.ofNat (n + 128) ∧ b.toNat &&& 0x80 ≠ 0 := by
  have hlt := b.toNat_lt
  rcases Nat.lt_or_ge b.toNat 128 with h | h
  · exact ⟨b.toNat, h, .inl ⟨by simp, and_128_of_lt h⟩⟩
  · refine ⟨b.toNat - 128, by omega, .inr ⟨?_, and_128_of_ge h (by omega)⟩⟩
    rw [Nat.sub_add_cancel h]
    simp

/-- What a successful decoder has read is a varint, and its last byte's shift is allowed. -/
theorem varint_of_decodeFrom {maxShift : Option Nat} {data : List UInt8} : ∀ {acc shift pos v pos' : Nat},
    acc < 2 ^ shift → (∀ m ∈ maxShift, shift ≤ m) → decodeFrom maxShift data acc shift pos = .ok (v, pos') →
    ∃ bytes value rest, data = bytes ++ rest ∧ Varint bytes value ∧ v = acc + value * 2 ^ shift ∧
      pos' = pos + bytes.length ∧ ∀ m ∈ maxShift, shift + 7 * (bytes.length - 1) ≤ m := by
  induction data with
  | nil => intro acc shift pos v pos' _ _ h; cases h
  | cons b data ih =>
    intro acc shift pos v pos' hacc hm h
    obtain ⟨n, hn, ⟨rfl, hb⟩ | ⟨rfl, hb⟩⟩ := exists_byte b
    · rw [decodeFrom_last hn, or_shiftLeft hacc] at h
      cases h
      exact ⟨[UInt8.ofNat n], n, data, rfl, .last hn, rfl, rfl, hm⟩
    · have hshift : ∀ m ∈ maxShift, shift + 7 ≤ m := by
        intro m hmem
        rw [decodeFrom, if_neg hb] at h
        split at h
        · cases h
        · rename_i hany
          cases hmem
          simpa using hany
      have hacc' : acc + n * 2 ^ shift < 2 ^ (shift + 7) := by
        rw [Nat.pow_add]
        have := Nat.mul_le_mul_right (2 ^ shift) (show n ≤ 127 by omega)
        omega
      rw [decodeFrom_more hn hshift, or_shiftLeft hacc] at h
      obtain ⟨bytes, value, rest, rfl, hv, rfl, rfl, hlen⟩ := ih hacc' hshift h
      have hpos := hv.length_pos
      refine ⟨UInt8.ofNat (n + 128) :: bytes, n + 128 * value, rest, rfl, .more hn hv, ?_, ?_, fun m hmem => ?_⟩
      · rw [Nat.pow_add, show (2 : Nat) ^ 7 = 128 from rfl]
        ring
      · rw [List.length_cons]
        omega
      · have := hlen m hmem
        rw [List.length_cons]
        omega

/-! ### The decoder on an encoding -/

/-- The decoder undoes the encoder, whatever bytes follow, as long as the last byte's shift is allowed. -/
theorem decodeFrom_encode {maxShift : Option Nat} (value : Nat) {acc shift pos : Nat} (rest : List UInt8)
    (hacc : acc < 2 ^ shift) (hm : ∀ m ∈ maxShift, shift + 7 * ((encode value).length - 1) ≤ m) :
    decodeFrom maxShift (encode value ++ rest) acc shift pos =
      .ok (acc + value * 2 ^ shift, pos + (encode value).length) :=
  decodeFrom_varint (varint_encode value) rest hacc hm

/-- A varint cut before its last byte is reported as truncated. -/
theorem decodeFrom_take {maxShift : Option Nat} (value : Nat) : ∀ {acc shift pos j : Nat},
    j < (encode value).length → (∀ m ∈ maxShift, shift + 7 * ((encode value).length - 1) ≤ m) →
    decodeFrom maxShift ((encode value).take j) acc shift pos = .error .truncated := by
  induction value using Nat.strongRecOn with
  | ind value ih =>
    intro acc shift pos j hj hm
    cases j with
    | zero => rfl
    | succ j =>
      by_cases hs : value ≤ 0x7F
      · rw [encode_small hs] at hj
        simp at hj
      · have hlen := length_encode_pos (value / 128)
        rw [encode_large (by omega)] at hj hm ⊢
        simp only [List.length_cons] at hj hm
        rw [List.take_succ_cons, decodeFrom_more (Nat.mod_lt _ (by decide)) fun m hmem => by
          have := hm m hmem
          omega]
        exact ih (value / 128) (by omega) (by omega) fun m hmem => by have := hm m hmem; omega

/-! ### The limit on the shift -/

/-- How many bytes at the front say that another one follows. -/
def continuations (data : List UInt8) : Nat := (data.takeWhile fun b => 0x80 ≤ b).length

section
variable {b : UInt8} {data : List UInt8}

theorem and_128_eq_zero_iff : b.toNat &&& 0x80 = 0 ↔ ¬0x80 ≤ b := by
  rw [UInt8.le_iff_toNat_le]
  rcases Nat.lt_or_ge b.toNat 128 with h | h
  · exact iff_of_true (and_128_of_lt h) (Nat.not_le.mpr h)
  · exact iff_of_false (and_128_of_ge h b.toNat_lt) (not_not.mpr h)

theorem continuations_last (h : ¬0x80 ≤ b) : continuations (b :: data) = 0 := by
  rw [continuations, List.takeWhile_cons_of_neg (by simpa using h)]
  rfl

theorem continuations_more (h : 0x80 ≤ b) : continuations (b :: data) = continuations data + 1 := by
  rw [continuations, List.takeWhile_cons_of_pos (by simpa using h)]
  rfl

theorem continuations_le (data : List UInt8) : continuations data ≤ data.length := (List.takeWhile_sublist _).length_le

/-- The limit only takes away the varints whose last byte's shift is over it. -/
theorem decodeFrom_some {m : Nat} (data : List UInt8) : ∀ {acc shift pos : Nat}, shift ≤ m →
    decodeFrom (some m) data acc shift pos =
      if m < shift + 7 * continuations data then .error .tooLong else decodeFrom none data acc shift pos := by
  induction data with
  | nil =>
    intro acc shift pos hshift
    exact (if_neg (Nat.not_lt.mpr hshift)).symm
  | cons b data ih =>
    intro acc shift pos hshift
    by_cases hb : 0x80 ≤ b
    · have hnot : ¬b.toNat &&& 0x80 = 0 := fun h => and_128_eq_zero_iff.mp h hb
      have hnone : decodeFrom none (b :: data) acc shift pos =
          decodeFrom none data (acc ||| (b.toNat &&& 0x7F) <<< shift) (shift + 7) (pos + 1) := by
        rw [decodeFrom, if_neg hnot]
        rfl
      have hsum : shift + 7 * (continuations data + 1) = shift + 7 + 7 * continuations data := by omega
      rw [hnone, continuations_more hb, hsum, decodeFrom, if_neg hnot]
      rcases Nat.lt_or_ge m (shift + 7) with hlt | hge
      · rw [if_pos (by simpa using hlt), if_pos (Nat.lt_add_right _ hlt)]
      · rw [if_neg (by simpa using hge), ih hge]
    · have hlast := and_128_eq_zero_iff.mpr hb
      rw [decodeFrom, if_pos hlast, decodeFrom, if_pos hlast, continuations_last hb]
      exact (if_neg (Nat.not_lt.mpr hshift)).symm

/-- Without a limit only a varint that goes on to the end of the data is refused. -/
theorem decodeFrom_none_eq_none (data : List UInt8) : ∀ {acc shift pos : Nat},
    (decodeFrom none data acc shift pos).toOption = none ↔ continuations data = data.length := by
  induction data with
  | nil => exact iff_of_true rfl rfl
  | cons b data ih =>
    intro acc shift pos
    by_cases hb : 0x80 ≤ b
    · have hnot : ¬b.toNat &&& 0x80 = 0 := fun h => and_128_eq_zero_iff.mp h hb
      rw [decodeFrom, if_neg hnot, if_neg (by simp), continuations_more hb, List.length_cons, Nat.add_right_cancel_iff]
      exact ih
    · rw [decodeFrom, if_pos (and_128_eq_zero_iff.mpr hb), continuations_last hb]
      exact iff_of_false (Option.some_ne_none _) (Nat.succ_ne_zero _).symm

end

theorem decodeFrom_pos {maxShift : Option Nat} {data : List UInt8} : ∀ {acc shift pos v pos' : Nat},
    decodeFrom maxShift data acc shift pos = .ok (v, pos') → pos < pos' := by
  induction data with
  | nil => intro acc shift pos v pos' h; cases h
  | cons b rest ih =>
    intro acc shift pos v pos' h
    rw [decodeFrom] at h
    split at h
    · cases h
      omega
    · split at h
      · cases h
      · have := ih h
        omega

end Leb128
