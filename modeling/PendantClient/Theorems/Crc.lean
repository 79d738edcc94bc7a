import Mathlib.Data.Nat.Bitwise
import PendantClient.Lib.CrcPolynomial
import PendantClient.Lib.OggPage
import PendantClient.Ogg

/-! The table-driven check is the bit-serial one, and so a remainder. The numbers that the table's loop lets grow past
    32 bits are the registers once they are cut back to 32. -/

namespace PendantClient

open Crc

theorem and_mask_32 (n : Nat) : n &&& 0xFFFFFFFF = (BitVec.ofNat 32 n).toNat := by
  rw [BitVec.toNat_ofNat]
  exact Nat.and_two_pow_sub_one_eq_mod n 32

theorem ofNat_shiftLeft (r k : Nat) : BitVec.ofNat 32 (r <<< k) = BitVec.ofNat 32 r <<< k := by
  apply BitVec.eq_of_getLsbD_eq
  intro i hi
  rw [BitVec.getLsbD_ofNat, BitVec.getLsbD_shiftLeft, BitVec.getLsbD_ofNat, Nat.testBit_shiftLeft]
  by_cases h : k ≤ i
  · simp [h, hi, show i - k < 32 by omega]
  · simp [h]

/-! ### The table -/

theorem shiftStep_eq (r : Nat) :
    BitVec.ofNat 32 (shiftStep r) = shiftIn OggPage.polynomial (BitVec.ofNat 32 r) false := by
  have hmsb : (BitVec.ofNat 32 r).msb = r.testBit 31 := by
    rw [BitVec.msb_eq_getLsbD_last, BitVec.getLsbD_ofNat]
    simp
  have htop : (r &&& 0x80000000 ≠ 0) ↔ r.testBit 31 = true := by
    rw [show (0x80000000 : Nat) = 2 ^ 31 from rfl, Nat.and_two_pow]
    cases r.testBit 31 <;> simp
  rw [shiftIn, hmsb, Bool.xor_false, shiftStep]
  by_cases h : r.testBit 31 = true
  · rw [if_pos (htop.mpr h), if_pos h, BitVec.ofNat_xor, ofNat_shiftLeft]
    rfl
  · rw [if_neg (fun h' => h (htop.mp h')), if_neg h, ofNat_shiftLeft, BitVec.xor_zero]

theorem shiftSteps_eq (l : List Nat) : ∀ (r : Nat),
    BitVec.ofNat 32 (l.foldl (fun r _ => shiftStep r) r) =
      feed OggPage.polynomial (BitVec.ofNat 32 r) (List.replicate l.length false) := by
  induction l with
  | nil => exact fun _ => rfl
  | cons x l ih =>
    intro r
    rw [List.foldl_cons, ih, shiftStep_eq]
    rfl

theorem bitsOf_high (i : BitVec 8) :
    (List.range 8).map (BitVec.ofNat 32 (i.toNat <<< 24)).getMsbD = bitsOf i := by
  refine List.map_congr_left fun j hj => ?_
  have hj8 : j < 8 := List.mem_range.mp hj
  rw [BitVec.getMsbD_eq_getLsbD, BitVec.getMsbD_eq_getLsbD, BitVec.getLsbD_ofNat, Nat.testBit_shiftLeft]
  simp [hj8, show j < 32 by omega, show 31 - j < 32 by omega, show 24 ≤ 31 - j by omega, show 31 - j - 24 = 7 - j by omega,
    BitVec.testBit_toNat]

theorem tableEntry_eq (i : BitVec 8) : tableEntry i.toNat = (feed OggPage.polynomial 0#32 (bitsOf i)).toNat := by
  have hgone : BitVec.ofNat 32 (i.toNat <<< 24) <<< 8 = 0#32 := by
    rw [← ofNat_shiftLeft, ← Nat.shiftLeft_add]
    apply BitVec.eq_of_toNat_eq
    rw [BitVec.toNat_ofNat, Nat.shiftLeft_eq]
    simp
  have hfalse : ∀ (xs : List Bool), xs.length = 8 → List.zipWith Bool.xor xs (List.replicate 8 false) = xs := by
    intro xs hxs
    rw [List.zipWith_comm_of_comm Bool.xor_comm, ← hxs, zipWith_xor_false]
  rw [tableEntry, and_mask_32, shiftSteps_eq, feed_top, List.length_replicate, List.length_range, hgone, BitVec.zero_xor,
    bitsOf_high, hfalse _ (length_bitsOf i)]

/-! ### The loop over the data -/

theorem crcTable_getD {i : Nat} (h : i < 256) : crcTable.getD i 0 = tableEntry i := by
  rw [crcTable, fillTable, if_pos (show ([] : List Nat).isEmpty = true from rfl), List.nil_append,
    List.getD_eq_getElem?_getD, List.getElem?_map, List.getElem?_range h]
  rfl

theorem bitsOf_top (reg : BitVec 32) : bitsOf (BitVec.ofNat 8 (reg.toNat >>> 24)) = (List.range 8).map reg.getMsbD := by
  refine List.map_congr_left fun j hj => ?_
  have hj8 : j < 8 := List.mem_range.mp hj
  rw [BitVec.getMsbD_eq_getLsbD, BitVec.getMsbD_eq_getLsbD, BitVec.getLsbD_ofNat, Nat.testBit_shiftRight]
  simp [hj8, show j < 32 by omega, show 8 - 1 - j < 8 by omega, show 24 + (7 - j) = 31 - j by omega, BitVec.testBit_toNat]

/-- One byte from the table is eight bits through the register. -/
theorem crcByte_eq (reg : BitVec 32) (b : UInt8) :
    crcByte crcTable reg.toNat b = (feed OggPage.polynomial reg (bitsOf b.toBitVec)).toNat := by
  have hindex : ((reg.toNat >>> 24) ^^^ b.toNat) &&& 0xFF =
      (BitVec.ofNat 8 (reg.toNat >>> 24) ^^^ b.toBitVec).toNat := by
    rw [show (0xFF : Nat) = 2 ^ 8 - 1 from rfl, Nat.and_two_pow_sub_one_eq_mod, BitVec.toNat_xor, BitVec.toNat_ofNat,
      Nat.xor_mod_two_pow, Nat.mod_eq_of_lt (a := b.toNat) b.toNat_lt]
    rfl
  rw [crcByte, hindex, crcTable_getD (BitVec.isLt _), tableEntry_eq, and_mask_32, ofNat_shiftLeft, BitVec.ofNat_toNat,
    BitVec.setWidth_eq, ← BitVec.toNat_xor, bitsOf_xor, bitsOf_top, feed_top OggPage.polynomial _ reg, length_bitsOf]

theorem crcBytes_eq (data : Bytes) : ∀ (reg : BitVec 32), data.foldl (crcByte crcTable) reg.toNat =
    (feed OggPage.polynomial reg (data.flatMap fun b => bitsOf b.toBitVec)).toNat := by
  induction data with
  | nil => exact fun _ => rfl
  | cons b data ih =>
    intro reg
    rw [List.foldl_cons, crcByte_eq, ih, List.flatMap_cons, feed_append]

theorem crc32Ogg_eq (data : Bytes) : crc32Ogg data = (compute OggPage.polynomial data).toNat := by
  have h := crcBytes_eq data 0#32
  rw [show (0#32).toNat = 0 from rfl] at h
  rw [crc32Ogg, h, and_mask_32, BitVec.ofNat_toNat, BitVec.setWidth_eq]
  rfl

/-! ### Calls and division -/

theorem fillTable_crcTable : fillTable crcTable = crcTable := rfl

/-- The first call fills the table, and the others find it filled. -/
theorem crc32OggCalls_eq (calls : List Bytes) : crc32OggCalls [] calls = calls.map crc32Ogg := by
  have hfilled : ∀ calls, crc32OggCalls crcTable calls = calls.map crc32Ogg := by
    intro calls
    induction calls with
    | nil => rfl
    | cons data calls ih =>
      rw [crc32OggCalls, fillTable_crcTable, List.map_cons, ih]
      rfl
  cases calls with
  | nil => rfl
  | cons data calls =>
    rw [crc32OggCalls, List.map_cons]
    exact congrArg (List.cons _) (hfilled calls)

open Polynomial in
theorem generator_eq : generator OggPage.polynomial =
    X ^ 32 + X ^ 26 + X ^ 23 + X ^ 22 + X ^ 16 + X ^ 12 + X ^ 11 + X ^ 10 + X ^ 8 + X ^ 7 + X ^ 5 + X ^ 4 + X ^ 2 + X + 1 := by
  have hbits : bitsOf OggPage.polynomial =
      [false, false, false, false, false, true, false, false, true, true, false, false, false, false, false, true,
        false, false, false, true, true, true, false, true, true, false, true, true, false, true, true, true] := by decide
  rw [generator, ofRegister, hbits]
  simp [ofBits, coefficient]
  ring

open Polynomial in
/-- Every call of `_crc32_ogg` gives the bit-serial check of its data, which is the remainder of the data times `X ^ 32`
    modulo the generator. -/
theorem crc32_is_remainder (calls : List Bytes) : crc32OggCalls [] calls = calls.map crc32Ogg ∧
    ∀ data : Bytes, crc32Ogg data = (Crc.compute 0x04C11DB7#32 data).toNat ∧
      ofRegister (BitVec.ofNat 32 (crc32Ogg data)) = (ofBytes data * X ^ 32) %ₘ
        (X ^ 32 + X ^ 26 + X ^ 23 + X ^ 22 + X ^ 16 + X ^ 12 + X ^ 11 + X ^ 10 + X ^ 8 + X ^ 7 + X ^ 5 + X ^ 4 + X ^ 2 +
          X + 1) := by
  refine ⟨crc32OggCalls_eq calls, fun data => ⟨crc32Ogg_eq data, ?_⟩⟩
  rw [crc32Ogg_eq, BitVec.ofNat_toNat, BitVec.setWidth_eq, ofRegister_compute, generator_eq]

end PendantClient
