import PendantClient.Lib.Varint

/-! Protocol-buffer records of wire types 0 (a varint) and 2 (length-delimited bytes), as they stand in the
    data: their varints need not be the shortest ones, but take no more bytes than a decoder accepts. -/

namespace Wire
open Leb128

/-! ### Tags -/

theorem and_7 (tag : Nat) : tag &&& 0x07 = tag % 8 := Nat.and_two_pow_sub_one_eq_mod tag 3

theorem shiftRight_3 (tag : Nat) : tag >>> 3 = tag / 8 := Nat.shiftRight_eq_div_pow tag 3

/-! ### Records -/

/-- The value of a record. -/
inductive Value
  | varint (v : Nat)
  | bytes (buf : List UInt8)
  deriving Repr, DecidableEq

/-- The bytes write a record of field `num` with varints of at most `k` bytes. -/
inductive Writes (k num : Nat) : Value → List UInt8 → Prop
  | varint {v : Nat} {tag value : List UInt8} (isTag : Varint tag (8 * num)) (tagLength : tag.length ≤ k)
      (isValue : Varint value v) (valueLength : value.length ≤ k) : Writes k num (.varint v) (tag ++ value)
  | bytes {tag length buf : List UInt8} (isTag : Varint tag (8 * num + 2)) (tagLength : tag.length ≤ k)
      (isLength : Varint length buf.length) (lengthLength : length.length ≤ k) :
      Writes k num (.bytes buf) (tag ++ (length ++ buf))

theorem Writes.ne_nil {k num : Nat} {value : Value} {bytes : List UInt8} (h : Writes k num value bytes) : bytes ≠ [] := by
  have tag_ne {tag : List UInt8} {n : Nat} (h : Varint tag n) : tag ≠ [] := List.length_pos_iff.mp h.length_pos
  cases h with
  | varint isTag => exact List.append_ne_nil_of_left_ne_nil (tag_ne isTag) _
  | bytes isTag => exact List.append_ne_nil_of_left_ne_nil (tag_ne isTag) _

/-- A record with the bytes that write it. -/
structure Record (k : Nat) where
  num : Nat
  value : Value
  bytes : List UInt8
  writes : Writes k num value bytes

/-- The bytes of records one after the other. -/
def Record.flatten {k : Nat} (records : List (Record k)) : List UInt8 := records.flatMap (·.bytes)

/-- Whole records, then the tag and the length of a length-delimited one with fewer bytes behind them than the length
    says. -/
def Clipped (k : Nat) (data : List UInt8) : Prop :=
  ∃ (records : List (Record k)) (num n : Nat) (tag length rest : List UInt8),
    data = Record.flatten records ++ (tag ++ (length ++ rest)) ∧ Varint tag (8 * num + 2) ∧ tag.length ≤ k ∧
      Varint length n ∧ length.length ≤ k ∧ rest.length < n

section
variable {k : Nat}

theorem Record.flatten_cons (r : Record k) (records : List (Record k)) :
    Record.flatten (r :: records) = r.bytes ++ Record.flatten records := rfl

theorem Record.flatten_append (records records' : List (Record k)) :
    Record.flatten (records ++ records') = Record.flatten records ++ Record.flatten records' := List.flatMap_append

/-- The record of a varint, tag and value as the encoder writes them. -/
def Record.ofVarint (num v : Nat) (hnum : (encode (8 * num)).length ≤ k) (hv : (encode v).length ≤ k) : Record k where
  num := num
  value := .varint v
  bytes := encode (8 * num) ++ encode v
  writes := .varint (varint_encode _) hnum (varint_encode v) hv

/-- The record of some bytes, tag and length as the encoder writes them. -/
def Record.ofBytes (num : Nat) (buf : List UInt8) (hnum : (encode (8 * num + 2)).length ≤ k)
    (hb : (encode buf.length).length ≤ k) : Record k where
  num := num
  value := .bytes buf
  bytes := encode (8 * num + 2) ++ (encode buf.length ++ buf)
  writes := .bytes (varint_encode _) hnum (varint_encode _) hb

end

end Wire
