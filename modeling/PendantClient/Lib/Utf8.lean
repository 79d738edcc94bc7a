/-! UTF-8 on lists of bytes: encoding, and decoding in which every maximal ill-formed subpart is replaced
    by U+FFFD. -/

namespace Utf8

/-- Some characters in UTF-8. -/
def encode (cs : List Char) : List UInt8 := cs.flatMap String.utf8EncodeChar

/-- Whether `b` may follow the lead byte of a sequence of three or four bytes. -/
def secondInRange (lead b : UInt8) : Bool :=
  if lead = 0xE0 then 0xA0 ≤ b ∧ b ≤ 0xBF
  else if lead = 0xED then 0x80 ≤ b ∧ b ≤ 0x9F
  else if lead = 0xF0 then 0x90 ≤ b ∧ b ≤ 0xBF
  else if lead = 0xF4 then 0x80 ≤ b ∧ b ≤ 0x8F
  else 0xE1 ≤ lead ∧ lead ≤ 0xF3 ∧ 0x80 ≤ b ∧ b ≤ 0xBF

/-- The number of bytes of the maximal ill-formed subpart at the front of bytes that do not start with a
    well-formed sequence. -/
def maximalSubpart : List UInt8 → Nat
  | lead :: b :: c :: _ =>
    if secondInRange lead b then
      if 0xF0 ≤ lead ∧ 0x80 ≤ c ∧ c ≤ 0xBF then 3 else 2
    else 1
  | [lead, b] => if secondInRange lead b then 2 else 1
  | _ => 1

theorem maximalSubpart_pos (bs : List UInt8) : 0 < maximalSubpart bs := by
  unfold maximalSubpart
  repeat' split
  all_goals decide

/-- U+FFFD. -/
def replacement : Char := Char.ofNat 0xFFFD

/-- The characters of some bytes. Where no character begins, a maximal subpart is replaced. -/
def decodeReplace (bs : List UInt8) : List Char :=
  if bs = [] then []
  else
    match bs.toByteArray.utf8DecodeChar? 0 with
    | some c => c :: decodeReplace (bs.drop c.utf8Size)
    | none => replacement :: decodeReplace (bs.drop (maximalSubpart bs))
termination_by bs.length
decreasing_by
  · have := List.length_pos_iff.mpr (by assumption)
    have := c.utf8Size_pos
    rw [List.length_drop]
    omega
  · have := List.length_pos_iff.mpr (by assumption)
    have := maximalSubpart_pos bs
    rw [List.length_drop]
    omega

/-- What was encoded is decoded without a replacement. -/
theorem decodeReplace_encode (cs : List Char) : decodeReplace (encode cs) = cs := by
  induction cs with
  | nil =>
    rw [decodeReplace]
    rfl
  | cons c cs ih =>
    have hsplit : encode (c :: cs) = String.utf8EncodeChar c ++ encode cs := rfl
    have hne : encode (c :: cs) ≠ [] := fun h => by
      have hnil := (List.append_eq_nil_iff.mp (hsplit.symm.trans h)).1
      have := c.utf8Size_pos
      rw [← String.length_utf8EncodeChar, hnil] at this
      cases this
    have hdec : (encode (c :: cs)).toByteArray.utf8DecodeChar? 0 = some c := by
      rw [hsplit, List.toByteArray_append]
      exact ByteArray.utf8DecodeChar?_utf8EncodeChar_append
    rw [decodeReplace, if_neg hne, hdec]
    dsimp only
    rw [hsplit, List.drop_left' (String.length_utf8EncodeChar c), ih]

end Utf8
