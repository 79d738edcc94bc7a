import PendantClient.Ble
import PendantClient.Lib.WireRecord

/-! The fragment wrapper: what the decoder makes of one record, and of any records one after the other. Records of
    different fields do not disturb each other, so the order of a fragment's records does not matter. -/

namespace PendantClient

/-! ### Varints -/

theorem varintEncode_length_le {v : Nat} (hv : v < 2 ^ 70) : (varintEncode v).length ≤ 10 :=
  Leb128.length_encode_le (by decide) (by rw [show (128 : Nat) ^ 10 = 2 ^ 70 by norm_num]; exact hv)

theorem varintDecode_of_drop {data bytes rest : Bytes} {pos v : Nat} (h : data.drop pos = bytes ++ rest)
    (hv : Leb128.Varint bytes v) (hlen : bytes.length ≤ 10) : varintDecode data pos = .ok (v, pos + bytes.length) := by
  unfold varintDecode
  rw [h, Leb128.decodeFrom_varint hv rest (by simp) fun m hm => by cases hm; omega]
  simp only [Nat.zero_add, Nat.pow_zero, Nat.mul_one]
  rfl

theorem varintEncode_tag {tag : Nat} (h : tag ≤ 0x7F) : varintEncode tag = [UInt8.ofNat tag] := Leb128.encode_small h

/-! ### Fields -/

section
variable {data rest : Bytes} {pos : Nat} {frag : IncomingFragment}

/-- What `decode_fragment` does with a varint field. -/
def IncomingFragment.setVarint (frag : IncomingFragment) (fieldNum v : Nat) : IncomingFragment :=
  if fieldNum = 1 then { frag with index := v }
  else if fieldNum = 2 then { frag with seq := v }
  else if fieldNum = 3 then { frag with numFragments := v }
  else frag

/-- What `decode_fragment` does with a length-delimited field. -/
def IncomingFragment.setBytes (frag : IncomingFragment) (fieldNum : Nat) (buf : Bytes) : IncomingFragment :=
  if fieldNum = 4 then { frag with payload := buf } else frag

/-- The tag of a field: its number above the three bits of its wire type. -/
def wireTag (fieldNum wireType : Nat) : Nat := 8 * fieldNum + wireType

theorem wireTag_wireType {fieldNum wireType : Nat} (h : wireType < 8) : wireTag fieldNum wireType &&& 0x07 = wireType := by
  rw [Wire.and_7, wireTag]
  omega

theorem wireTag_fieldNum {fieldNum wireType : Nat} (h : wireType < 8) : wireTag fieldNum wireType >>> 3 = fieldNum := by
  rw [Wire.shiftRight_3, wireTag]
  omega

theorem decodeField_varint {fieldNum v : Nat} {tag value : Bytes} (h : data.drop pos = tag ++ (value ++ rest))
    (ht : Leb128.Varint tag (wireTag fieldNum 0)) (htl : tag.length ≤ 10) (hv : Leb128.Varint value v)
    (hvl : value.length ≤ 10) :
    decodeField data pos frag = .ok (pos + tag.length + value.length, frag.setVarint fieldNum v) := by
  have h' := drop_of_drop_append h
  unfold decodeField
  rw [varintDecode_of_drop h ht htl, ok_bind]
  dsimp only
  rw [wireTag_wireType (by decide), wireTag_fieldNum (by decide), if_pos rfl, varintDecode_of_drop h' hv hvl, ok_bind]
  dsimp only [IncomingFragment.setVarint]
  repeat' split
  all_goals rfl

/-- The value is what is there of the announced bytes: the slice clips. -/
theorem decodeField_bytes {fieldNum n : Nat} {tag length : Bytes} (h : data.drop pos = tag ++ (length ++ rest))
    (ht : Leb128.Varint tag (wireTag fieldNum 2)) (htl : tag.length ≤ 10) (hl : Leb128.Varint length n)
    (hll : length.length ≤ 10) :
    decodeField data pos frag =
      .ok (pos + tag.length + length.length + n, frag.setBytes fieldNum (rest.take n)) := by
  have h' := drop_of_drop_append h
  have h'' := drop_of_drop_append h'
  unfold decodeField
  rw [varintDecode_of_drop h ht htl, ok_bind]
  dsimp only
  rw [wireTag_wireType (by decide), wireTag_fieldNum (by decide), if_neg (by decide), if_pos rfl,
    varintDecode_of_drop h' hl hll, ok_bind]
  dsimp only [IncomingFragment.setBytes]
  rw [slice_add, h'']
  split <;> rfl

end

/-! ### Records -/

/-- What `decode_fragment` does with a record. -/
def IncomingFragment.set (frag : IncomingFragment) (r : Wire.Record 10) : IncomingFragment :=
  match r.value with
  | .varint v => frag.setVarint r.num v
  | .bytes buf => frag.setBytes r.num buf

section
variable {data rest : Bytes} {pos : Nat} {frag : IncomingFragment}

theorem decodeField_record {r : Wire.Record 10} (h : data.drop pos = r.bytes ++ rest) :
    decodeField data pos frag = .ok (pos + r.bytes.length, frag.set r) := by
  obtain ⟨num, value, bytes, writes⟩ := r
  cases writes with
  | varint isTag tagLength isValue valueLength =>
    rw [List.append_assoc] at h
    rw [decodeField_varint h isTag tagLength isValue valueLength, List.length_append, Nat.add_assoc]
    rfl
  | @bytes tag length buf isTag tagLength isLength lengthLength =>
    simp only [List.append_assoc] at h
    rw [decodeField_bytes h isTag tagLength isLength lengthLength, List.take_left]
    simp only [List.length_append, Nat.add_assoc]
    rfl

/-- The decoder goes through whole records, whatever follows them. -/
theorem scan_records (records : List (Wire.Record 10)) (h : data.drop pos = Wire.Record.flatten records ++ rest) :
    (fragmentReader data).scan data.length pos frag =
      (fragmentReader data).scan data.length (pos + (Wire.Record.flatten records).length)
        (records.foldl IncomingFragment.set frag) :=
  Reader.scan_pieces (r := fragmentReader data) (fun r => r.writes.ne_nil) (fun h => decodeField_record h) records h

theorem decodeFragment_flatten (records : List (Wire.Record 10)) :
    decodeFragment (Wire.Record.flatten records) = .ok (records.foldl IncomingFragment.set {}) := by
  have h : (Wire.Record.flatten records).drop 0 = Wire.Record.flatten records ++ [] := by simp
  unfold decodeFragment
  rw [scan_records records h, Reader.scan_done (by omega)]

end

/-- Two records that do not both set the same part of a fragment can be read in either order. -/
theorem IncomingFragment.set_comm {r r' : Wire.Record 10} (frag : IncomingFragment)
    (h : r.num ≠ r'.num ∨ r.num ∉ [1, 2, 3, 4]) : (frag.set r).set r' = (frag.set r').set r := by
  simp only [IncomingFragment.set, IncomingFragment.setVarint, IncomingFragment.setBytes]
  cases r.value <;> cases r'.value <;> grind

theorem IncomingFragment.set_unknown {r : Wire.Record 10} (frag : IncomingFragment) (h : r.num ∉ [1, 2, 3, 4]) :
    frag.set r = frag := by
  simp only [IncomingFragment.set, IncomingFragment.setVarint, IncomingFragment.setBytes]
  cases r.value <;> grind

theorem IncomingFragment.foldl_set_unknown {records : List (Wire.Record 10)} (frag : IncomingFragment)
    (h : ∀ r ∈ records, r.num ∉ [1, 2, 3, 4]) : records.foldl IncomingFragment.set frag = frag := by
  induction records with
  | nil => rfl
  | cons r records ih =>
    rw [List.foldl_cons, frag.set_unknown (h r List.mem_cons_self), ih fun r' hr' => h r' (List.mem_cons_of_mem r hr')]

/-! ### A whole fragment -/

/-- A varint record of a field of the wrapper. -/
def varintRecord (num : Fin 5) {v : Nat} (hv : v < 2 ^ 70) : Wire.Record 10 :=
  .ofVarint num v (Leb128.length_encode_le (by decide) (by omega)) (varintEncode_length_le hv)

/-- The four records of an encoded fragment. -/
def fragmentRecords {index seq numFrags : Nat} {payload : Bytes} (hi : index < 2 ^ 70) (hs : seq < 2 ^ 70)
    (hn : numFrags < 2 ^ 70) (hp : payload.length < 2 ^ 70) : List (Wire.Record 10) :=
  [varintRecord 1 hi, varintRecord 2 hs, varintRecord 3 hn,
    .ofBytes 4 payload (Leb128.length_encode_le (by decide) (by decide)) (varintEncode_length_le hp)]

section
variable {index seq numFrags : Nat} {payload : Bytes} (hi : index < 2 ^ 70) (hs : seq < 2 ^ 70) (hn : numFrags < 2 ^ 70)
  (hp : payload.length < 2 ^ 70)

theorem encodeFragment_eq_flatten :
    encodeFragment index seq numFrags payload = Wire.Record.flatten (fragmentRecords hi hs hn hp) := by
  have tags : ([0x08], [0x10], [0x18], [0x22]) =
      (varintEncode (wireTag 1 0), varintEncode (wireTag 2 0), varintEncode (wireTag 3 0), varintEncode (wireTag 4 2)) := by
    simp only [varintEncode_tag (show wireTag 1 0 ≤ 0x7F by decide), varintEncode_tag (show wireTag 2 0 ≤ 0x7F by decide),
      varintEncode_tag (show wireTag 3 0 ≤ 0x7F by decide), varintEncode_tag (show wireTag 4 2 ≤ 0x7F by decide)]
    rfl
  simp only [Prod.mk.injEq] at tags
  obtain ⟨t1, t2, t3, t4⟩ := tags
  rw [encodeFragment, t1, t2, t3, t4]
  simp only [fragmentRecords, Wire.Record.flatten, List.flatMap_cons, List.flatMap_nil, varintRecord, Wire.Record.ofVarint,
    Wire.Record.ofBytes, List.append_assoc, List.append_nil]
  rfl

theorem fragmentRecords_nums : (fragmentRecords hi hs hn hp).map (·.num) = [1, 2, 3, 4] := rfl

theorem foldl_fragmentRecords :
    (fragmentRecords hi hs hn hp).foldl IncomingFragment.set {} = ⟨index, seq, numFrags, payload⟩ := rfl

/-- Its records, in any order and with records of other fields anywhere between them, are read as the fragment. -/
theorem decodeFragment_of_perm {records others : List (Wire.Record 10)} (hothers : ∀ r ∈ others, r.num ∉ [1, 2, 3, 4])
    (hperm : records.Perm (fragmentRecords hi hs hn hp ++ others)) :
    decodeFragment (Wire.Record.flatten records) = .ok ⟨index, seq, numFrags, payload⟩ := by
  have hcomm : ∀ r ∈ fragmentRecords hi hs hn hp ++ others, ∀ r' ∈ fragmentRecords hi hs hn hp ++ others,
      ∀ frag : IncomingFragment, (frag.set r).set r' = (frag.set r').set r := by
    intro r hr r' hr' frag
    rcases List.mem_append.mp hr with hown | hother
    · rcases List.mem_append.mp hr' with hown' | hother'
      · by_cases hnum : r.num = r'.num
        · have hnodup : ((fragmentRecords hi hs hn hp).map (·.num)).Nodup := by
            rw [fragmentRecords_nums]
            decide
          rw [List.inj_on_of_nodup_map hnodup hown hown' hnum]
        · exact frag.set_comm (.inl hnum)
      · exact (frag.set_comm (.inr (hothers r' hother'))).symm
    · exact frag.set_comm (.inr (hothers r hother))
  rw [decodeFragment_flatten, ← hperm.symm.foldl_eq' hcomm, List.foldl_append, foldl_fragmentRecords,
    IncomingFragment.foldl_set_unknown _ hothers]

include hi hs hn hp in
theorem decodeFragment_encodeFragment :
    decodeFragment (encodeFragment index seq numFrags payload) = .ok ⟨index, seq, numFrags, payload⟩ := by
  rw [encodeFragment_eq_flatten hi hs hn hp, decodeFragment_flatten, foldl_fragmentRecords]

end

theorem PySeq.length_lt {α : Type} (s : PySeq α) : s.items.length < 2 ^ 70 := by
  have := s.bounded
  unfold maxsize at this
  omega

/-- The codec gives back the four values, and does so for the records of an encoding in any order with well-formed
    records of other fields anywhere between them. -/
theorem fragment_codec {index seq numFrags : Nat} (payload : PySeq UInt8) (hi : index < 2 ^ 70) (hs : seq < 2 ^ 70)
    (hn : numFrags < 2 ^ 70) :
    decodeFragment (encodeFragment index seq numFrags payload.items) = .ok ⟨index, seq, numFrags, payload.items⟩ ∧
    encodeFragment index seq numFrags payload.items = Wire.Record.flatten (fragmentRecords hi hs hn payload.length_lt) ∧
    ∀ records others : List (Wire.Record 10), (∀ r ∈ others, r.num ∉ [1, 2, 3, 4]) →
      records.Perm (fragmentRecords hi hs hn payload.length_lt ++ others) →
      decodeFragment (Wire.Record.flatten records) = .ok ⟨index, seq, numFrags, payload.items⟩ :=
  ⟨decodeFragment_encodeFragment hi hs hn payload.length_lt, encodeFragment_eq_flatten hi hs hn payload.length_lt,
    fun _ _ hothers hperm => decodeFragment_of_perm hi hs hn payload.length_lt hothers hperm⟩

/-- Field 9 with the value 1 in two bytes, one more than it needs. -/
def paddedRecord : Wire.Record 10 where
  num := 9
  value := .varint 1
  bytes := [0x48, 0x81, 0x00]
  writes :=
    have isTag : Leb128.Varint [0x48] (8 * 9) := .last (by decide)
    have isValue : Leb128.Varint [0x81, 0x00] 1 := .more (show 1 < 128 by decide) (.last (show 0 < 128 by decide))
    .varint isTag (by decide) isValue (by decide)

theorem fragment_codec_sample :
    decodeFragment (encodeFragment 12345 2 5 [0xAA, 0xBB]) = .ok ⟨12345, 2, 5, [0xAA, 0xBB]⟩ ∧
    decodeFragment (Wire.Record.flatten ([paddedRecord] ++ (fragmentRecords (show 12345 < 2 ^ 70 by decide)
      (show 2 < 2 ^ 70 by decide) (show 5 < 2 ^ 70 by decide) (show [0xAA, 0xBB].length < 2 ^ 70 by decide)).reverse)) =
      .ok ⟨12345, 2, 5, [0xAA, 0xBB]⟩ := by
  obtain ⟨hround, -, hperm⟩ := fragment_codec ⟨[0xAA, 0xBB], by decide⟩ (show 12345 < 2 ^ 70 by decide)
    (show 2 < 2 ^ 70 by decide) (show 5 < 2 ^ 70 by decide)
  refine ⟨hround, hperm _ [paddedRecord] (fun r hr => ?_) ?_⟩
  · rw [List.mem_singleton.mp hr]
    decide
  · exact List.perm_append_comm.trans ((List.reverse_perm _).append_right _)

end PendantClient
