import PendantClient.Theorems.Fragment

/-! Truncated notifications. The loop of `decode_fragment` reads whole records until the data ends or a
    length-delimited record announces more bytes than are left; that one it clips. -/

namespace PendantClient

/-- The positions at which the loop of `decode_fragment` reads a record. -/
inductive Visited (data : Bytes) : Nat → Prop
  | start (h : 0 < data.length) : Visited data 0
  | next {pos pos' : Nat} {frag frag' : IncomingFragment} (before : Visited data pos)
      (field : decodeField data pos frag = .ok (pos', frag')) (h : pos' < data.length) : Visited data pos'

/-- The record at `pos` is length-delimited: its value takes `length` bytes from `start` on. -/
def LengthDelimitedAt (data : Bytes) (pos start length : Nat) : Prop :=
  ∃ tag p, varintDecode data pos = .ok (tag, p) ∧ tag &&& 0x07 = 2 ∧ varintDecode data p = .ok (length, start)

/-- If `decode_fragment` returns, every length-delimited field it consumed lies inside the data. -/
def FieldsInside (data : Bytes) : Prop :=
  ∀ frag, decodeFragment data = .ok frag → ∀ pos start length, Visited data pos →
    LengthDelimitedAt data pos start length → start + length ≤ data.length

/-! ### What has been read -/

section
variable {data rest : Bytes} {pos pos' : Nat}

theorem varintDecode_inv {v : Nat} (h : varintDecode data pos = .ok (v, pos')) :
    ∃ bytes rest, data.drop pos = bytes ++ rest ∧ Leb128.Varint bytes v ∧ bytes.length ≤ 10 ∧
      pos' = pos + bytes.length := by
  unfold varintDecode at h
  cases hd : Leb128.decodeFrom (some 63) (data.drop pos) 0 0 pos with
  | error e =>
    rw [hd] at h
    cases h
  | ok x =>
    rw [hd] at h
    cases h
    obtain ⟨bytes, value, rest, hdata, hv, hval, hpos, hlen⟩ := Leb128.varint_of_decodeFrom (by decide) (by simp) hd
    have := hlen 63 rfl
    simp only [Nat.zero_add, Nat.pow_zero, Nat.mul_one] at hval
    exact ⟨bytes, rest, hdata, hval ▸ hv, by omega, hpos⟩

theorem tag_split {tag wireType : Nat} (h : tag &&& 0x07 = wireType) : tag = 8 * (tag >>> 3) + wireType := by
  rw [Wire.and_7] at h
  rw [Wire.shiftRight_3]
  omega

theorem decodeField_inv {frag frag' : IncomingFragment} (h : decodeField data pos frag = .ok (pos', frag'))
    (hin : pos' ≤ data.length) :
    ∃ (r : Wire.Record 10) (rest : Bytes), data.drop pos = r.bytes ++ rest ∧ pos' = pos + r.bytes.length := by
  unfold decodeField at h
  obtain ⟨⟨tag, p⟩, htag, h⟩ := bind_eq_ok.mp h
  obtain ⟨tagBytes, rest, hdrop, isTag, tagLength, rfl⟩ := varintDecode_inv htag
  have hdrop' := drop_of_drop_append hdrop
  dsimp only at h
  split at h
  · rename_i htype
    obtain ⟨⟨v, p'⟩, hv, h⟩ := bind_eq_ok.mp h
    obtain ⟨valueBytes, rest', hrest, isValue, valueLength, rfl⟩ := varintDecode_inv hv
    have hpos : pos' = pos + tagBytes.length + valueBytes.length := by
      dsimp only at h
      repeat' split at h
      all_goals
        cases h
        rfl
    rw [tag_split htype] at isTag
    refine ⟨⟨_, _, _, .varint isTag tagLength isValue valueLength⟩, rest', ?_, ?_⟩
    · rw [hdrop, ← hdrop', hrest, List.append_assoc]
    · rw [hpos, List.length_append, Nat.add_assoc]
  · split at h
    · rename_i htype
      obtain ⟨⟨n, p'⟩, hn, h⟩ := bind_eq_ok.mp h
      obtain ⟨lengthBytes, rest', hrest, isLength, lengthLength, rfl⟩ := varintDecode_inv hn
      have hrest' := drop_of_drop_append hrest
      have hpos : pos' = pos + tagBytes.length + lengthBytes.length + n := by
        dsimp only at h
        split at h <;>
        · cases h
          rfl
      have hbuf : (rest'.take n).length = n := by
        rw [List.length_take, ← hrest', List.length_drop]
        omega
      rw [tag_split htype] at isTag
      rw [← hbuf] at isLength
      refine ⟨⟨_, _, _, .bytes isTag tagLength isLength lengthLength⟩, rest'.drop n, ?_, ?_⟩
      · simp only [List.append_assoc, List.take_append_drop]
        rw [hdrop, ← hdrop', hrest]
      · simp only [List.length_append, hbuf]
        omega
    · cases h

/-- Before a position the loop reaches, the data is whole records. -/
theorem Visited.records (h : Visited data pos) :
    pos < data.length ∧ ∃ records : List (Wire.Record 10), data.take pos = Wire.Record.flatten records := by
  induction h with
  | start h => exact ⟨h, [], rfl⟩
  | @next pos pos' frag frag' _ field h ih =>
    obtain ⟨-, records, htake⟩ := ih
    obtain ⟨r, rest, hdrop, rfl⟩ := decodeField_inv field (Nat.le_of_lt h)
    refine ⟨h, records ++ [r], ?_⟩
    rw [List.take_add, htake, hdrop, List.take_left, Wire.Record.flatten_append, Wire.Record.flatten_cons]
    simp [Wire.Record.flatten]

theorem Visited.through (records : List (Wire.Record 10)) : ∀ {pos : Nat}, Visited data pos →
    data.drop pos = Wire.Record.flatten records ++ rest → rest ≠ [] →
    Visited data (pos + (Wire.Record.flatten records).length) := by
  induction records with
  | nil => intro pos h _ _; exact h
  | cons r records ih =>
    intro pos h hdrop hrest
    rw [Wire.Record.flatten_cons, List.append_assoc] at hdrop
    have hdrop' := drop_of_drop_append hdrop
    have hnext := lt_length_of_drop hdrop' (List.append_ne_nil_of_right_ne_nil _ hrest)
    have hfield : decodeField data pos {} = _ := decodeField_record hdrop
    have := ih (h.next hfield hnext) hdrop' hrest
    rwa [Nat.add_assoc, ← List.length_append, ← Wire.Record.flatten_cons] at this

/-- Whole records and a clipped one: the clipped one is taken with the bytes there are. -/
theorem decodeFragment_clipped {records : List (Wire.Record 10)} {num n : Nat} {tag length : Bytes}
    (hdata : data = Wire.Record.flatten records ++ (tag ++ (length ++ rest))) (isTag : Leb128.Varint tag (wireTag num 2))
    (tagLength : tag.length ≤ 10) (isLength : Leb128.Varint length n) (lengthLength : length.length ≤ 10)
    (hclip : rest.length < n) :
    decodeFragment data = .ok ((records.foldl IncomingFragment.set {}).setBytes num rest) := by
  have h0 : data.drop 0 = Wire.Record.flatten records ++ (tag ++ (length ++ rest)) := hdata
  have h1 := drop_of_drop_append h0
  have hlen : data.length = (Wire.Record.flatten records).length + tag.length + length.length + rest.length := by
    simp only [hdata, List.length_append]
    omega
  have hpos := isTag.length_pos
  have hfield : decodeField data _ (records.foldl IncomingFragment.set {}) = _ :=
    decodeField_bytes h1 isTag tagLength isLength lengthLength
  rw [List.take_of_length_le (Nat.le_of_lt hclip)] at hfield
  unfold decodeFragment
  rw [scan_records records h0, Reader.scan_ok (r := fragmentReader data) (by omega) hfield, Reader.scan_done (by omega)]

end

/-! ### The law -/

theorem clipped_of_not_inside {data : Bytes} (h : ¬FieldsInside data) : Wire.Clipped 10 data := by
  simp only [FieldsInside, not_forall] at h
  obtain ⟨_, _, pos, start, n, hvisited, ⟨tag, p, htag, htype, hlength⟩, hout⟩ := h
  obtain ⟨-, records, htake⟩ := hvisited.records
  obtain ⟨tagBytes, rest, hdrop, isTag, tagLength, rfl⟩ := varintDecode_inv htag
  obtain ⟨lengthBytes, rest', hrest, isLength, lengthLength, rfl⟩ := varintDecode_inv hlength
  have hrest' := drop_of_drop_append hrest
  rw [tag_split htype] at isTag
  refine ⟨records, tag >>> 3, n, tagBytes, lengthBytes, rest', ?_, isTag, tagLength, isLength, lengthLength, ?_⟩
  · rw [← htake, ← hrest, drop_of_drop_append hdrop, ← hdrop, List.take_append_drop]
  · have hlen := congrArg List.length hrest
    have hpos := isLength.length_pos
    rw [List.length_drop, List.length_append] at hlen
    omega

theorem not_inside_of_clipped {data : Bytes} (h : Wire.Clipped 10 data) : ¬FieldsInside data := by
  obtain ⟨records, num, n, tag, length, rest, hdata, isTag, tagLength, isLength, lengthLength, hclip⟩ := h
  intro hinside
  have h0 : data.drop 0 = Wire.Record.flatten records ++ (tag ++ (length ++ rest)) := hdata
  have hpos := isTag.length_pos
  have hlen : data.length = (Wire.Record.flatten records).length + tag.length + length.length + rest.length := by
    simp only [hdata, List.length_append]
    omega
  have hvisited := Visited.through records (.start (by omega)) h0
    (List.append_ne_nil_of_left_ne_nil (List.length_pos_iff.mp hpos) _)
  rw [Nat.zero_add] at hvisited
  have h1 := drop_of_drop_append h0
  rw [Nat.zero_add] at h1
  have htype : wireTag num 2 &&& 0x07 = 2 := wireTag_wireType (by decide)
  have hat : LengthDelimitedAt data (Wire.Record.flatten records).length
      ((Wire.Record.flatten records).length + tag.length + length.length) n :=
    ⟨_, _, varintDecode_of_drop h1 isTag tagLength, htype,
      varintDecode_of_drop (drop_of_drop_append h1) isLength lengthLength⟩
  have := hinside _ (decodeFragment_clipped hdata isTag tagLength isLength lengthLength hclip) _ _ _ hvisited hat
  omega

/-- A fragment cut inside its payload is read as a fragment with the shortened payload. -/
theorem decodeFragment_cut {index seq numFrags : Nat} (payload : PySeq UInt8) {k : Nat} (hi : index < 2 ^ 70)
    (hs : seq < 2 ^ 70) (hn : numFrags < 2 ^ 70) (hk : k < payload.items.length) :
    let encoded := encodeFragment index seq numFrags payload.items
    decodeFragment (encoded.take (encoded.length - payload.items.length + k)) =
      .ok ⟨index, seq, numFrags, payload.items.take k⟩ := by
  intro encoded
  let records : List (Wire.Record 10) := [varintRecord 1 hi, varintRecord 2 hs, varintRecord 3 hn]
  have hencoded : encoded = (Wire.Record.flatten records ++ (varintEncode (wireTag 4 2) ++
      varintEncode payload.items.length)) ++ payload.items := by
    show encodeFragment index seq numFrags payload.items = _
    rw [encodeFragment_eq_flatten hi hs hn payload.length_lt]
    simp only [fragmentRecords, records, Wire.Record.flatten, List.flatMap_cons, List.flatMap_nil, Wire.Record.ofBytes,
      List.append_assoc, List.append_nil]
    rfl
  rw [hencoded, List.length_append, Nat.add_sub_cancel, List.take_length_add_append]
  have hdata : Wire.Record.flatten records ++ (varintEncode (wireTag 4 2) ++ varintEncode payload.items.length) ++
      payload.items.take k = Wire.Record.flatten records ++ (varintEncode (wireTag 4 2) ++
        (varintEncode payload.items.length ++ payload.items.take k)) := by
    simp only [List.append_assoc]
  have hshort : (payload.items.take k).length < payload.items.length := by
    rw [List.length_take]
    omega
  exact decodeFragment_clipped hdata (Leb128.varint_encode _) (varintEncode_length_le (by decide))
    (Leb128.varint_encode payload.items.length) (varintEncode_length_le payload.length_lt) hshort

/-- The law holds of every input but those that end in a clipped record; a fragment cut inside its payload is such an
    input, and is read with the shortened payload. -/
theorem fields_inside_iff (data : Bytes) :
    (FieldsInside data ↔ ¬Wire.Clipped 10 data) ∧
    ∀ (index seq numFrags : Nat) (payload : PySeq UInt8) (k : Nat), index < 2 ^ 70 → seq < 2 ^ 70 → numFrags < 2 ^ 70 →
      k < payload.items.length →
      data = (encodeFragment index seq numFrags payload.items).take
        ((encodeFragment index seq numFrags payload.items).length - payload.items.length + k) →
      decodeFragment data = .ok ⟨index, seq, numFrags, payload.items.take k⟩ := by
  refine ⟨⟨fun hinside hclip => not_inside_of_clipped hclip hinside, fun h => ?_⟩, ?_⟩
  · exact Classical.byContradiction fun hn => h (clipped_of_not_inside hn)
  · rintro index seq numFrags payload k hi hs hn hk rfl
    exact decodeFragment_cut payload hi hs hn hk

/-- The last byte of a fragment is lost: the message is dispatched without it. -/
theorem cut_fragment_is_spliced :
    decodeFragment ((encodeFragment 7 0 1 [0xAA, 0xBB]).take 9) = .ok ⟨7, 0, 1, [0xAA]⟩ ∧
    (onData ∅ ((encodeFragment 7 0 1 [0xAA, 0xBB]).take 9)).2 = .dispatched [0xAA] ∧
    ¬FieldsInside ((encodeFragment 7 0 1 [0xAA, 0xBB]).take 9) := by
  refine ⟨by decide +kernel, by decide +kernel, fun h => ?_⟩
  have at2 : Visited ((encodeFragment 7 0 1 [0xAA, 0xBB]).take 9) 2 := .next (.start (by decide +kernel))
    (show decodeField _ 0 {} = .ok (2, ⟨7, 0, 0, []⟩) by decide +kernel) (by decide +kernel)
  have at4 : Visited ((encodeFragment 7 0 1 [0xAA, 0xBB]).take 9) 4 := .next at2
    (show decodeField _ 2 {} = .ok (4, ⟨0, 0, 0, []⟩) by decide +kernel) (by decide +kernel)
  have at6 : Visited ((encodeFragment 7 0 1 [0xAA, 0xBB]).take 9) 6 := .next at4
    (show decodeField _ 4 {} = .ok (6, ⟨0, 0, 1, []⟩) by decide +kernel) (by decide +kernel)
  have hlength : LengthDelimitedAt ((encodeFragment 7 0 1 [0xAA, 0xBB]).take 9) 6 8 2 :=
    ⟨0x22, 7, by decide +kernel, by decide, by decide +kernel⟩
  exact absurd (h ⟨7, 0, 1, [0xAA]⟩ (by decide +kernel) 6 8 2 at6 hlength) (by decide +kernel)

end PendantClient
