import PendantClient.Batch
import PendantClient.Ble
import PendantClient.Lib.WireRecord

/-! The two readers of a capture file, on any content. Each takes the same records of the file, one after the other,
    and makes its own of them. The varint decoder of both has a counterpart in the transport, which has a limit. -/

namespace PendantClient

/-! ### Records -/

/-- A record of the file: the number of its field and, if it has a length, its bytes, cut at the end of the file. -/
def readRecord (data : Bytes) (pos : Nat) (records : List (Nat × Bytes)) : Except PyError (Nat × List (Nat × Bytes)) := do
  let (tag, pos) ← readVarint data pos
  if tag % 8 = 0 then
    let (_, pos) ← readVarint data pos
    .ok (pos, records)
  else if tag % 8 = 1 then .ok (pos + 8, records)
  else if tag % 8 = 2 then
    let (length, pos) ← readVarint data pos
    .ok (pos + length, records ++ [(tag / 8, (data.drop pos).take length)])
  else if tag % 8 = 5 then .ok (pos + 4, records)
  else .error (.valueError "unsupported wire type")

/-- What is read of a record that is whole. -/
def recordFields {k : Nat} (r : Wire.Record k) : List (Nat × Bytes) :=
  match r.value with
  | .varint _ => []
  | .bytes buf => [(r.num, buf)]

/-- The bytes of the records of a field. -/
def bodies (number : Nat) (records : List (Nat × Bytes)) : List Bytes :=
  (records.filter fun record => record.1 = number).map Prod.snd

/-- What the second reader knows after these records. -/
structure Describes (info : BatchMetadata) (records : List (Nat × Bytes)) : Prop where
  messages : info.messages = (bodies 1 records).length
  bleIdentifier : info.bleIdentifier = ((bodies 2 records).getLast?.map decodeUtf8Replace).getD []

section
variable {data : Bytes} {pos : Nat} {records : List (Nat × Bytes)}

theorem bodies_concat (number num : Nat) (body : Bytes) (records : List (Nat × Bytes)) :
    bodies number (records ++ [(num, body)]) = bodies number records ++ if num = number then [body] else [] := by
  unfold bodies
  rw [List.filter_append, List.map_append]
  by_cases h : num = number <;> simp [h]

theorem readMessageField_alike {yielded : List Bytes} (h : yielded = bodies 1 records) :
    Alike (fun x y => x.1 = y.1 ∧ x.2 = bodies 1 y.2) (readMessageField data pos yielded) (readRecord data pos records) := by
  unfold readMessageField readRecord
  refine (Alike.refl _).bind ?_
  rintro ⟨tag, p⟩ _ rfl
  dsimp only
  rw [Wire.and_7, Wire.shiftRight_3]
  refine .ite (fun _ => ?_) fun _ => .ite (fun _ => .ok ⟨rfl, h⟩) fun _ => .ite (fun _ => ?_) fun _ =>
    .ite (fun _ => .ok ⟨rfl, h⟩) fun _ => .error _ _
  · refine (Alike.refl _).bind ?_
    rintro ⟨v, q⟩ _ rfl
    exact .ok ⟨rfl, h⟩
  · refine (Alike.refl _).bind ?_
    rintro ⟨length, q⟩ _ rfl
    dsimp only
    split
    · rename_i hone
      refine .ok ⟨rfl, ?_⟩
      rw [bodies_concat, if_pos hone, h, slice_add]
    · rename_i hother
      refine .ok ⟨rfl, ?_⟩
      rw [bodies_concat, if_neg hother, List.append_nil, h]

theorem readMetadataField_alike {info : BatchMetadata} (h : Describes info records) :
    Alike (fun x y => x.1 = y.1 ∧ Describes x.2 y.2) (readMetadataField data pos info) (readRecord data pos records) := by
  unfold readMetadataField readRecord
  refine (Alike.refl _).bind ?_
  rintro ⟨tag, p⟩ _ rfl
  dsimp only
  rw [Wire.and_7, Wire.shiftRight_3]
  by_cases htwo : tag % 8 = 2
  · -- the branches that the other reader tries before this one
    rw [if_pos htwo, if_neg (by omega), if_neg (by omega), if_pos htwo]
    refine (Alike.refl _).bind ?_
    rintro ⟨length, q⟩ _ rfl
    dsimp only
    split
    · rename_i hone
      refine .ok ⟨rfl, ?_, ?_⟩
      · rw [bodies_concat, if_pos hone, List.length_append, ← h.messages]
        rfl
      · rw [bodies_concat, if_neg (by omega), List.append_nil]
        exact h.bleIdentifier
    · rename_i hone
      split
      · rename_i hidentifier
        refine .ok ⟨rfl, ?_, ?_⟩
        · rw [bodies_concat, if_neg hone, List.append_nil]
          exact h.messages
        · rw [bodies_concat, if_pos hidentifier, List.getLast?_concat, slice_add]
          rfl
      · rename_i hother
        refine .ok ⟨rfl, ?_, ?_⟩
        · rw [bodies_concat, if_neg hone, List.append_nil]
          exact h.messages
        · rw [bodies_concat, if_neg hother, List.append_nil]
          exact h.bleIdentifier
  · rw [if_neg htwo]
    refine .ite (fun _ => ?_) fun _ => .ite (fun _ => .ok ⟨rfl, h⟩) fun _ => ?_
    · refine (Alike.refl _).bind ?_
      rintro ⟨v, q⟩ _ rfl
      exact .ok ⟨rfl, h⟩
    · rw [if_neg htwo]
      exact .ite (fun _ => .ok ⟨rfl, h⟩) fun _ => .error _ _

/-- The records of a file, one after the other. -/
def recordReader (data : Bytes) : Reader (List (Nat × Bytes)) PyError where
  step := readRecord data
  advances := by
    intro pos pos' records records' h
    have halike : Alike _ (readMessageField data pos (bodies 1 records)) _ := readMessageField_alike rfl
    cases hmessage : readMessageField data pos (bodies 1 records) with
    | error e =>
      rw [h, hmessage] at halike
      cases halike
    | ok x =>
      rw [h, hmessage] at halike
      obtain ⟨p, yielded⟩ := x
      obtain rfl : p = pos' := by
        cases halike with
        | ok hrel => exact hrel.1
      exact readMessageField_pos hmessage

/-- The records of a file up to its end, or up to one that cannot be read. -/
def readRecords (data : Bytes) : List (Nat × Bytes) × Option PyError := (recordReader data).scan data.length 0 []

end

/-! ### Whole records -/

section
variable {data rest : Bytes} {pos k : Nat} {records : List (Nat × Bytes)}

theorem readVarint_of_varint {bytes : Bytes} {v : Nat} (h : data.drop pos = bytes ++ rest) (hv : Leb128.Varint bytes v) :
    readVarint data pos = .ok (v, pos + bytes.length) := by
  rw [readVarint, h, Leb128.decodeFrom_varint hv rest (by simp) (by simp)]
  simp only [Nat.zero_add, Nat.pow_zero, Nat.mul_one]
  rfl

/-- From the bytes of a record its field and its bytes are read. -/
theorem readRecord_record {r : Wire.Record k} (h : data.drop pos = r.bytes ++ rest) :
    readRecord data pos records = .ok (pos + r.bytes.length, records ++ recordFields r) := by
  obtain ⟨num, value, bytes, writes⟩ := r
  cases writes with
  | varint isTag _ isValue _ =>
    rw [List.append_assoc] at h
    rw [readRecord, readVarint_of_varint h isTag, ok_bind]
    dsimp only
    rw [if_pos (by omega), readVarint_of_varint (drop_of_drop_append h) isValue, ok_bind, List.length_append, Nat.add_assoc]
    simp [recordFields]
  | @bytes tag length buf isTag _ isLength _ =>
    simp only [List.append_assoc] at h
    have hlength := drop_of_drop_append h
    rw [readRecord, readVarint_of_varint h isTag, ok_bind]
    dsimp only
    rw [if_neg (by omega), if_neg (by omega), if_pos (by omega), readVarint_of_varint hlength isLength, ok_bind]
    dsimp only
    rw [drop_of_drop_append hlength, List.take_left, show (8 * num + 2) / 8 = num by omega]
    simp only [List.length_append, Nat.add_assoc]
    rfl

/-- A file of whole records is read as these records. -/
theorem readRecords_flatten (rs : List (Wire.Record k)) :
    readRecords (Wire.Record.flatten rs) = (rs.flatMap recordFields, none) := by
  have hdrop : (Wire.Record.flatten rs).drop 0 = Wire.Record.flatten rs ++ [] := by simp
  rw [readRecords, Reader.scan_pieces (r := recordReader _) (fun r => r.writes.ne_nil) (fun h => readRecord_record h) rs hdrop,
    Reader.scan_done (by simp [Wire.Record.flatten]), List.foldl_append_eq_append, List.nil_append, List.flatMap_def]

end

/-! ### Both readers -/

/-- The readers both raise, or both give what they make of the file's records. -/
theorem readers_agree (data : Bytes) :
    (∃ e e', (iterMessages data).2 = some e ∧ readMetadata data = .error e') ∨
    ∃ records messages info, readRecords data = (records, none) ∧ iterMessages data = (messages, none) ∧
      readMetadata data = .ok info ∧ messages = bodies 1 records ∧ info.messages = messages.length ∧
      info.bleIdentifier = ((bodies 2 records).getLast?.map decodeUtf8Replace).getD [] ∧ info.sizeBytes = data.length := by
  have hmessages : ((messageReader data).scan data.length 0 []).1 = bodies 1 (readRecords data).1 ∧ _ :=
    Reader.scan_alike (R := fun yielded records => yielded = bodies 1 records) (fun _ _ _ => readMessageField_alike) rfl
  have hinfo : Describes ((metadataReader data).scan data.length 0 {}).1 (readRecords data).1 ∧ _ :=
    Reader.scan_alike (R := Describes) (fun _ _ _ => readMetadataField_alike) ⟨rfl, rfl⟩
  obtain ⟨hmessages, hraises⟩ := hmessages
  obtain ⟨hinfo, hraises'⟩ := hinfo
  unfold iterMessages readMetadata
  unfold readRecords at hmessages hinfo ⊢
  generalize (messageReader data).scan data.length 0 [] = result at hmessages hraises ⊢
  generalize (metadataReader data).scan data.length 0 {} = result' at hinfo hraises' ⊢
  generalize (recordReader data).scan data.length 0 [] = scanned at hmessages hraises hinfo hraises' ⊢
  obtain ⟨messages, e⟩ := result
  obtain ⟨info, e'⟩ := result'
  obtain ⟨records, e''⟩ := scanned
  cases e'' with
  | none =>
    have hnone : e = none := Option.not_isSome_iff_eq_none.mp fun h => by cases hraises.mp h
    have hnone' : e' = none := Option.not_isSome_iff_eq_none.mp fun h => by cases hraises'.mp h
    subst hnone hnone'
    exact .inr ⟨records, messages, _, rfl, rfl, rfl, hmessages, hinfo.messages.trans (congrArg List.length hmessages.symm),
      hinfo.bleIdentifier, rfl⟩
  | some d =>
    obtain ⟨d', rfl⟩ := Option.isSome_iff_exists.mp (hraises.mpr rfl)
    obtain ⟨d', rfl⟩ := Option.isSome_iff_exists.mp (hraises'.mpr rfl)
    exact .inl ⟨_, _, rfl, rfl⟩

/-! ### The two varint decoders -/

/-- The decoder of the transport and that of the capture file both raise at the position, or give the same value and the same
    new position. -/
def DecodersAgree (data : Bytes) (pos : Nat) : Prop := (varintDecode data pos).toOption = (readVarint data pos).toOption

/-- At the position is a whole varint of more than ten bytes. -/
def Overlong (data : Bytes) (pos : Nat) : Prop :=
  10 ≤ Leb128.continuations (data.drop pos) ∧ Leb128.continuations (data.drop pos) < (data.drop pos).length

theorem toOption_mapError {ε ε' α : Type} (f : ε → ε') (x : Except ε α) : (x.mapError f).toOption = x.toOption := by
  cases x <;> rfl

/-- Only the limit of the transport tells the decoders apart. -/
theorem varint_decoders_agree_iff (data : Bytes) (pos : Nat) : DecodersAgree data pos ↔ ¬Overlong data pos := by
  rw [DecodersAgree, Overlong, varintDecode, readVarint, toOption_mapError, toOption_mapError,
    Leb128.decodeFrom_some _ (Nat.zero_le 63)]
  have hle := Leb128.continuations_le (data.drop pos)
  by_cases hlong : 63 < 0 + 7 * Leb128.continuations (data.drop pos)
  · -- the transport refuses the varint, and the file's decoder only if it has no end
    rw [if_pos hlong]
    refine eq_comm.trans (Leb128.decodeFrom_none_eq_none _ |>.trans ?_)
    omega
  · rw [if_neg hlong]
    exact iff_of_true rfl fun h => by omega

/-- Ten bytes of nothing and a last one: the transport raises, the file's decoder gives 0. -/
theorem overlong_zero_is_read : varintDecode (List.replicate 10 0x80 ++ [0]) 0 = .error (.valueError "varint too long") ∧
    readVarint (List.replicate 10 0x80 ++ [0]) 0 = .ok (0, 11) ∧ ¬DecodersAgree (List.replicate 10 0x80 ++ [0]) 0 := by
  refine ⟨by decide +kernel, by decide +kernel, ?_⟩
  rw [DecodersAgree]
  decide +kernel

end PendantClient
