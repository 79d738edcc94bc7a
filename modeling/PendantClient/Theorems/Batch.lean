import PendantClient.Batch

/-! The capture file: what the writer leaves on disk, and what the two readers make of the whole file and of
    a file that was cut short. -/

namespace PendantClient

/-! ### The format -/

/-- A length-delimited field: its tag, its length and its body. -/
def encodeField (tag : UInt8) (body : Bytes) : Bytes := tag :: (encodeVarint body.length ++ body)

/-- The bytes before the body of a field. -/
def headerLength (body : Bytes) : Nat := 1 + (encodeVarint body.length).length

/-- The fields of the messages. -/
def encodeMessages (messages : List Bytes) : Bytes := messages.flatMap (encodeField 0x0A)

/-- The identifier is left out when it is empty. -/
def encodeIdentifier (idBytes : Bytes) : Bytes := if idBytes = [] then [] else encodeField 0x12 idBytes

/-- A `BatchIngestRequest` as the writer lays it out. -/
def encodeBatch (messages : List Bytes) (idBytes : Bytes) : Bytes := encodeMessages messages ++ encodeIdentifier idBytes

theorem length_encodeField (tag : UInt8) (body : Bytes) : (encodeField tag body).length = headerLength body + body.length := by
  rw [encodeField, List.length_cons, List.length_append, headerLength]
  omega

theorem fieldCount_eq (tag : UInt8) (body : Bytes) : fieldCount body = (encodeField tag body).length := by
  rw [length_encodeField, fieldCount, headerLength]

theorem encodeMessages_cons (m : Bytes) (rest : List Bytes) :
    encodeMessages (m :: rest) = encodeField 0x0A m ++ encodeMessages rest := List.flatMap_cons

theorem encodeMessages_append (ms rest : List Bytes) :
    encodeMessages (ms ++ rest) = encodeMessages ms ++ encodeMessages rest := List.flatMap_append

/-! ### The writer -/

/-- What a call writes. -/
def IoCall.bytes : IoCall → Bytes
  | .write bytes => bytes
  | _ => []

/-- None of the calls is anything but a write. -/
def OnlyWrites (calls : List IoCall) : Prop := ∀ call ∈ calls, ∃ bytes, call = .write bytes

theorem onlyWrites_fieldWrites (tag : UInt8) (body : Bytes) : OnlyWrites (fieldWrites tag body) := by
  intro call hcall
  simp only [fieldWrites, List.mem_cons, List.not_mem_nil, or_false] at hcall
  rcases hcall with rfl | rfl | rfl <;> exact ⟨_, rfl⟩

theorem OnlyWrites.append {xs ys : List IoCall} (hx : OnlyWrites xs) (hy : OnlyWrites ys) : OnlyWrites (xs ++ ys) := by
  intro call hcall
  rcases List.mem_append.mp hcall with h | h
  · exact hx call h
  · exact hy call h

theorem onlyWrites_nil : OnlyWrites [] := fun _ h => absurd h (by simp)

theorem fieldWrites_bytes (tag : UInt8) (body : Bytes) :
    (fieldWrites tag body).flatMap IoCall.bytes = encodeField tag body := by
  simp [fieldWrites, IoCall.bytes, encodeField]

theorem writeMessages_cons (m : Bytes) (rest : List Bytes) (total : Nat) :
    writeMessages (m :: rest) total =
      (fieldWrites 0x0A m ++ (writeMessages rest (total + fieldCount m)).1,
        (writeMessages rest (total + fieldCount m)).2) := rfl

/-- The writer's loop: only writes, the encoded messages in all, and the count of their bytes. -/
theorem writeMessages_spec (messages : List Bytes) : ∀ total,
    OnlyWrites (writeMessages messages total).1 ∧
      (writeMessages messages total).1.flatMap IoCall.bytes = encodeMessages messages ∧
      (writeMessages messages total).2 = total + (encodeMessages messages).length := by
  induction messages with
  | nil =>
    intro total
    exact ⟨onlyWrites_nil, rfl, rfl⟩
  | cons m rest ih =>
    intro total
    obtain ⟨honly, hbytes, hcount⟩ := ih (total + fieldCount m)
    rw [writeMessages_cons]
    refine ⟨(onlyWrites_fieldWrites _ _).append honly, ?_, ?_⟩
    · rw [List.flatMap_append, fieldWrites_bytes, hbytes, encodeMessages_cons]
    · dsimp only
      rw [hcount, encodeMessages_cons, List.length_append, fieldCount_eq 0x0A]
      omega

theorem execute_append {path : Path} {fault : Option IoFault} (calls rest : List IoCall) : ∀ {n : Nat} {s : Bytes × Files},
    (∀ f ∈ fault, n + calls.length ≤ f.call) →
    execute path fault (calls ++ rest) n s =
      execute path fault rest (n + calls.length) (calls.foldl (IoCall.perform path) s) := by
  induction calls with
  | nil =>
    intro n s _
    rfl
  | cons call calls ih =>
    intro n s hf
    rw [List.length_cons] at hf ⊢
    have hrest := ih (n := n + 1) (s := call.perform path s) fun f hfm => by
      have := hf f hfm
      omega
    rw [List.cons_append, List.foldl_cons, show n + (calls.length + 1) = n + 1 + calls.length by omega, ← hrest]
    cases fault with
    | none => rfl
    | some f =>
      have := hf f rfl
      rw [execute, if_neg (by omega)]

theorem perform_writes {path : Path} {writes : List IoCall} (h : OnlyWrites writes) : ∀ {written : Bytes} {files : Files},
    writes.foldl (IoCall.perform path) (written, files) = (written ++ writes.flatMap IoCall.bytes, files) := by
  induction writes with
  | nil =>
    intro written files
    rw [List.flatMap_nil, List.append_nil]
    rfl
  | cons call writes ih =>
    intro written files
    obtain ⟨bytes, rfl⟩ := h call (List.mem_cons_self ..)
    rw [List.foldl_cons, List.flatMap_cons, ← List.append_assoc]
    exact ih fun c hc => h c (List.mem_cons_of_mem _ hc)

theorem tmpPath_ne (path : Path) : path ≠ tmpPath path := by
  intro h
  have := congrArg String.length h
  rw [tmpPath, String.length_append] at this
  exact absurd this (by simp)

/-- The files once a capture of these bytes has been written. -/
def writtenFiles (files : Files) (path : Path) (data : Bytes) : Files :=
  Function.update (Function.update (Function.update (Function.update files (tmpPath path) (some [])) (tmpPath path)
    (some data)) path (some data)) (tmpPath path) none

theorem writtenFiles_path (files : Files) (path : Path) (data : Bytes) : writtenFiles files path data path = some data := by
  rw [writtenFiles, Function.update_of_ne (tmpPath_ne path), Function.update_self]

theorem writtenFiles_other {files : Files} {path p : Path} {data : Bytes} (hpath : p ≠ path) (htmp : p ≠ tmpPath path) :
    writtenFiles files path data p = files p := by
  rw [writtenFiles, Function.update_of_ne htmp, Function.update_of_ne hpath, Function.update_of_ne htmp,
    Function.update_of_ne htmp]

theorem execute_all {path : Path} {writes : List IoCall} (h : OnlyWrites writes) (files : Files) :
    execute path none ([.openTmp] ++ writes ++ [.flush, .close, .replace]) 0 ([], files) =
      (writtenFiles files path (writes.flatMap IoCall.bytes), false) := by
  rw [execute_append _ _ (by simp), List.foldl_append, List.foldl_cons, List.foldl_nil, IoCall.perform, perform_writes h,
    List.nil_append]
  simp only [execute, IoCall.perform, Function.update_self, writtenFiles]

theorem PyStr.encode_nil : PyStr.encode [] = .ok [] := rfl

theorem PyStr.encode_eq_nil {s : PyStr} (h : s.encode = .ok []) : s = [] :=
  (decodeUtf8Replace_encode h).symm.trans (congrArg PyStr.ofChars (Utf8.decodeReplace_encode []))

/-- The writer writes to the temporary file and closes it; it goes on to the replace when the iterable has ended and the
    identifier has an encoding, with the whole encoding written. -/
theorem batchCalls_cases (messages : MessageSource) (bleIdentifier : PyStr) : ∃ writes, OnlyWrites writes ∧
    ((∃ e, (messages.raises = some e ∨ bleIdentifier.encode = .error e) ∧
      writes.flatMap IoCall.bytes = encodeMessages messages.items ∧
      batchCalls messages bleIdentifier = ([.openTmp] ++ writes ++ [.close], .error e)) ∨
    ∃ idBytes, messages.raises = none ∧ bleIdentifier.encode = .ok idBytes ∧
      writes.flatMap IoCall.bytes = encodeBatch messages.items idBytes ∧
      batchCalls messages bleIdentifier =
        ([.openTmp] ++ writes ++ [.flush, .close, .replace], .ok (encodeBatch messages.items idBytes).length)) := by
  obtain ⟨honly, hbytes, hcount⟩ := writeMessages_spec messages.items 0
  unfold batchCalls
  dsimp only
  split
  · rename_i e hraises
    exact ⟨_, honly, .inl ⟨e, .inl hraises, hbytes, rfl⟩⟩
  · rename_i hends
    split
    · rename_i hempty
      have hb : encodeBatch messages.items [] = encodeMessages messages.items := by
        rw [encodeBatch, encodeIdentifier, if_pos rfl, List.append_nil]
      refine ⟨_, honly, .inr ⟨[], hends, by rw [hempty]; rfl, hbytes.trans hb.symm, ?_⟩⟩
      rw [hb, hcount, Nat.zero_add]
    · rename_i hne
      split
      · rename_i e hid
        exact ⟨_, honly, .inl ⟨e, .inr hid, hbytes, rfl⟩⟩
      · rename_i idBytes hid
        have hidBytes : idBytes ≠ [] := by
          rintro rfl
          exact hne (PyStr.encode_eq_nil hid)
        have hb : encodeBatch messages.items idBytes = encodeMessages messages.items ++ encodeField 0x12 idBytes := by
          rw [encodeBatch, encodeIdentifier, if_neg hidBytes]
        refine ⟨(writeMessages messages.items 0).1 ++ fieldWrites 0x12 idBytes,
          honly.append (onlyWrites_fieldWrites 0x12 idBytes), .inr ⟨idBytes, hends, hid, ?_, ?_⟩⟩
        · rw [List.flatMap_append, hbytes, fieldWrites_bytes, hb]
        · rw [hb, hcount, List.length_append, fieldCount_eq 0x12, Nat.zero_add, List.append_assoc [_]]

/-- A writer that meets no failure leaves the encoding at the path and returns its length. -/
theorem writeBatchIngestRequest_ok {bleIdentifier : PyStr} {idBytes : Bytes} (hid : bleIdentifier.encode = .ok idBytes)
    (files : Files) (messages : List Bytes) (path : Path) :
    writeBatchIngestRequest files { items := messages } bleIdentifier path none =
      (writtenFiles files path (encodeBatch messages idBytes), .ok (encodeBatch messages idBytes).length) := by
  obtain ⟨writes, honly, ⟨e, hraises | herror, -⟩ | ⟨idBytes', -, hid', hbytes, hcalls⟩⟩ :=
    batchCalls_cases { items := messages } bleIdentifier
  · cases hraises
  · rw [hid] at herror
    cases herror
  · rw [hid] at hid'
    cases hid'
    rw [writeBatchIngestRequest, hcalls]
    dsimp only
    rw [execute_all honly, hbytes]
    rfl

/-! ### One field for a reader -/

section
variable {data rest body : Bytes} {pos : Nat}

theorem readVarint_of_drop {v : Nat} (h : data.drop pos = encodeVarint v ++ rest) :
    readVarint data pos = .ok (v, pos + (encodeVarint v).length) := by
  unfold readVarint
  unfold encodeVarint at h ⊢
  rw [h, Leb128.decodeFrom_encode v rest (by simp) (by simp)]
  simp only [Nat.zero_add, Nat.pow_zero, Nat.mul_one]
  rfl

theorem readVarint_tag {t : Nat} (ht : t < 128) (h : data.drop pos = UInt8.ofNat t :: rest) :
    readVarint data pos = .ok (t, pos + 1) := by
  have henc : encodeVarint t = [UInt8.ofNat t] := Leb128.encode_small (by omega)
  have hdrop : data.drop pos = encodeVarint t ++ rest := by
    rw [h, henc]
    rfl
  rw [readVarint_of_drop hdrop, henc]
  rfl

theorem readVarint_truncated {v j : Nat} (h : data.drop pos = (encodeVarint v).take j) (hj : j < (encodeVarint v).length) :
    readVarint data pos = .error (.valueError "truncated varint") := by
  unfold readVarint
  unfold encodeVarint at h hj
  rw [h, Leb128.decodeFrom_take v hj (by simp)]
  rfl

theorem drop_body {tag : UInt8} {tail : Bytes} (h : data.drop pos = tag :: (encodeVarint body.length ++ tail)) :
    data.drop (pos + headerLength body) = tail := by
  rw [headerLength, ← Nat.add_assoc]
  exact drop_of_drop_append (drop_of_drop_append (a := [tag]) (by rw [h]; rfl))

end

section
variable {data : Bytes} {pos : Nat}

theorem readMessageField_message {body tail : Bytes} {yielded : List Bytes}
    (h : data.drop pos = 0x0A :: (encodeVarint body.length ++ tail)) :
    readMessageField data pos yielded =
      .ok (pos + headerLength body + body.length, yielded ++ [tail.take body.length]) := by
  have hlen : data.drop (pos + 1) = encodeVarint body.length ++ tail :=
    drop_of_drop_append (a := [0x0A]) (by rw [h]; rfl)
  unfold readMessageField
  rw [readVarint_tag (t := 10) (by decide) h, ok_bind]
  dsimp only
  rw [if_neg (by decide), if_neg (by decide), if_pos (by decide), readVarint_of_drop hlen, ok_bind]
  dsimp only
  rw [if_pos (by decide), headerLength, ← Nat.add_assoc]
  rw [slice_add, drop_of_drop_append hlen]

theorem readMessageField_identifier {body tail : Bytes} {yielded : List Bytes}
    (h : data.drop pos = 0x12 :: (encodeVarint body.length ++ tail)) :
    readMessageField data pos yielded = .ok (pos + headerLength body + body.length, yielded) := by
  have hlen : data.drop (pos + 1) = encodeVarint body.length ++ tail :=
    drop_of_drop_append (a := [0x12]) (by rw [h]; rfl)
  unfold readMessageField
  rw [readVarint_tag (t := 18) (by decide) h, ok_bind]
  dsimp only
  rw [if_neg (by decide), if_neg (by decide), if_pos (by decide), readVarint_of_drop hlen, ok_bind]
  dsimp only
  rw [if_neg (by decide), headerLength, ← Nat.add_assoc]

theorem readMessageField_cut {t j : Nat} {body : Bytes} {yielded : List Bytes} (ht : t < 128)
    (hwire : t &&& 0x07 = 2) (h : data.drop pos = UInt8.ofNat t :: (encodeVarint body.length).take j)
    (hj : j < (encodeVarint body.length).length) :
    readMessageField data pos yielded = .error (.valueError "truncated varint") := by
  have hlen : data.drop (pos + 1) = (encodeVarint body.length).take j :=
    drop_of_drop_append (a := [UInt8.ofNat t]) (by rw [h]; rfl)
  unfold readMessageField
  rw [readVarint_tag ht h, ok_bind]
  dsimp only
  rw [hwire, if_neg (by decide), if_neg (by decide), if_pos rfl, readVarint_truncated hlen hj, error_bind]

theorem readMetadataField_message {body tail : Bytes} {info : BatchMetadata}
    (h : data.drop pos = 0x0A :: (encodeVarint body.length ++ tail)) :
    readMetadataField data pos info =
      .ok (pos + headerLength body + body.length, { info with messages := info.messages + 1 }) := by
  have hlen : data.drop (pos + 1) = encodeVarint body.length ++ tail :=
    drop_of_drop_append (a := [0x0A]) (by rw [h]; rfl)
  unfold readMetadataField
  rw [readVarint_tag (t := 10) (by decide) h, ok_bind]
  dsimp only
  rw [if_pos (by decide), readVarint_of_drop hlen, ok_bind]
  dsimp only
  rw [if_pos (by decide), headerLength, ← Nat.add_assoc]

theorem readMetadataField_identifier {body tail : Bytes} {info : BatchMetadata}
    (h : data.drop pos = 0x12 :: (encodeVarint body.length ++ tail)) :
    readMetadataField data pos info =
      .ok (pos + headerLength body + body.length,
        { info with bleIdentifier := decodeUtf8Replace (tail.take body.length) }) := by
  have hlen : data.drop (pos + 1) = encodeVarint body.length ++ tail :=
    drop_of_drop_append (a := [0x12]) (by rw [h]; rfl)
  unfold readMetadataField
  rw [readVarint_tag (t := 18) (by decide) h, ok_bind]
  dsimp only
  rw [if_pos (by decide), readVarint_of_drop hlen, ok_bind]
  dsimp only
  rw [if_neg (by decide), if_pos (by decide), headerLength, ← Nat.add_assoc]
  rw [slice_add, drop_of_drop_append hlen]

end

/-! ### A reader along the file -/

section
variable {data tail : Bytes}

theorem drop_encodeField {m rest : Bytes} {pos : Nat} (h : data.drop pos = encodeField 0x0A m ++ rest) :
    data.drop pos = 0x0A :: (encodeVarint m.length ++ (m ++ rest)) := by
  rw [h, encodeField, List.cons_append, List.append_assoc]

/-- The messages that lie whole in the data are yielded, and the loop goes on behind them. -/
theorem scan_messages (ms : List Bytes) {pos : Nat} {yielded : List Bytes} (h : data.drop pos = encodeMessages ms ++ tail) :
    (messageReader data).scan data.length pos yielded =
      (messageReader data).scan data.length (pos + (encodeMessages ms).length) (yielded ++ ms) := by
  have hstep {pos : Nat} {yielded : List Bytes} {m rest : Bytes} (h : data.drop pos = encodeField 0x0A m ++ rest) :
      (messageReader data).step pos yielded = .ok (pos + (encodeField 0x0A m).length, yielded ++ [m]) := by
    have hmessage : readMessageField data pos yielded = _ := readMessageField_message (drop_encodeField h)
    rw [List.take_left, Nat.add_assoc, ← length_encodeField 0x0A] at hmessage
    exact hmessage
  have hall : ms.foldl (fun yielded m => yielded ++ [m]) yielded = yielded ++ ms := by
    rw [List.foldl_append_eq_append, ← List.flatMap_def, List.flatMap_singleton']
  rw [Reader.scan_pieces (fun _ => List.cons_ne_nil _ _) hstep ms h, hall]
  rfl

theorem foldl_counted (ms : List Bytes) (info : BatchMetadata) :
    ms.foldl (fun info _ => { info with messages := info.messages + 1 }) info = { info with messages := info.messages + ms.length } := by
  induction ms generalizing info with
  | nil => rfl
  | cons m ms ih => rw [List.foldl_cons, ih, List.length_cons, Nat.add_assoc, Nat.add_comm 1]

/-- The messages that lie whole in the data are counted. -/
theorem scan_messages_metadata (ms : List Bytes) {pos : Nat} {info : BatchMetadata}
    (h : data.drop pos = encodeMessages ms ++ tail) :
    (metadataReader data).scan data.length pos info =
      (metadataReader data).scan data.length (pos + (encodeMessages ms).length)
        { info with messages := info.messages + ms.length } := by
  have hstep {pos : Nat} {info : BatchMetadata} {m rest : Bytes} (h : data.drop pos = encodeField 0x0A m ++ rest) :
      (metadataReader data).step pos info =
        .ok (pos + (encodeField 0x0A m).length, { info with messages := info.messages + 1 }) := by
    rw [length_encodeField, ← Nat.add_assoc]
    exact readMetadataField_message (drop_encodeField h)
  rw [Reader.scan_pieces (fun _ => List.cons_ne_nil _ _) hstep ms h, foldl_counted]
  rfl

theorem scan_end {σ ε : Type} (r : Reader σ ε) {pos : Nat} {s : σ} (h : data.drop pos = []) :
    r.scan data.length pos s = (s, none) :=
  Reader.scan_done (List.drop_eq_nil_iff.mp h)

/-- What is left of the identifier, whole or cut, gives no message. -/
theorem scan_identifier {idBytes : Bytes} {pos j : Nat} {yielded : List Bytes}
    (h : data.drop pos = (encodeIdentifier idBytes).take j) :
    ((messageReader data).scan data.length pos yielded).1 = yielded := by
  by_cases hempty : idBytes = []
  · rw [encodeIdentifier, if_pos hempty, List.take_nil] at h
    rw [scan_end _ h]
  · rw [encodeIdentifier, if_neg hempty, encodeField] at h
    cases j with
    | zero => rw [scan_end _ h]
    | succ j =>
      rw [List.take_succ_cons] at h
      have hpos := lt_length_of_drop h (List.cons_ne_nil _ _)
      rcases Nat.lt_or_ge j (encodeVarint idBytes.length).length with hj | hj
      · rw [List.take_append_of_le_length (Nat.le_of_lt hj)] at h
        rw [Reader.scan_error (r := messageReader data) hpos
          (readMessageField_cut (t := 18) (by decide) (by decide) h hj)]
      · rw [List.take_append, List.take_of_length_le hj] at h
        rw [Reader.scan_ok (r := messageReader data) hpos (readMessageField_identifier h)]
        have hend : data.drop (pos + headerLength idBytes + idBytes.length) = [] := by
          rw [← List.drop_drop, drop_body h, List.drop_eq_nil_iff]
          exact Nat.le_trans (List.length_take_le' ..) (Nat.le_refl _)
        rw [scan_end _ hend]

theorem scan_cut_header {m : Bytes} {pos j : Nat} {yielded : List Bytes} (h : data.drop pos = (encodeField 0x0A m).take j)
    (hj : j < headerLength m) : ((messageReader data).scan data.length pos yielded).1 = yielded := by
  rw [encodeField] at h
  cases j with
  | zero => rw [scan_end _ h]
  | succ j =>
    have hj' : j < (encodeVarint m.length).length := by
      rw [headerLength] at hj
      omega
    rw [List.take_succ_cons, List.take_append_of_le_length (Nat.le_of_lt hj')] at h
    rw [Reader.scan_error (r := messageReader data) (lt_length_of_drop h (List.cons_ne_nil _ _))
      (readMessageField_cut (t := 10) (by decide) (by decide) h hj')]

/-- A message whose body is cut is yielded as far as it goes. -/
theorem scan_cut_body {m : Bytes} {pos r : Nat} {yielded : List Bytes}
    (h : data.drop pos = (encodeField 0x0A m).take (headerLength m + r)) (hr : r < m.length) :
    ((messageReader data).scan data.length pos yielded).1 = yielded ++ [m.take r] := by
  have hfield : data.drop pos = 0x0A :: (encodeVarint m.length ++ m.take r) := by
    rw [h, encodeField, headerLength, Nat.add_assoc, Nat.add_comm 1, List.take_succ_cons, List.take_append,
      List.take_of_length_le (Nat.le_add_right _ _), Nat.add_sub_cancel_left]
  have hend : data.drop (pos + headerLength m + m.length) = [] := by
    rw [← List.drop_drop, drop_body hfield, List.drop_eq_nil_iff, List.length_take]
    exact Nat.min_le_right _ _
  rw [Reader.scan_ok (r := messageReader data) (lt_length_of_drop hfield (List.cons_ne_nil _ _))
    (readMessageField_message hfield), scan_end _ hend, List.take_take, Nat.min_eq_right (Nat.le_of_lt hr)]

end

/-! ### The whole file -/

theorem iterMessages_encodeBatch (messages : List Bytes) (idBytes : Bytes) :
    iterMessages (encodeBatch messages idBytes) = (messages, none) := by
  generalize hdata : encodeBatch messages idBytes = data
  have hstart : data.drop 0 = encodeMessages messages ++ encodeIdentifier idBytes := hdata.symm
  have hafter := drop_of_drop_append hstart
  unfold iterMessages
  rw [scan_messages messages hstart, List.nil_append]
  by_cases hempty : idBytes = []
  · rw [encodeIdentifier, if_pos hempty] at hafter
    exact scan_end _ hafter
  · rw [encodeIdentifier, if_neg hempty] at hafter
    have hend : data.drop (0 + (encodeMessages messages).length + headerLength idBytes + idBytes.length) = [] := by
      rw [Nat.add_assoc _ (headerLength idBytes), ← length_encodeField 0x12]
      exact drop_of_drop_append (by rw [hafter, List.append_nil])
    rw [Reader.scan_ok (r := messageReader data) (lt_length_of_drop hafter (List.cons_ne_nil _ _))
      (readMessageField_identifier hafter), scan_end _ hend]

theorem readMetadata_encodeBatch {bleIdentifier : PyStr} {idBytes : Bytes} (hid : bleIdentifier.encode = .ok idBytes)
    (messages : List Bytes) :
    readMetadata (encodeBatch messages idBytes) =
      .ok ⟨messages.length, bleIdentifier, (encodeBatch messages idBytes).length⟩ := by
  generalize hdata : encodeBatch messages idBytes = data
  have hstart : data.drop 0 = encodeMessages messages ++ encodeIdentifier idBytes := hdata.symm
  have hafter := drop_of_drop_append hstart
  unfold readMetadata
  rw [scan_messages_metadata messages hstart]
  by_cases hempty : idBytes = []
  · subst hempty
    obtain rfl := PyStr.encode_eq_nil hid
    rw [encodeIdentifier, if_pos rfl] at hafter
    rw [scan_end _ hafter]
    simp
  · rw [encodeIdentifier, if_neg hempty] at hafter
    have hend : data.drop (0 + (encodeMessages messages).length + headerLength idBytes + idBytes.length) = [] := by
      rw [Nat.add_assoc _ (headerLength idBytes), ← length_encodeField 0x12]
      exact drop_of_drop_append (by rw [hafter, List.append_nil])
    rw [Reader.scan_ok (r := metadataReader data) (lt_length_of_drop hafter (List.cons_ne_nil _ _))
      (readMetadataField_identifier hafter), scan_end _ hend, List.take_of_length_le (Nat.le_refl _),
      decodeUtf8Replace_encode hid]
    simp

/-- A capture file is read back as it was written: the messages, their number, the identifier and the size. -/
theorem batch_round_trip (files : Files) (messages : List Bytes) (bleIdentifier : PyStr) (path : Path)
    (hid : ∃ idBytes, bleIdentifier.encode = .ok idBytes) :
    ∃ files' data, writeBatchIngestRequest files { items := messages } bleIdentifier path none = (files', .ok data.length) ∧
      files' path = some data ∧ iterMessages data = (messages, none) ∧
      readMetadata data = .ok { messages := messages.length, bleIdentifier, sizeBytes := data.length } := by
  obtain ⟨idBytes, hid⟩ := hid
  exact ⟨_, encodeBatch messages idBytes, writeBatchIngestRequest_ok hid files messages path, writtenFiles_path _ _ _,
    iterMessages_encodeBatch _ _, readMetadata_encodeBatch hid _⟩

/-- A message of 200 bytes that look like tags, an empty one, and an identifier with a two-byte character. -/
theorem batch_round_trip_sample : ∃ files' data,
    writeBatchIngestRequest (fun _ => none) { items := [List.replicate 200 0x0A, []] } [0x70, 0xE9] "capture.bin" none =
        (files', .ok data.length) ∧
      files' "capture.bin" = some data ∧ iterMessages data = ([List.replicate 200 0x0A, []], none) ∧
      readMetadata data = .ok { messages := 2, bleIdentifier := [0x70, 0xE9], sizeBytes := data.length } :=
  batch_round_trip (fun _ => none) [List.replicate 200 0x0A, []] [0x70, 0xE9] "capture.bin"
    ⟨[0x70, 0xC3, 0xA9], by decide⟩

/-! ### A file cut short -/

/-- The position of a message's body behind the messages before it. -/
def bodyStart (before : List Bytes) (m : Bytes) : Nat := (encodeMessages before).length + headerLength m

/-- The first `k` bytes end inside the body of a message. -/
def CutInBody (messages : List Bytes) (k : Nat) : Prop :=
  ∃ before m after, messages = before ++ m :: after ∧ bodyStart before m ≤ k ∧ k < bodyStart before m + m.length

section
variable {messages before after : List Bytes} {m : Bytes} {k : Nat}

theorem take_encodeBatch (idBytes : Bytes) (hm : messages = before ++ m :: after) (hk : (encodeMessages before).length ≤ k)
    (hk' : k < (encodeMessages before).length + (encodeField 0x0A m).length) :
    (encodeBatch messages idBytes).take k =
      encodeMessages before ++ (encodeField 0x0A m).take (k - (encodeMessages before).length) := by
  rw [encodeBatch, hm, encodeMessages_append, encodeMessages_cons, List.append_assoc, List.append_assoc,
    List.take_append, List.take_of_length_le hk, List.take_append_of_le_length (by omega)]

/-- A cut inside a field leaves the messages before it, and of its own message what there is of the body. -/
theorem iterMessages_take_inside (idBytes : Bytes) (hm : messages = before ++ m :: after) (hk : (encodeMessages before).length ≤ k)
    (hk' : k < (encodeMessages before).length + (encodeField 0x0A m).length) :
    (iterMessages ((encodeBatch messages idBytes).take k)).1 =
      before ++ if bodyStart before m ≤ k then [m.take (k - bodyStart before m)] else [] := by
  have hdata := take_encodeBatch idBytes hm hk hk'
  generalize (encodeBatch messages idBytes).take k = data at hdata ⊢
  have hstart : data.drop 0 = encodeMessages before ++ (encodeField 0x0A m).take (k - (encodeMessages before).length) := hdata
  have hafter := drop_of_drop_append hstart
  unfold iterMessages
  rw [scan_messages before hstart, List.nil_append]
  rw [length_encodeField] at hk'
  split
  · rename_i hbody
    unfold bodyStart at hbody ⊢
    have hr : k - (encodeMessages before).length =
        headerLength m + (k - ((encodeMessages before).length + headerLength m)) := by omega
    rw [hr] at hafter
    exact scan_cut_body hafter (by omega)
  · rename_i hbody
    unfold bodyStart at hbody
    rw [scan_cut_header hafter (by omega), List.append_nil]

theorem iterMessages_take_behind (idBytes : Bytes) (hk : (encodeMessages messages).length ≤ k) :
    (iterMessages ((encodeBatch messages idBytes).take k)).1 = messages := by
  have hdata : (encodeBatch messages idBytes).take k =
      encodeMessages messages ++ (encodeIdentifier idBytes).take (k - (encodeMessages messages).length) := by
    rw [encodeBatch, List.take_append, List.take_of_length_le hk]
  generalize (encodeBatch messages idBytes).take k = data at hdata ⊢
  have hstart : data.drop 0 = encodeMessages messages ++
      (encodeIdentifier idBytes).take (k - (encodeMessages messages).length) := hdata
  unfold iterMessages
  rw [scan_messages messages hstart, List.nil_append, scan_identifier (drop_of_drop_append hstart)]

end

theorem cut_cases (messages : List Bytes) : ∀ k,
    (∃ before m after, messages = before ++ m :: after ∧ (encodeMessages before).length ≤ k ∧
      k < (encodeMessages before).length + (encodeField 0x0A m).length) ∨ (encodeMessages messages).length ≤ k := by
  induction messages with
  | nil =>
    intro k
    exact .inr (Nat.zero_le k)
  | cons m rest ih =>
    intro k
    rcases Nat.lt_or_ge k (encodeField 0x0A m).length with hk | hk
    · exact .inl ⟨[], m, rest, rfl, Nat.zero_le k, by rwa [show encodeMessages [] = [] from rfl, List.length_nil, Nat.zero_add]⟩
    · rcases ih (k - (encodeField 0x0A m).length) with ⟨before, m', after, rfl, hlo, hhi⟩ | hall
      · refine .inl ⟨m :: before, m', after, rfl, ?_, ?_⟩ <;> rw [encodeMessages_cons, List.length_append] <;> omega
      · refine .inr ?_
        rw [encodeMessages_cons, List.length_append]
        omega

theorem iterMessages_take_prefix_iff (messages : List Bytes) (idBytes : Bytes) (k : Nat) :
    (iterMessages ((encodeBatch messages idBytes).take k)).1 <+: messages ↔ ¬ CutInBody messages k := by
  constructor
  · rintro hprefix ⟨before, m, after, rfl, hlo, hhi⟩
    have hpos := Nat.le_trans (Nat.le_add_right _ (headerLength m)) hlo
    rw [iterMessages_take_inside idBytes rfl hpos (by rw [length_encodeField]; unfold bodyStart at hhi; omega), if_pos hlo,
      List.prefix_append_right_inj, List.cons_prefix_cons] at hprefix
    have hlen := congrArg List.length hprefix.1
    rw [List.length_take] at hlen
    omega
  · intro hcut
    rcases cut_cases messages k with ⟨before, m, after, rfl, hlo, hhi⟩ | hall
    · rw [iterMessages_take_inside idBytes rfl hlo hhi]
      split
      · rename_i hbody
        refine absurd ⟨before, m, after, rfl, hbody, ?_⟩ hcut
        rw [length_encodeField] at hhi
        unfold bodyStart
        omega
      · rw [List.append_nil]
        exact List.prefix_append _ _
    · exact ⟨[], by rw [iterMessages_take_behind idBytes hall, List.append_nil]⟩

/-- What is read from the first `k` bytes of a capture is a prefix of its messages exactly when the cut is not
    inside a message's body. -/
theorem cut_capture_yields_prefix_iff (files : Files) (messages : List Bytes) (bleIdentifier : PyStr) (path : Path)
    (hid : ∃ idBytes, bleIdentifier.encode = .ok idBytes) :
    ∃ files' data, writeBatchIngestRequest files { items := messages } bleIdentifier path none = (files', .ok data.length) ∧
      files' path = some data ∧
      ∀ k, (iterMessages (data.take k)).1 <+: messages ↔ ¬ CutInBody messages k := by
  obtain ⟨idBytes, hid⟩ := hid
  exact ⟨_, encodeBatch messages idBytes, writeBatchIngestRequest_ok hid files messages path, writtenFiles_path _ _ _,
    iterMessages_take_prefix_iff messages idBytes⟩

theorem cut_capture_sample : ∃ files' data,
    writeBatchIngestRequest (fun _ => none) { items := [[1, 2], [3]] } [0x70] "capture.bin" none = (files', .ok data.length) ∧
      files' "capture.bin" = some data ∧
      ∀ k, (iterMessages (data.take k)).1 <+: [[1, 2], [3]] ↔ ¬ CutInBody [[1, 2], [3]] k :=
  cut_capture_yields_prefix_iff (fun _ => none) [[1, 2], [3]] [0x70] "capture.bin" ⟨[0x70], by decide⟩

/-- A message of three bytes whose file is cut after the first of them comes back as one byte. -/
theorem cut_capture_yields_clipped :
    ∃ files' data, writeBatchIngestRequest (fun _ => none) { items := [[1, 2, 3]] } [] "capture.bin" none = (files', .ok 5) ∧
      files' "capture.bin" = some data ∧ iterMessages (data.take 3) = ([[1]], none) ∧
      ¬ (iterMessages (data.take 3)).1 <+: [[1, 2, 3]] := by
  have hdata : encodeBatch [[1, 2, 3]] [] = [0x0A, 3, 1, 2, 3] := by decide +kernel
  have hwrite := writeBatchIngestRequest_ok (show PyStr.encode [] = .ok [] from rfl) (fun _ => none) [[1, 2, 3]] "capture.bin"
  rw [hdata] at hwrite
  exact ⟨_, _, hwrite, writtenFiles_path _ _ _, by decide +kernel, by decide +kernel⟩

end PendantClient
