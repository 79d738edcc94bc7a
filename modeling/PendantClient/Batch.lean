import Mathlib.Logic.Function.Basic
import PendantClient.Lib.Varint
import PendantClient.Lib.Cursor
import PendantClient.Python

/-! The `BatchIngestRequest` file (`decode.py`): its writer, which goes through a temporary file, and its
    two readers. -/

namespace PendantClient

/-! ### Varints -/

/-- `_encode_varint`. -/
def encodeVarint (n : Nat) : Bytes := Leb128.encode n

/-- `_read_varint`: the value at `pos` and the position after it. This copy has no limit on the shift. -/
def readVarint (data : Bytes) (pos : Nat) : Except PyError (Nat × Nat) :=
  (Leb128.decodeFrom none (data.drop pos) 0 0 pos).mapError fun _ => .valueError "truncated varint"

theorem readVarint_pos {data : Bytes} {pos v pos' : Nat} (h : readVarint data pos = .ok (v, pos')) : pos < pos' := by
  unfold readVarint at h
  cases hd : Leb128.decodeFrom none (data.drop pos) 0 0 pos with
  | error e =>
    rw [hd] at h
    cases h
  | ok x =>
    rw [hd] at h
    cases h
    exact Leb128.decodeFrom_pos hd

/-! ### Files -/

/-- A path with a file name. Without one `with_suffix` and `with_name` raise. -/
abbrev Path := String

/-- The files on disk and their content. No two paths lead to one file: there are no links. -/
abbrev Files := Path → Option Bytes

/-- A call the writer makes to the file system. -/
inductive IoCall
  /-- `tmp.open("wb")`. -/
  | openTmp
  | write (bytes : Bytes)
  | flush
  /-- The end of the `with` block, also when an exception leaves it. -/
  | close
  /-- `tmp.replace(path)`. -/
  | replace
  deriving Repr, DecidableEq

/-- The call that raises `OSError`, counted from 0, and how many bytes of what was written so far the
    temporary file then holds: the writes are buffered, so any prefix may be on disk. -/
structure IoFault where
  call : Nat
  kept : Nat
  deriving Repr, DecidableEq

/-- `path.with_suffix(path.suffix + ".tmp")`: the file name goes on with `.tmp`. -/
def tmpPath (path : Path) : Path := path ++ ".tmp"

/-- A call that succeeds, on what the open temporary file has been given so far and the files on disk. -/
def IoCall.perform (path : Path) (s : Bytes × Files) : IoCall → Bytes × Files
  | .openTmp => ([], Function.update s.2 (tmpPath path) (some []))
  | .write bytes => (s.1 ++ bytes, s.2)
  | .flush => s
  | .close => (s.1, Function.update s.2 (tmpPath path) (some s.1))
  | .replace => (s.1, Function.update (Function.update s.2 path (s.2 (tmpPath path))) (tmpPath path) none)

/-- A call that raises when `kept` bytes have reached the disk. -/
def IoCall.fail (path : Path) (kept : Nat) (s : Bytes × Files) : IoCall → Files
  | .openTmp => s.2
  | .write bytes => Function.update s.2 (tmpPath path) (some ((s.1 ++ bytes).take kept))
  | .flush => Function.update s.2 (tmpPath path) (some (s.1.take kept))
  | .close => Function.update s.2 (tmpPath path) (some (s.1.take kept))
  | .replace => s.2

/-- Makes the calls in order up to the one that raises. Gives the files afterwards and whether a call raised. -/
def execute (path : Path) (fault : Option IoFault) : List IoCall → Nat → Bytes × Files → Files × Bool
  | [], _, s => (s.2, false)
  | call :: rest, n, s =>
    match fault with
    | none => execute path fault rest (n + 1) (call.perform path s)
    | some f =>
      if f.call = n then (call.fail path f.kept s, true) else execute path fault rest (n + 1) (call.perform path s)

/-! ### The writer -/

/-- An iterable of messages: what it yields, and the exception it then raises if it does not end. -/
structure MessageSource where
  items : List Bytes
  raises : Option PyError := none

/-- The writes for one length-delimited field: tag, length and body. -/
def fieldWrites (tag : UInt8) (body : Bytes) : List IoCall :=
  [.write [tag], .write (encodeVarint body.length), .write body]

/-- What the field adds to the writer's byte count. -/
def fieldCount (body : Bytes) : Nat := 1 + (encodeVarint body.length).length + body.length

/-- The loop over the messages: its writes and the byte count after it. -/
def writeMessages : List Bytes → Nat → List IoCall × Nat
  | [], total => ([], total)
  | m :: rest, total =>
    let (calls, total) := writeMessages rest (total + fieldCount m)
    (fieldWrites 0x0A m ++ calls, total)

/-- `write_batch_ingest_request` as the calls it makes and its result if none of them raises. An exception
    inside the `with` block still closes the temporary file. -/
def batchCalls (messages : MessageSource) (bleIdentifier : PyStr) : List IoCall × Except PyError Nat :=
  let (writes, total) := writeMessages messages.items 0
  match messages.raises with
  | some e => ([.openTmp] ++ writes ++ [.close], .error e)
  | none =>
    if bleIdentifier = [] then ([.openTmp] ++ writes ++ [.flush, .close, .replace], .ok total)
    else
      match bleIdentifier.encode with
      | .error e => ([.openTmp] ++ writes ++ [.close], .error e)
      | .ok idBytes =>
        ([.openTmp] ++ writes ++ fieldWrites 0x12 idBytes ++ [.flush, .close, .replace], .ok (total + fieldCount idBytes))

/-- `write_batch_ingest_request` with at most one failing call: the files after it, and the byte count it
    returns or the exception it raises. -/
def writeBatchIngestRequest (files : Files) (messages : MessageSource) (bleIdentifier : PyStr) (path : Path)
    (fault : Option IoFault) : Files × Except PyError Nat :=
  let (calls, result) := batchCalls messages bleIdentifier
  let (files, raised) := execute path fault calls 0 ([], files)
  (files, if raised then .error .osError else result)

/-! ### The readers -/

/-- The body of the loop of `iter_messages_from_bin`: one tag and its field. -/
def readMessageField (data : Bytes) (pos : Nat) (yielded : List Bytes) : Except PyError (Nat × List Bytes) := do
  let (tag, pos) ← readVarint data pos
  let wireType := tag &&& 0x07
  let fieldNumber := tag >>> 3
  if wireType = 0 then
    let (_, pos) ← readVarint data pos
    .ok (pos, yielded)
  else if wireType = 1 then .ok (pos + 8, yielded)
  else if wireType = 2 then
    let (length, pos) ← readVarint data pos
    let chunk := slice data pos (pos + length)
    if fieldNumber = 1 then .ok (pos + length, yielded ++ [chunk])
    else .ok (pos + length, yielded)  -- field 2 = ble_identifier, ignored here
  else if wireType = 5 then .ok (pos + 4, yielded)
  else .error (.valueError s!"unsupported wire type {wireType} in BIR")

/-- What `read_batch_ingest_request_metadata` gives of a file. -/
structure BatchMetadata where
  messages : Nat := 0
  bleIdentifier : PyStr := []
  sizeBytes : Nat := 0
  deriving Repr, DecidableEq

/-- The body of the loop of `read_batch_ingest_request_metadata`. -/
def readMetadataField (data : Bytes) (pos : Nat) (info : BatchMetadata) : Except PyError (Nat × BatchMetadata) := do
  let (tag, pos) ← readVarint data pos
  let wireType := tag &&& 0x07
  let fieldNumber := tag >>> 3
  if wireType = 2 then
    let (length, pos) ← readVarint data pos
    if fieldNumber = 1 then .ok (pos + length, { info with messages := info.messages + 1 })
    else if fieldNumber = 2 then
      .ok (pos + length, { info with bleIdentifier := decodeUtf8Replace (slice data pos (pos + length)) })
    else .ok (pos + length, info)
  else if wireType = 0 then
    let (_, pos) ← readVarint data pos
    .ok (pos, info)
  else if wireType = 1 then .ok (pos + 8, info)
  else if wireType = 5 then .ok (pos + 4, info)
  else .error (.valueError s!"unsupported wire type {wireType}")

theorem readMessageField_pos {data : Bytes} {pos pos' : Nat} {ys ys' : List Bytes}
    (h : readMessageField data pos ys = .ok (pos', ys')) : pos < pos' := by
  unfold readMessageField at h
  obtain ⟨⟨tag, p⟩, htag, h⟩ := bind_eq_ok.mp h
  have := readVarint_pos htag
  dsimp only at h
  split at h
  · obtain ⟨⟨v, p'⟩, hv, h⟩ := bind_eq_ok.mp h
    have := readVarint_pos hv
    cases h
    omega
  · split at h
    · cases h
      omega
    · split at h
      · obtain ⟨⟨n, p'⟩, hn, h⟩ := bind_eq_ok.mp h
        have := readVarint_pos hn
        dsimp only at h
        split at h <;>
        · cases h
          omega
      · split at h
        · cases h
          omega
        · cases h

theorem readMetadataField_pos {data : Bytes} {pos pos' : Nat} {info info' : BatchMetadata}
    (h : readMetadataField data pos info = .ok (pos', info')) : pos < pos' := by
  unfold readMetadataField at h
  obtain ⟨⟨tag, p⟩, htag, h⟩ := bind_eq_ok.mp h
  have := readVarint_pos htag
  dsimp only at h
  split at h
  · obtain ⟨⟨n, p'⟩, hn, h⟩ := bind_eq_ok.mp h
    have := readVarint_pos hn
    dsimp only at h
    repeat' split at h
    all_goals
      cases h
      omega
  · split at h
    · obtain ⟨⟨v, p'⟩, hv, h⟩ := bind_eq_ok.mp h
      have := readVarint_pos hv
      cases h
      omega
    · repeat' split at h
      all_goals
        cases h
        try omega

/-- The loop of `iter_messages_from_bin`, with the messages that it has yielded. -/
def messageReader (data : Bytes) : Reader (List Bytes) PyError where
  step := readMessageField data
  advances := readMessageField_pos

/-- The loop of `read_batch_ingest_request_metadata`, with what it knows so far. -/
def metadataReader (data : Bytes) : Reader BatchMetadata PyError where
  step := readMetadataField data
  advances := readMetadataField_pos

/-- `iter_messages_from_bin` on the content of a file: the messages it yields, and the exception that ends
    it if it does not run to the end. -/
def iterMessages (data : Bytes) : List Bytes × Option PyError := (messageReader data).scan data.length 0 []

/-- `read_batch_ingest_request_metadata` on the content of a file. -/
def readMetadata (data : Bytes) : Except PyError BatchMetadata :=
  match (metadataReader data).scan data.length 0 {} with
  | (info, none) => .ok { info with sizeBytes := data.length }
  | (_, some e) => .error e

end PendantClient
