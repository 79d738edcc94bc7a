import Mathlib.Data.Finset.Sort
import Mathlib.Data.Rat.Cast.Order
import PendantClient.Batch
import PendantClient.Lib.Json
import PendantClient.Recording
import PendantClient.Splitter

/-! A stream of chunks decoded into files (`_decode_chunks_into_files` in `cli.py`): a recording for each writer of the
    splitter, and at the end two sidecar files. -/

namespace PendantClient

/-! ### Events -/

/-- `_ingest_label`. -/
def ingestLabel (t : Int) : String :=
  match t with
  | 0 => "UNSPECIFIED"
  | 1 => "REAL_TIME"
  | 2 => "BATCH"
  | 3 => "COMMAND"
  | t => "UNKNOWN(" ++ toString t ++ ")"

/-- `_BUTTON_EVENT_LABELS.get(n, str(n))`. -/
def buttonEventLabel (n : Int) : String :=
  match n with
  | 0 => "BUTTON_NOT_PRESSED"
  | 1 => "BUTTON_SHORT_PRESS"
  | 2 => "BUTTON_LONG_PRESS"
  | 3 => "BUTTON_DOUBLE_PRESS"
  | 4 => "BUTTON_SHORT_AND_SUPER_LONG_PRESS"
  | n => toString n

/-- `_RECORDING_STATE_LABELS.get(n, str(n))`. -/
def recordingStateLabel (n : Int) : String :=
  match n with
  | 0 => "NOT_RECORDING"
  | 1 => "RECORDING"
  | 2 => "LISTENING"
  | n => toString n

/-- `_RECORDING_SOURCE_LABELS.get(n, str(n))`. -/
def recordingSourceLabel (n : Int) : String :=
  match n with
  | 0 => "BUTTON"
  | 1 => "AMBIENT_SOUND"
  | n => toString n

/-- The `type` of an event, and what only events of that type have. -/
inductive EventKind
  | storageSessionStop
  | storageSessionStart
  | recordingStart
  | recordingStop
  /-- The event's label beside the numbers taken from the button. -/
  | button (buttonEvent : String) (button : ButtonEvent)
  | recordingStatus (recordingState recordingSource : String) (vadLevel : Nat)
  | rawStatus (fieldNumbers : List Nat)
  deriving Repr, DecidableEq

/-- An entry of the list of events. -/
structure Event where
  pageIndex : Int
  absoluteChunkTimestampMs : Nat
  receivedAtUnixMs : Int
  storageSession : Int
  ingestType : String
  kind : EventKind
  deriving Repr, DecidableEq

/-- The kind of event that `_event_for` makes of a chunk, if it makes one. -/
def eventKindFor (chunk : Chunk) : Option EventKind :=
  if chunk.isStorageSessionStart || chunk.isStorageSessionStop then
    if chunk.isStorageSessionStop then some .storageSessionStop else some .storageSessionStart
  else if chunk.isRecordingStart || chunk.isRecordingStop then
    if chunk.isRecordingStart then some .recordingStart else some .recordingStop
  else
    match chunk.button, chunk.recording with
    | some be, _ => some (.button (buttonEventLabel be.buttonEvent) be)
    | none, some rs =>
      some (.recordingStatus (recordingStateLabel rs.recordingState) (recordingSourceLabel rs.recordingSource) rs.vadLevel)
    | none, none =>
      if chunk.rawStatusFields.isEmpty then none else some (.rawStatus ((chunk.rawStatusFields.map Prod.fst).mergeSort (· ≤ ·)))

/-- `_event_for`. -/
def eventFor (chunk : AudioChunk) : Option Event :=
  (eventKindFor chunk.chunk).map fun kind =>
    { pageIndex := chunk.pageIndex
      absoluteChunkTimestampMs := chunk.absoluteChunkTimestampMs
      receivedAtUnixMs := chunk.receivedAtUnixMs
      storageSession := chunk.storageSession
      ingestType := ingestLabel chunk.ingestType
      kind }

/-! ### Sidecar files -/

/-- The local clock and `datetime`. -/
structure Clock where
  /-- `int(datetime.now().timestamp() * 1000)`. -/
  nowMs : Int
  /-- The calendar year of a Unix time in milliseconds. -/
  year : Int → Int
  /-- `datetime.fromtimestamp(ms / 1000).isoformat(timespec="milliseconds")`. -/
  isoformat : Int → Except PyError String
  /-- `fromtimestamp` raises outside the years that a `datetime` can have. -/
  raises_iff : ∀ ms, (∃ e, isoformat ms = .error e) ↔ ¬(1 ≤ year ms ∧ year ms ≤ 9999)
  now_ok : 1 ≤ year nowMs ∧ year nowMs ≤ 9999

/-- What the manifest tells of the device. -/
structure DeviceInfo where
  deviceId : Int
  serialNum : String
  firmwareVer : String
  batteryPercent : Int
  oldestFlashPage : Int
  newestFlashPage : Int
  deriving Repr, DecidableEq

/-- `first_chunk` or `last_chunk` of a recording. -/
structure ChunkStamp where
  pageIndex : Option Int
  absoluteTimestampMs : Nat
  absoluteTimestampIso : String
  receivedAtUnixMs : Int
  deriving Repr, DecidableEq

/-- What the manifest tells of a recording. -/
structure ManifestRecording where
  recordingIndex : Nat
  file : String
  chunks : Nat
  approxDurationMs : Nat
  openedWithStartMarker : Bool
  closedWithStopMarker : Bool
  ingestTypes : List Int
  ingestTypeLabels : List String
  storageSessionIds : List Int
  runs : List Int
  flashPageErrors : Nat
  firstChunk : ChunkStamp
  lastChunk : ChunkStamp
  deriving Repr, DecidableEq

/-- The manifest of a run. -/
structure Manifest where
  device : DeviceInfo
  address : String
  finishedAtUnixMs : Int
  finishedAtIso : String
  totalAudioChunks : Nat
  totalEventChunks : Nat
  totalRecordings : Nat
  includeLogs : Bool
  recordings : List ManifestRecording
  deriving Repr, DecidableEq

/-- What is dumped into a sidecar file. -/
inductive Sidecar
  | manifest (manifest : Manifest)
  | events (events : List Event)
  deriving Repr, DecidableEq

/-- The `type` of an event. -/
def EventKind.name : EventKind → String
  | storageSessionStop => "storage_session_stop"
  | storageSessionStart => "storage_session_start"
  | recordingStart => "recording_start"
  | recordingStop => "recording_stop"
  | button _ _ => "button"
  | recordingStatus _ _ _ => "recording_status"
  | rawStatus _ => "raw_status"

/-- What only events of its type have. -/
def EventKind.fields : EventKind → List (String × Json)
  | storageSessionStop | storageSessionStart | recordingStart | recordingStop => []
  | button buttonEvent be =>
    [("button_event", .string buttonEvent), ("physical_button", .bool be.physicalButton),
      ("short_press_duration_ms", .int be.shortPressDurationMs), ("long_press_duration_ms", .int be.longPressDurationMs),
      ("num_short_presses_since_boot", .int be.numShortPressesSinceBoot),
      ("num_long_presses_since_boot", .int be.numLongPressesSinceBoot),
      ("num_double_presses_since_boot", .int be.numDoublePressesSinceBoot),
      ("button_event_absolute_timestamp_ms", .int be.buttonEventAbsoluteTimestampMs)]
  | recordingStatus recordingState recordingSource vadLevel =>
    [("recording_state", .string recordingState), ("recording_source", .string recordingSource), ("vad_level", .int vadLevel)]
  | rawStatus fieldNumbers => [("field_numbers", .array (fieldNumbers.map fun n => .int n))]

/-- The dictionary of `_event_for`. -/
def Event.json (ev : Event) : Json :=
  .object ([("page_index", .int ev.pageIndex), ("absolute_chunk_timestamp_ms", .int ev.absoluteChunkTimestampMs),
    ("received_at_unix_ms", .int ev.receivedAtUnixMs), ("storage_session", .int ev.storageSession),
    ("ingest_type", .string ev.ingestType), ("type", .string ev.kind.name)] ++ ev.kind.fields)

/-- The entry of a first or last chunk. -/
def ChunkStamp.json (stamp : ChunkStamp) : Json :=
  .object [("page_index", stamp.pageIndex.elim .null .int), ("absolute_timestamp_ms", .int stamp.absoluteTimestampMs),
    ("absolute_timestamp_iso", .string stamp.absoluteTimestampIso), ("received_at_unix_ms", .int stamp.receivedAtUnixMs)]

/-- The entry of a recording. -/
def ManifestRecording.json (r : ManifestRecording) : Json :=
  .object [("recording_index", .int r.recordingIndex), ("file", .string r.file), ("chunks", .int r.chunks),
    ("approx_duration_ms", .int r.approxDurationMs), ("opened_with_start_marker", .bool r.openedWithStartMarker),
    ("closed_with_stop_marker", .bool r.closedWithStopMarker), ("ingest_types", .array (r.ingestTypes.map .int)),
    ("ingest_type_labels", .array (r.ingestTypeLabels.map .string)), ("storage_session_ids", .array (r.storageSessionIds.map .int)),
    ("runs", .array (r.runs.map .int)), ("flash_page_errors", .int r.flashPageErrors), ("first_chunk", r.firstChunk.json),
    ("last_chunk", r.lastChunk.json)]

/-- The entry of the device. -/
def DeviceInfo.json (di : DeviceInfo) : Json :=
  .object [("device_id", .int di.deviceId), ("serial_num", .string di.serialNum), ("firmware_ver", .string di.firmwareVer),
    ("battery_percent", .int di.batteryPercent), ("oldest_flash_page", .int di.oldestFlashPage),
    ("newest_flash_page", .int di.newestFlashPage)]

/-- The dictionary that is dumped into a sidecar. -/
def Sidecar.json : Sidecar → Json
  | manifest m =>
    .object [("device", m.device.json),
      ("sync", .object [("address", .string m.address), ("finished_at_unix_ms", .int m.finishedAtUnixMs),
        ("finished_at_iso", .string m.finishedAtIso), ("total_audio_chunks", .int m.totalAudioChunks),
        ("total_event_chunks", .int m.totalEventChunks), ("total_recordings", .int m.totalRecordings),
        ("include_logs", .bool m.includeLogs)]),
      ("recordings", .array (m.recordings.map ManifestRecording.json))]
  | events log => .object [("events", .array (log.map Event.json))]

/-- What `write_text` writes of it: the text is ASCII, its lines end as on a POSIX system. -/
def Sidecar.content (sidecar : Sidecar) : Bytes := sidecar.json.dumps.toUTF8.toList

/-- The time a chunk is listed with: the device's, or the time of receipt if that is 0. -/
def stampTime (absoluteTimestampMs : Nat) (receivedUnixMs : Int) : Int :=
  if absoluteTimestampMs ≠ 0 then absoluteTimestampMs else receivedUnixMs

/-- The entry of a recording, its name taken without the directory. -/
def manifestRecording (clock : Clock) (base : AudioBase) (w : RecordingWriter) : Except PyError ManifestRecording := do
  let approxDurationMs := w.chunkCount * OggOpusWriter.samplesPerFrame * 1000 / OggOpusWriter.sampleRate
  let firstIso ← clock.isoformat (stampTime w.firstAbsoluteTimestampMs w.firstReceivedUnixMs)
  let lastIso ← clock.isoformat (stampTime w.lastAbsoluteTimestampMs w.lastReceivedUnixMs)
  let ingestTypes := w.ingestTypes.sort (· ≤ ·)
  .ok {
    recordingIndex := w.recordingIndex
    file := base.recordingName w.recordingIndex
    chunks := w.chunkCount
    approxDurationMs
    openedWithStartMarker := w.openedWithStartMarker
    closedWithStopMarker := w.closedWithStopMarker
    ingestTypes
    ingestTypeLabels := ingestTypes.map ingestLabel
    storageSessionIds := w.storageSessionIds.sort (· ≤ ·)
    runs := w.runs.sort (· ≤ ·)
    flashPageErrors := w.flashPageErrors
    firstChunk :=
      { pageIndex := w.firstPageIndex
        absoluteTimestampMs := w.firstAbsoluteTimestampMs
        absoluteTimestampIso := firstIso
        receivedAtUnixMs := w.firstReceivedUnixMs }
    lastChunk :=
      { pageIndex := w.lastPageIndex
        absoluteTimestampMs := w.lastAbsoluteTimestampMs
        absoluteTimestampIso := lastIso
        receivedAtUnixMs := w.lastReceivedUnixMs } }

/-- `duration_sec` of the recording that `enroll_voice` picks, in exact arithmetic. -/
def enrollDurationSec (w : RecordingWriter) : ℚ := w.chunkCount * (20 / 1000)

/-- What the caller of `_decode_chunks_into_files` says about the sync. -/
structure SyncInfo where
  di : DeviceInfo
  address : String
  includeLogs : Bool
  deriving Repr, DecidableEq

/-- The `manifest` of `_write_sync_manifest`. The recordings are held in the order of their indices. -/
def syncManifest (clock : Clock) (base : AudioBase) (info : SyncInfo) (recordings : List RecordingWriter)
    (totalAudioChunks totalEventChunks : Nat) : Except PyError Manifest := do
  let manifestRecordings ← recordings.mapM (manifestRecording clock base)
  let finishedIso ← clock.isoformat clock.nowMs
  .ok {
    device := info.di
    address := info.address
    finishedAtUnixMs := clock.nowMs
    finishedAtIso := finishedIso
    totalAudioChunks
    totalEventChunks
    totalRecordings := recordings.length
    includeLogs := info.includeLogs
    recordings := manifestRecordings }

/-- `_write_sync_manifest`: the files it writes. Both come after everything that can raise. -/
def writeSyncManifest (clock : Clock) (base : AudioBase) (info : SyncInfo) (recordings : List RecordingWriter)
    (events : List Event) (totalAudioChunks totalEventChunks : Nat) : Except PyError (List (Path × Sidecar)) := do
  let manifest ← syncManifest clock base info recordings totalAudioChunks totalEventChunks
  .ok [(base.sidecarPath ".manifest.json", .manifest manifest), (base.sidecarPath ".events.json", .events events)]

/-- The sidecars on disk. -/
def writeSidecarFiles (files : Files) (sidecars : List (Path × Sidecar)) : Files :=
  sidecars.foldl (fun files sidecar => Function.update files sidecar.1 (some sidecar.2.content)) files

/-! ### The recordings of a run -/

/-- The `recordings` dictionary, whose keys are the places in the list until empty recordings are pruned, and the
    files. A file holds what has been written to it; the buffer in between is left out. -/
structure Outputs where
  recordings : List RecordingWriter := []
  files : Files

namespace Outputs

/-- A writer in the place of the one at the index, its file as the writer has written it. -/
def store (o : Outputs) (index : Nat) (w : RecordingWriter) : Outputs where
  recordings := o.recordings.set index w
  files := Function.update o.files w.path (some w.sink.written)

/-- Something is changed about the recording of an index, if there is one. -/
def modify (o : Outputs) (index : Nat) (f : RecordingWriter → RecordingWriter) : Outputs :=
  match o.recordings[index]? with
  | some w => o.store index (f w)
  | none => o

/-- A call of the splitter on the callback `open_writer` or on a writer, and what it raises. -/
def perform (base : AudioBase) (urandom : Nat → Fin 4 → UInt8) (o : Outputs) :
    WriterCall AudioChunk → Outputs × Option PyError
  | .openWriter index _ =>
    match RecordingWriter.init base index (urandom index) with
    | .ok w =>
      ({ recordings := o.recordings ++ [w], files := Function.update o.files w.path (some w.sink.written) }, none)
    | .error e => (o, some e)
  | .setOpenedWithStartMarker index => (o.modify index fun w => { w with openedWithStartMarker := true }, none)
  | .add index chunk =>
    match o.recordings[index]? with
    | some w =>
      let (w, raised) := w.add chunk
      (o.store index w, raised)
    | none => (o, none)
  | .setClosedWithStopMarker index => (o.modify index fun w => { w with closedWithStopMarker := true }, none)
  | .close index => (o.modify index RecordingWriter.close, none)

/-- Calls in order, up to the first that raises. -/
def performAll (base : AudioBase) (urandom : Nat → Fin 4 → UInt8) (o : Outputs) :
    List (WriterCall AudioChunk) → Outputs × Option PyError
  | [] => (o, none)
  | call :: calls =>
    match o.perform base urandom call with
    | (o, some e) => (o, some e)
    | (o, none) => o.performAll base urandom calls

/-- The cleanup loop: every writer is closed, whether the splitter has closed it or not. -/
def closeAll (o : Outputs) : Outputs where
  recordings := o.recordings.map RecordingWriter.close
  files := o.recordings.foldl (fun files w => Function.update files w.path (some w.close.sink.written)) o.files

/-- `unlink_if_empty`, on every recording; the deleted ones are taken out of the dictionary. -/
def prune (o : Outputs) : Outputs where
  recordings := o.recordings.filter fun w => w.chunkCount ≠ 0
  files := (o.recordings.filter fun w => w.chunkCount = 0).foldl (fun files w => Function.update files w.path none) o.files

end Outputs

/-! ### The run -/

/-- What ends a run early: an exception of the source iterator, or one of the code's own. -/
inductive Raised (ε : Type)
  | source (e : ε)
  | own (e : PyError)
  deriving Repr, DecidableEq

/-- A run of `_decode_chunks_into_files`, up to its manifest. -/
structure Decoding where
  splitter : Splitter AudioChunk := {}
  outputs : Outputs
  events : List Event := []
  nAudio : Nat := 0
  nEvents : Nat := 0

namespace Decoding

/-- The chunk's event is logged. -/
def log (d : Decoding) (chunk : AudioChunk) : Decoding :=
  match eventFor chunk with
  | some ev => { d with events := d.events ++ [ev], nEvents := d.nEvents + 1 }
  | none => d

/-- `splitter.feed(chunk)`, its calls made on the writers. An exception comes from an `add`: opening a writer never
    raises, and `close` swallows what it gets. -/
def feed (base : AudioBase) (urandom : Nat → Fin 4 → UInt8) (d : Decoding) (chunk : AudioChunk) :
    Decoding × Option PyError :=
  let fed := (d.splitter.feed chunk none).1
  match d.outputs.performAll base urandom (fed.calls.drop d.splitter.calls.length) with
  | (outputs, none) => ({ d with splitter := fed, outputs }, none)
  | (outputs, some e) => ({ d with splitter := (d.splitter.feed chunk (some e)).1, outputs }, some e)

/-- `n_audio += 1` for a chunk with audio. -/
def count (d : Decoding) (chunk : AudioChunk) : Decoding :=
  if hasAudio chunk then { d with nAudio := d.nAudio + 1 } else d

/-- The loop over the chunks. Behind the last of them the source iterator ends or raises. -/
def loop {ε : Type} (base : AudioBase) (urandom : Nat → Fin 4 → UInt8) (ending : Option ε) (d : Decoding) :
    List AudioChunk → Decoding × Option (Raised ε)
  | [] => (d, ending.map .source)
  | chunk :: chunks =>
    match (d.log chunk).feed base urandom chunk with
    | (d, some e) => (d, some (.own e))
    | (d, none) => (d.count chunk).loop base urandom ending chunks

/-- `splitter.finalize()` and the closing of all writers. -/
def closeWriters (base : AudioBase) (urandom : Nat → Fin 4 → UInt8) (d : Decoding) : Decoding :=
  let finalized := d.splitter.finalize
  let (outputs, _) := d.outputs.performAll base urandom (finalized.calls.drop d.splitter.calls.length)
  { d with splitter := finalized, outputs := outputs.closeAll }

/-- `_prune_empty_recordings`. -/
def prune (d : Decoding) : Decoding := { d with outputs := d.outputs.prune }

/-- The run up to its manifest: every writer is closed and the empty recordings are gone. -/
def atManifest {ε : Type} (base : AudioBase) (urandom : Nat → Fin 4 → UInt8) (files : Files) (chunks : List AudioChunk)
    (ending : Option ε) : Decoding × Option (Raised ε) :=
  let (d, ended) := loop base urandom ending { outputs := { files } } chunks
  ((d.closeWriters base urandom).prune, ended)

/-- The call of `_write_sync_manifest`. -/
def writeSidecars (clock : Clock) (base : AudioBase) (info : SyncInfo) (d : Decoding) :
    Except PyError (List (Path × Sidecar)) :=
  writeSyncManifest clock base info d.outputs.recordings d.events d.nAudio d.nEvents

end Decoding

/-- What a run leaves behind: the files, the sidecars among them as data, and its result or exception. -/
structure Decoded (ε : Type) where
  files : Files
  sidecars : List (Path × Sidecar)
  result : Except (Raised ε) (Nat × Nat × List RecordingWriter)

/-- The exception that the caller gets. -/
def Decoded.raised {ε : Type} (o : Decoded ε) : Option (Raised ε) :=
  match o.result with
  | .ok _ => none
  | .error e => some e

/-- `_decode_chunks_into_files`: an exception in the `finally` block takes the place of the one that led there. -/
def decodeChunksIntoFiles {ε : Type} (base : AudioBase) (urandom : Nat → Fin 4 → UInt8) (clock : Clock) (info : SyncInfo)
    (files : Files) (chunks : List AudioChunk) (ending : Option ε) : Decoded ε :=
  let (d, ended) := Decoding.atManifest base urandom files chunks ending
  match d.writeSidecars clock base info with
  | .error e => { files := d.outputs.files, sidecars := [], result := .error (.own e) }
  | .ok sidecars =>
    { files := writeSidecarFiles d.outputs.files sidecars
      sidecars
      result := match ended with
        | some e => .error e
        | none => .ok (d.nAudio, d.nEvents, d.outputs.recordings) }

end PendantClient
