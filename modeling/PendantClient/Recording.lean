import Mathlib.Data.Finset.Insert
import PendantClient.Lib.Decimal
import PendantClient.FlashPage
import PendantClient.Ogg

/-! The output of one recording (`_RecordingWriter` in `cli.py`). -/

namespace PendantClient

/-- `audio_base`, the path that output names are made from, taken apart as `pathlib` does it: what comes before
    its name, and `stem` and `suffix`. -/
structure AudioBase where
  parent : String := ""
  stem : String
  suffix : String := ""
  /-- `audio_base` has a name: without one `with_suffix` and `with_name` raise before anything is written. -/
  named : stem.isEmpty = false := by exact @rfl Bool false
  /-- A suffix is empty or starts with a dot. -/
  dotted : suffix.toList.head?.all (· = '.') = true := by exact @rfl Bool true
  deriving Repr, DecidableEq

namespace AudioBase

theorem suffix_cases (base : AudioBase) : base.suffix = "" ∨ ∃ rest, base.suffix = "." ++ rest := by
  have hdotted := base.dotted
  cases hsuffix : base.suffix.toList with
  | nil => exact .inl (String.toList_eq_nil_iff.mp hsuffix)
  | cons c rest =>
    rw [hsuffix] at hdotted
    obtain rfl : c = '.' := by simpa using hdotted
    exact .inr ⟨String.ofList rest, String.toList_inj.mp (by simp [hsuffix])⟩

/-- `base.suffix or ".opus"`. -/
def recordingSuffix (base : AudioBase) : String := if base.suffix = "" then ".opus" else base.suffix

/-- The file name of a recording. -/
def recordingName (base : AudioBase) (index : Nat) : String :=
  base.stem ++ "_rec" ++ Decimal.padded 4 index ++ base.recordingSuffix

/-- The path of a recording, beside the base. -/
def recordingPath (base : AudioBase) (index : Nat) : String := base.parent ++ base.recordingName index

/-- Whether a recording is written as an Ogg Opus stream. -/
def isOgg (base : AudioBase) : Bool := base.recordingSuffix.toLower ∈ [".opus", ".ogg"]

/-- The path of a sidecar file with the given extension. -/
def sidecarPath (base : AudioBase) (extension : String) : String := base.parent ++ base.stem ++ base.suffix ++ extension

end AudioBase

/-- The file of a recording: `writer` or `raw_fp`. -/
inductive Sink
  | ogg (writer : OggOpusWriter)
  | raw (written : Bytes) (closed : Bool)
  deriving Repr, DecidableEq

namespace Sink

/-- What is in the file. -/
def written : Sink → Bytes
  | ogg writer => writer.written
  | raw written _ => written

/-- Whether the file is closed. -/
def closed : Sink → Bool
  | ogg writer => writer.closed
  | raw _ closed => closed

/-- A packet is added; in a raw file its length stands in front of it. -/
def add : Sink → Bytes → Sink × Option PyError
  | ogg writer, opus =>
    let (writer, raised) := writer.addPacket opus
    (ogg writer, raised)
  | raw written closed, opus =>
    match packI opus.length with
    | .error e => (raw written closed, some e)
    | .ok length =>
      if closed then (raw written closed, some (.valueError "write to closed file"))
      else (raw (written ++ length ++ opus) closed, none)

/-- The file is closed; an Ogg stream gets its last page. -/
def close : Sink → Sink
  | ogg writer => ogg writer.close
  | raw written _ => raw written true

end Sink

/-- A `_RecordingWriter`: its file, and what it notes of the chunks for the manifest. -/
structure RecordingWriter where
  recordingIndex : Nat
  path : String
  sink : Sink
  chunkCount : Nat := 0
  openedWithStartMarker : Bool := false
  closedWithStopMarker : Bool := false
  firstAbsoluteTimestampMs : Nat := 0
  lastAbsoluteTimestampMs : Nat := 0
  firstReceivedUnixMs : Int := 0
  lastReceivedUnixMs : Int := 0
  firstPageIndex : Option Int := none
  lastPageIndex : Option Int := none
  ingestTypes : Finset Int := ∅
  storageSessionIds : Finset Int := ∅
  runs : Finset Int := ∅
  flashPageErrors : Nat := 0
  deriving DecidableEq

namespace RecordingWriter

/-- `__init__`: the file is opened, and an Ogg stream starts with its headers. -/
def init (base : AudioBase) (recordingIndex : Nat) (urandom : Fin 4 → UInt8) : Except PyError RecordingWriter := do
  let sink ← if base.isOgg then (OggOpusWriter.init urandom).map Sink.ogg else .ok (.raw [] false)
  .ok { recordingIndex, path := base.recordingPath recordingIndex, sink }

/-- What `add` notes of a chunk once its packet is written. The first chunk is noted anew as long as its time is 0. -/
def note (w : RecordingWriter) (chunk : AudioChunk) : RecordingWriter :=
  let w := { w with chunkCount := w.chunkCount + 1 }
  let w :=
    if w.firstAbsoluteTimestampMs = 0 then
      { w with
        firstAbsoluteTimestampMs := chunk.absoluteChunkTimestampMs
        firstReceivedUnixMs := chunk.receivedAtUnixMs
        firstPageIndex := some chunk.pageIndex
        openedWithStartMarker := w.openedWithStartMarker || isRecordingStart chunk }
    else w
  { w with
    lastAbsoluteTimestampMs := chunk.absoluteChunkTimestampMs
    lastReceivedUnixMs := chunk.receivedAtUnixMs
    lastPageIndex := some chunk.pageIndex
    ingestTypes := insert chunk.ingestType w.ingestTypes
    storageSessionIds := insert chunk.storageSession w.storageSessionIds
    runs := insert chunk.run w.runs
    flashPageErrors := if chunk.flashPageError ≠ 0 then w.flashPageErrors + 1 else w.flashPageErrors
    closedWithStopMarker := w.closedWithStopMarker || isRecordingStop chunk }

/-- `add`: a chunk without a packet is passed over, and one whose packet is refused is not noted. -/
def add (w : RecordingWriter) (chunk : AudioChunk) : RecordingWriter × Option PyError :=
  if chunk.opus.isEmpty then (w, none)
  else
    match w.sink.add chunk.opus with
    | (sink, some e) => ({ w with sink }, some e)
    | (sink, none) => ({ w with sink }.note chunk, none)

/-- `close`. -/
def close (w : RecordingWriter) : RecordingWriter := { w with sink := w.sink.close }

end RecordingWriter

end PendantClient
