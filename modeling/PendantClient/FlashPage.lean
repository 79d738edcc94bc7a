import PendantClient.Python

/-! The chunks of a flash page (`flash_page.py`) and the chunk with its envelope that the rest of the
    program passes on (`AudioChunk` in `session.py`). -/

namespace PendantClient

/-- The parts of an encrypted audio payload, as the page has them. -/
structure EncryptedAudio where
  nonce : Bytes := []
  ciphertext : Bytes := []
  authenticationTag : Bytes := []
  packetOffsets : List Int := []
  deriving Repr, DecidableEq

/-- The `audio_data` submessage. -/
structure AudioPayload where
  opusPackets : Bytes := []
  didStartRecording : Bool := false
  didStopRecording : Bool := false
  codecType : Int := 0
  numFrames : Int := 0
  degreeOfArrival : Int := 0
  pcmOmniMicData : Bytes := []
  pcmDirectionalMicData : Bytes := []
  pcmBeamformingData : Bytes := []
  pcmManualBeamformingData : Bytes := []
  rawCodecBeamforming : Bytes := []
  rawCodecManualBeamforming : Bytes := []
  encrypted : Option EncryptedAudio := none
  deriving Repr, DecidableEq

/-- `has_audio`: packets that can be played, or an encrypted payload. -/
def AudioPayload.hasAudio (audio : AudioPayload) : Bool := !audio.opusPackets.isEmpty || audio.encrypted.isSome

/-- The `button_status` submessage. -/
structure ButtonEvent where
  buttonEvent : Int := 0
  physicalButton : Bool := false
  numShortPressesSinceBoot : Nat := 0
  numLongPressesSinceBoot : Nat := 0
  numDoublePressesSinceBoot : Nat := 0
  buttonEventAbsoluteTimestampMs : Nat := 0
  shortPressDurationMs : Nat := 0
  longPressDurationMs : Int := 0
  deriving Repr, DecidableEq

/-- The `recording_status` submessage. -/
structure RecordingState where
  recordingState : Int := 0
  recordingSource : Int := 0
  vadLevel : Nat := 0
  deriving Repr, DecidableEq

/-- The `storage_status` submessage. -/
structure StorageSessionMarker where
  didStartStorageSession : Bool := false
  didStopStorageSession : Bool := false
  deriving Repr, DecidableEq

/-- A chunk of a flash page. -/
structure Chunk where
  timeOffsetMs : Option Int := none
  audio : Option AudioPayload := none
  button : Option ButtonEvent := none
  recording : Option RecordingState := none
  storage : Option StorageSessionMarker := none
  /-- Field numbers and serialised submessages, in the order they were stored. -/
  rawStatusFields : List (Nat × Bytes) := []
  deriving Repr, DecidableEq

namespace Chunk

/-- `has_audio`. -/
def hasAudio (chunk : Chunk) : Bool := chunk.audio.any (·.hasAudio)

/-- `is_storage_session_start`. -/
def isStorageSessionStart (chunk : Chunk) : Bool := chunk.storage.any (·.didStartStorageSession)

/-- `is_storage_session_stop`. -/
def isStorageSessionStop (chunk : Chunk) : Bool := chunk.storage.any (·.didStopStorageSession)

/-- `is_recording_start`. -/
def isRecordingStart (chunk : Chunk) : Bool := chunk.audio.any (·.didStartRecording)

/-- `is_recording_stop`. -/
def isRecordingStop (chunk : Chunk) : Bool := chunk.audio.any (·.didStopRecording)

end Chunk

/-- A parsed flash page. -/
structure FlashPage where
  absoluteTimestampMs : Nat := 0
  bootUptimeMs : Nat := 0
  chunks : List Chunk := []
  deriving Repr, DecidableEq

/-- A chunk with the envelope of the message that brought its page. -/
structure AudioChunk where
  chunk : Chunk
  storageSession : Int := 0
  run : Int := 0
  pageSeqUptimeMs : Int := 0
  pageIndex : Int := 0
  ingestType : Int := 0
  flashPageError : Int := 0
  absoluteTimestampMs : Nat := 0
  bootUptimeMs : Nat := 0
  receivedAtUnixMs : Int := 0
  deriving Repr, DecidableEq

namespace AudioChunk

/-- `opus`: the packet of the chunk, empty without audio. -/
def opus (c : AudioChunk) : Bytes := (c.chunk.audio.map (·.opusPackets)).getD []

/-- The page's clock plus the chunk's offset in the page; a negative offset counts as none. -/
def absoluteChunkTimestampMs (c : AudioChunk) : Nat := c.absoluteTimestampMs + (c.chunk.timeOffsetMs.getD 0).toNat

end AudioChunk

/-- The three properties by which a splitter looks at a chunk. -/
class Flagged (χ : Type) where
  hasAudio : χ → Bool
  isRecordingStart : χ → Bool
  isRecordingStop : χ → Bool

export Flagged (hasAudio isRecordingStart isRecordingStop)

instance : Flagged AudioChunk where
  hasAudio c := c.chunk.hasAudio
  isRecordingStart c := c.chunk.isRecordingStart
  isRecordingStop c := c.chunk.isRecordingStop

/-- A chunk with its position in the stream, which tells equal chunks apart. -/
instance {χ : Type} [Flagged χ] : Flagged (χ × Nat) where
  hasAudio c := hasAudio c.1
  isRecordingStart c := isRecordingStart c.1
  isRecordingStop c := isRecordingStop c.1

end PendantClient
