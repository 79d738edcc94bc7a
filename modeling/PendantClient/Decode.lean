import PendantClient.FlashPage
import PendantClient.Session

/-! From captured messages to audio chunks: the flash-page parser (`flash_page.py`), decryption (`crypto.py`) and the
    generator that puts them together (`decode.py`). What the generated protobuf classes and the cipher do is left open. -/

namespace PendantClient

/-! ### The generated message classes -/

namespace FlashPagePb2

/-- An `EncryptedBytes` message. -/
structure EncryptedBytes where
  nonce : Bytes := []
  ciphertext : Bytes := []
  authenticationTag : Bytes := []
  packetOffsets : List Int := []
  deriving Repr, DecidableEq

/-- A `PendantAudioData` message. -/
structure PendantAudioData where
  pcmOmniMicData : Bytes := []
  pcmDirectionalMicData : Bytes := []
  pcmBeamformingData : Bytes := []
  codecBeamformingData : Bytes := []
  codecManualBeamformingData : Bytes := []
  pcmManualBeamformingData : Bytes := []
  didStartRecording : Bool := false
  didStopRecording : Bool := false
  codecType : Int := 0
  numFrames : Int := 0
  degreeOfArrival : Int := 0
  encryptedCodecBeamformingData : Option EncryptedBytes := none
  deriving Repr, DecidableEq

/-- A `ButtonStatus` message. -/
structure ButtonStatus where
  buttonEvent : Int := 0
  physicalButton : Bool := false
  numShortPressesSinceBoot : Nat := 0
  numLongPressesSinceBoot : Nat := 0
  numDoublePressesSinceBoot : Nat := 0
  buttonEventAbsoluteTimestampMs : Nat := 0
  shortPressDurationMs : Nat := 0
  longPressDurationMs : Int := 0
  deriving Repr, DecidableEq

/-- A `RecordingStatus` message. -/
structure RecordingStatus where
  recordingState : Int := 0
  recordingSource : Int := 0
  vadLevel : Nat := 0
  deriving Repr, DecidableEq

/-- A `StorageStatus` message. -/
structure StorageStatus where
  didStartStorageSession : Bool := false
  didStopStorageSession : Bool := false
  deriving Repr, DecidableEq

/-- Of the other submessages only the serialised form is used, so they are given by it. -/
structure Chunk where
  timeOffsetMs : Int := 0
  audioData : Option PendantAudioData := none
  buttonStatus : Option ButtonStatus := none
  wifiStatus : Option Bytes := none
  bleStatus : Option Bytes := none
  batteryStatus : Option Bytes := none
  usbStatus : Option Bytes := none
  imuData : Option Bytes := none
  recordingStatus : Option RecordingStatus := none
  logOutput : Option Bytes := none
  runtimeStatus : Option Bytes := none
  storageStatus : Option StorageStatus := none
  cpuStatus : Option Bytes := none
  deriving Repr, DecidableEq

/-- A `FlashPage` message. -/
structure FlashPage where
  absoluteTimestampMs : Nat := 0
  bootUptimeMs : Nat := 0
  chunks : List Chunk := []
  deriving Repr, DecidableEq

end FlashPagePb2

/-- What the decoder calls outside the repository: the two message parsers, with `none` when they raise, and AES-GCM
    decryption by key, nonce and ciphertext with tag. -/
structure Codecs where
  parsePendantAll : Bytes → Option PendantAllMsg
  parseFlashPage : Bytes → Option FlashPagePb2.FlashPage
  aesGcmDecrypt : Bytes → Bytes → Bytes → Except PyError Bytes

/-! ### The page parser -/

/-- `_convert_audio`. -/
def convertAudio (audio : FlashPagePb2.PendantAudioData) : AudioPayload where
  opusPackets :=
    if audio.codecBeamformingData.isEmpty then audio.codecManualBeamformingData else audio.codecBeamformingData
  didStartRecording := audio.didStartRecording
  didStopRecording := audio.didStopRecording
  codecType := audio.codecType
  numFrames := audio.numFrames
  degreeOfArrival := audio.degreeOfArrival
  pcmOmniMicData := audio.pcmOmniMicData
  pcmDirectionalMicData := audio.pcmDirectionalMicData
  pcmBeamformingData := audio.pcmBeamformingData
  pcmManualBeamformingData := audio.pcmManualBeamformingData
  rawCodecBeamforming := audio.codecBeamformingData
  rawCodecManualBeamforming := audio.codecManualBeamformingData
  encrypted := audio.encryptedCodecBeamformingData.map fun eb =>
    { nonce := eb.nonce
      ciphertext := eb.ciphertext
      authenticationTag := eb.authenticationTag
      packetOffsets := eb.packetOffsets }

/-- `_RAW_STATUS_FIELDS`. -/
def rawStatusFields : List ((FlashPagePb2.Chunk → Option Bytes) × Nat) :=
  [(FlashPagePb2.Chunk.wifiStatus, 4), (FlashPagePb2.Chunk.bleStatus, 5), (FlashPagePb2.Chunk.batteryStatus, 6),
    (FlashPagePb2.Chunk.usbStatus, 7), (FlashPagePb2.Chunk.imuData, 8), (FlashPagePb2.Chunk.logOutput, 10),
    (FlashPagePb2.Chunk.runtimeStatus, 11), (FlashPagePb2.Chunk.cpuStatus, 13)]

/-- `_convert_chunk`. -/
def convertChunk (chunk : FlashPagePb2.Chunk) : Chunk where
  timeOffsetMs := some chunk.timeOffsetMs
  audio := chunk.audioData.map convertAudio
  button := chunk.buttonStatus.map fun bs =>
    { buttonEvent := bs.buttonEvent
      physicalButton := bs.physicalButton
      numShortPressesSinceBoot := bs.numShortPressesSinceBoot
      numLongPressesSinceBoot := bs.numLongPressesSinceBoot
      numDoublePressesSinceBoot := bs.numDoublePressesSinceBoot
      buttonEventAbsoluteTimestampMs := bs.buttonEventAbsoluteTimestampMs
      shortPressDurationMs := bs.shortPressDurationMs
      longPressDurationMs := bs.longPressDurationMs }
  recording := chunk.recordingStatus.map fun rs =>
    { recordingState := rs.recordingState
      recordingSource := rs.recordingSource
      vadLevel := rs.vadLevel }
  storage := chunk.storageStatus.map fun ss =>
    { didStartStorageSession := ss.didStartStorageSession
      didStopStorageSession := ss.didStopStorageSession }
  rawStatusFields := rawStatusFields.filterMap fun (field, number) => (field chunk).map fun raw => (number, raw)

/-- `parse_flash_page`, with `none` when `ParseFromString` raises. -/
def parseFlashPage (codecs : Codecs) (flashPageBytes : Bytes) : Option FlashPage :=
  (codecs.parseFlashPage flashPageBytes).map fun msg =>
    { absoluteTimestampMs := msg.absoluteTimestampMs
      bootUptimeMs := msg.bootUptimeMs
      chunks := msg.chunks.map convertChunk }

/-! ### Decryption -/

/-- Of a key set only the AES key is used here. -/
structure AudioKeySet where
  aesKey : Bytes
  deriving Repr, DecidableEq

/-- `decrypt_audio`. -/
def decryptAudio (codecs : Codecs) (audio : AudioPayload) (aesKey : Bytes) : Except PyError Bytes :=
  match audio.encrypted with
  | none => .ok audio.opusPackets
  | some enc =>
    if aesKey.isEmpty then
      .error (.valueError "chunk has encrypted_codec_beamforming_data but no AES key was provided")
    else if aesKey.length ≠ 16 then .error (.valueError s!"expected 16-byte AES-128 key, got {aesKey.length}")
    else if enc.nonce.length ≠ 12 then
      .error (.valueError s!"expected 12-byte nonce in EncryptedBytes, got {enc.nonce.length}")
    else if enc.authenticationTag.length ≠ 16 then
      .error (.valueError s!"expected 16-byte authentication_tag in EncryptedBytes, got {enc.authenticationTag.length}")
    else codecs.aesGcmDecrypt aesKey enc.nonce (enc.ciphertext ++ enc.authenticationTag)

/-- The decryption step of the loop over a page's chunks: without a key, or when decryption raises, the chunk stays as it
    is. -/
def decryptChunk (codecs : Codecs) (keys : Option AudioKeySet) (chunk : Chunk) : Chunk :=
  match chunk.audio, keys with
  | some audio, some keys =>
    if audio.encrypted.isSome then
      match decryptAudio codecs audio keys.aesKey with
      | .ok opus => { chunk with audio := some { audio with opusPackets := opus } }
      | .error _ => chunk
    else chunk
  | _, _ => chunk

/-! ### The generator -/

/-- The chunks of a page, as the generator yields them. -/
def pageChunks (codecs : Codecs) (keys : Option AudioKeySet) (sb : StorageBufferMsg) (page : FlashPage) :
    List Chunk → List AudioChunk
  | [] => []
  | chunk :: rest =>
    { chunk := decryptChunk codecs keys chunk
      storageSession := sb.session
      run := sb.run
      pageSeqUptimeMs := sb.seq
      pageIndex := sb.index
      ingestType := sb.ingestType
      flashPageError := sb.flashPageError
      absoluteTimestampMs := page.absoluteTimestampMs
      bootUptimeMs := page.bootUptimeMs
      receivedAtUnixMs := 0 } :: pageChunks codecs keys sb page rest

/-- `iter_audio_chunks_from_messages`. -/
def iterAudioChunksFromMessages (codecs : Codecs) (keys : Option AudioKeySet) (acceptTypes : List Int) :
    List Bytes → List AudioChunk
  | [] => []
  | payload :: rest =>
    let more := iterAudioChunksFromMessages codecs keys acceptTypes rest
    match codecs.parsePendantAll payload with
    | none => more
    | some msg =>
      match msg.content with
      | some (.storageBuffer sb) =>
        if sb.ingestType ∉ acceptTypes then more
        else if sb.flashPage.isEmpty then more
        else
          match parseFlashPage codecs sb.flashPage with
          | none => more
          | some page => pageChunks codecs keys sb page page.chunks ++ more
      | _ => more

end PendantClient
