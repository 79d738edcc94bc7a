import PendantClient.Crypto
import PendantClient.Outputs
import PendantClient.Queries
import PendantClient.Upload

/-! The commands around a capture (`cli.py`): the paths they write to, `decode` and `push` of a capture file, and what `sync`
    and `enroll-voice` do once their capture is over. -/

namespace PendantClient

/-! ### Paths -/

namespace AudioBase

/-- `audio_base.name`. -/
def name (base : AudioBase) : String := base.stem ++ base.suffix

/-- The capture file of `_resolve_paths`. -/
def binPath (base : AudioBase) : Path :=
  if base.suffix ≠ "" then base.parent ++ base.stem ++ ".bin" else base.parent ++ base.name ++ ".bin"

/-- `priv_path`, where `sync` keeps a key that it generates. -/
def keyPath (base : AudioBase) : Path := base.parent ++ base.stem ++ (base.suffix ++ ".key.pem")

end AudioBase

/-- The text of a string; a surrogate, which no text has, is replaced. -/
def PyStr.text (s : PyStr) : String :=
  String.ofList (s.map fun c => if h : c.val.isValidChar then Char.ofNatAux c.val h else '\uFFFD')

/-! ### Runs of a command -/

/-- How a command ends. -/
inductive CommandEnd
  /-- An exit status. -/
  | exit (code : Nat)
  /-- An exception of the key import. -/
  | key (e : KeyError)
  /-- An exception of an upload. -/
  | upload (e : UploadError)
  | raised (e : Raised PyError)
  deriving Repr, DecidableEq

/-- What a command leaves behind, and how it ends. -/
structure CommandRun where
  files : Files
  sidecars : List (Path × Sidecar) := []
  requests : List HttpRequest := []
  ending : CommandEnd

/-- `accept_types`. -/
def acceptTypes (includeLogs : Bool) : List Int := if includeLogs then [1, 2, 3] else [1, 2]

/-- A command that ends with its decode step. -/
def Decoded.run (o : Decoded PyError) (requests : List HttpRequest) : CommandRun where
  files := o.files
  sidecars := o.sidecars
  requests
  ending := match o.result with
    | .ok _ => .exit 0
    | .error e => .raised e

/-! ### `decode` -/

/-- The options of `decode`. -/
structure DecodeOptions where
  keyPath : Option Path := none
  pendantPubkeyPath : Option Path := none
  includeLogs : Bool := false

/-- `_OfflineDeviceInfo`. -/
def offlineDeviceInfo : DeviceInfo where
  deviceId := 0
  serialNum := ""
  firmwareVer := ""
  batteryPercent := 0
  oldestFlashPage := 0
  newestFlashPage := 0

section
variable {Priv Pub : Type} (lib : EcLibrary Priv Pub) (codecs : Codecs) (clock : Clock) (urandom : Nat → Fin 4 → UInt8)

/-- The files of the options, which must exist. -/
def DecodeOptions.load (files : Files) (opts : DecodeOptions) : Option (Option Bytes × Option Bytes) := do
  let key ← opts.keyPath.mapM files
  let pubkey ← opts.pendantPubkeyPath.mapM files
  some (key, pubkey)

/-- The key set of `decode`: none without `--key`, which needs `--pendant-pubkey`. -/
def decodeKeys : Option Bytes → Option Bytes → Except CommandEnd (Option (ServerKeySet Priv))
  | none, _ => .ok none
  | some _, none => .error (.exit 2)
  | some pem, some pub => ((keysetFromExisting lib pem pub).map some).mapError .key

/-- `decode`. The messages are read while they are decoded, behind the metadata. -/
def decode (files : Files) (src : Path) (base : AudioBase) (opts : DecodeOptions) : CommandRun :=
  match files src, opts.load files with
  | some data, some (key, pubkey) =>
    match readMetadata data with
    | .error e => { files, ending := .raised (.own e) }
    | .ok info =>
      match decodeKeys lib key pubkey with
      | .error ending => { files, ending }
      | .ok keyset =>
        let (messages, raises) := iterMessages data
        let keys := keyset.map (·.toAudioKeySet)
        let chunks := iterAudioChunksFromMessages codecs keys (acceptTypes opts.includeLogs) messages
        let info := { di := offlineDeviceInfo, address := info.bleIdentifier.text, includeLogs := opts.includeLogs }
        (decodeChunksIntoFiles base urandom clock info files chunks raises).run []
  | _, _ => { files, ending := .exit 2 }

/-! ### `sync` -/

/-- The options of `sync` behind its capture. -/
structure SyncOptions where
  noDecode : Bool := false
  includeLogs : Bool := false
  /-- No upload when it is empty. -/
  uploadUrl : String := ""

/-- `sync` behind its capture, which has left `files` and collected `rawMessages`. An upload that fails is only reported. -/
def syncDecode (client : HttpRequest → HttpReply) (files : Files) (base : AudioBase) (address : PyStr) (di : DeviceInfo)
    (keys : Option AudioKeySet) (opts : SyncOptions) (rawMessages : List Bytes) (fault : Option IoFault) : CommandRun :=
  if opts.noDecode then { files, ending := .exit 0 }
  else
    let requests := if opts.uploadUrl = "" then [] else (pushMessages client rawMessages opts.uploadUrl address fault).1
    let chunks := iterAudioChunksFromMessages codecs keys (acceptTypes opts.includeLogs) rawMessages
    let info := { di, address := address.text, includeLogs := opts.includeLogs }
    (decodeChunksIntoFiles base urandom clock info files chunks none).run requests

end

/-! ### `push` -/

/-- `push`. Without `--peripheral-id` the identifier is read from the capture file. -/
def push (client : HttpRequest → HttpReply) (files : Files) (src : Path) (url : String) (peripheralId : Option PyStr) : CommandRun :=
  match files src with
  | none => { files, ending := .exit 2 }
  | some data =>
    let upload (peripheralId : PyStr) : CommandRun :=
      let (requests, result) := pushBin client files src url peripheralId
      match result with
      | .error e => { files, requests, ending := .upload e }
      | .ok fields =>
        -- `result['batch_id']`, then `result['bytes']`
        match fields.lookup "batch_id", fields.lookup "bytes" with
        | none, _ => { files, requests, ending := .upload (.key "batch_id") }
        | some _, none => { files, requests, ending := .upload (.key "bytes") }
        | some _, some _ => { files, requests, ending := .exit 0 }
    match peripheralId with
    | some peripheralId => upload peripheralId
    | none =>
      match readMetadata data with
      | .error e => { files, ending := .raised (.own e) }
      | .ok info => if info.bleIdentifier = [] then { files, ending := .exit 2 } else upload info.bleIdentifier

/-! ### `enroll-voice` -/

/-- `audio_base` in the directory of `--out-dir`. -/
def enrollBase (parent : String) : AudioBase := { parent, stem := "enroll-voice" }

/-- `max` by `chunk_count`: the first of the largest. -/
def longestRecording : List RecordingWriter → Option RecordingWriter
  | [] => none
  | w :: rest =>
    match longestRecording rest with
    | none => some w
    | some longest => if w.chunkCount < longest.chunkCount then some longest else some w

/-- The options of `enroll-voice`. -/
structure EnrollOptions where
  url : String
  /-- `--name`, or nobody's for `--wearer`. -/
  name : Option String
  /-- `duration_sec < min_duration` for a number of chunks, in floating point. -/
  tooShort : Nat → Bool

/-- The upload of a recording, to the enrollment of the person it is for. -/
def EnrollOptions.upload (opts : EnrollOptions) (client : HttpRequest → HttpReply) (files : Files) (base : AudioBase)
    (index : Nat) : Sent :=
  match opts.name with
  | none => enrollWearerVoice client files base index opts.url
  | some name => enrollPersonVoice client files base index opts.url name

/-- The fields of the reply that `enroll-voice` prints, one of them as a number. -/
def enrolledFields : List String := ["person_id", "sample_id", "duration_seconds", "embedding_dim"]

/-- They can be printed. -/
def isEnrolled (fields : List (String × JsonValue)) : Bool :=
  enrolledFields.all (fun name => (fields.lookup name).isSome) && (fields.lookup "duration_seconds").any JsonValue.isNumber

/-- `enroll_voice` behind its capture. Whatever the upload raises makes the exit status 2. -/
def enrollDecode (codecs : Codecs) (clock : Clock) (urandom : Nat → Fin 4 → UInt8) (client : HttpRequest → HttpReply)
    (files : Files) (parent : String) (address : PyStr) (di : DeviceInfo) (keys : Option AudioKeySet) (opts : EnrollOptions)
    (rawMessages : List Bytes) : CommandRun :=
  if rawMessages.isEmpty then { files, ending := .exit 2 }
  else
    let base := enrollBase parent
    let chunks := iterAudioChunksFromMessages codecs keys [1, 2] rawMessages
    let info := { di, address := address.text, includeLogs := false }
    let decoded := decodeChunksIntoFiles base urandom clock info files chunks (none : Option PyError)
    match decoded.result with
    | .error _ => decoded.run []
    | .ok (_, _, recordings) =>
      match longestRecording recordings with
      | none => { decoded.run [] with ending := .exit 2 }
      | some longest =>
        if opts.tooShort longest.chunkCount then { decoded.run [] with ending := .exit 2 }
        else
          let (requests, result) := opts.upload client decoded.files base longest.recordingIndex
          let enrolled := match result with
            | .error _ => false
            | .ok fields => isEnrolled fields
          { decoded.run requests with ending := .exit (if enrolled then 0 else 2) }

end PendantClient
