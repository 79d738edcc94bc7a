import PendantClient.Capture
import PendantClient.Commands

/-! `sync` from its connection to its end (`cli.py`), as steps: the device's answer, the key that is saved and then sent, the
    capture, and the decode step. An exception may come at any `await`. -/

namespace PendantClient

/-- What `sync` reads of `get_device_info`. -/
structure PendantInfo where
  di : DeviceInfo
  audioEncryptionPubKey : Bytes
  deriving Repr, DecidableEq

/-- A `write_bytes` that fails. -/
inductive WriteFault
  | open
  /-- After the first bytes. -/
  | write (kept : Nat)
  deriving Repr, DecidableEq

/-- The arguments of `sync`, the key that `generate_private_key` gives, and how its capture finds the link and the session. -/
structure SyncConfig (Priv : Type) where
  address : PyStr
  base : AudioBase
  /-- `--key`. -/
  keyPath : Option Path := none
  pushKey : Bool := false
  opts : SyncOptions := {}
  generated : Priv
  /-- The fragments that came before the capture. -/
  table : ReassemblyTable := ∅
  /-- The session before the capture; a message that it already has waits in its inbox. -/
  state : SessionState := {}

/-- The capture as it starts. -/
def SyncConfig.capture {Priv : Type} (config : SyncConfig Priv) (files : Files) : Capture where
  files := files
  download := { table := config.table, state := config.state }

/-- Where `sync` stands. -/
inductive SyncPhase (Priv : Type)
  /-- In `get_device_info`. -/
  | connecting
  /-- Before the generated key is written. -/
  | saving (info : PendantInfo) (keyset : ServerKeySet Priv)
  /-- In `set_server_public_key`. -/
  | sending (info : PendantInfo) (keyset : ServerKeySet Priv)
  /-- In the capture; `raising` when an exception has left its loop. -/
  | capturing (info : PendantInfo) (keyset : Option (ServerKeySet Priv)) (capture : Capture) (raising : Bool)
  | captured (info : PendantInfo) (keyset : Option (ServerKeySet Priv)) (rawMessages : List Bytes)
  /-- By an exception on the way, or with what the decode step leaves. -/
  | ended (run : Option CommandRun)

/-- A run of `sync`. -/
structure Sync (Priv : Type) where
  files : Files
  phase : SyncPhase Priv := .connecting
  /-- The public keys that reached the pendant. -/
  sent : List Bytes := []

/-- What happens next in a run of `sync`. -/
inductive SyncAct
  /-- `get_device_info` returns or raises. -/
  | info (reply : Option PendantInfo)
  /-- `priv_path.write_bytes`. -/
  | save (fault : Option WriteFault)
  /-- `set_server_public_key` returns or raises; the command may have been delivered in both cases. -/
  | send (delivered returns : Bool)
  | capture (a : CaptureAct)
  /-- Behind the session. -/
  | decode (client : HttpRequest → HttpReply) (fault : Option IoFault)

/-- An exception in the loop of a capture. -/
def CaptureAct.raises (phase : CapturePhase) : CaptureAct → Bool
  | .interrupt => true
  | .download (.begin false) => true
  | .download (.abort _) => phase = .iterating
  | _ => false

/-- What `write_bytes` leaves of a file. -/
def writeBytes (files : Files) (path : Path) (content : Bytes) : Option WriteFault → Files
  | none => Function.update files path (some content)
  | some .open => files
  | some (.write kept) => Function.update files path (some (content.take kept))

namespace Sync
variable {Priv Pub : Type} (lib : EcLibrary Priv Pub) (codecs : Codecs) (clock : Clock) (urandom : Nat → Fin 4 → UInt8)
  (config : SyncConfig Priv)

/-- The keys that a known device gives: from `--key`, a new key set, or none. -/
def onInfo (s : Sync Priv) (info : PendantInfo) : SyncPhase Priv :=
  match config.keyPath with
  | some path =>
    match s.files path with
    | none => .ended none
    | some pem =>
      match keysetFromExisting lib pem info.audioEncryptionPubKey with
      | .error _ => .ended none
      | .ok keyset => .capturing info (some keyset) (config.capture s.files) false
  | none =>
    if config.pushKey then
      match generateKeyset lib config.generated info.audioEncryptionPubKey with
      | .error _ => .ended none
      | .ok keyset => .saving info keyset
    else .capturing info none (config.capture s.files) false

/-- The end of a capture: what its write raises takes the place of an exception of the loop. -/
def onFinish (info : PendantInfo) (keyset : Option (ServerKeySet Priv)) (capture : Capture) (raising : Bool)
    (fault : Option IoFault) : SyncPhase Priv :=
  let written := writeBatchIngestRequest capture.files { items := capture.rawMessages } config.address config.base.binPath fault
  match written.2 with
  | .error _ => .ended none
  | .ok _ => if raising then .ended none else .captured info keyset capture.rawMessages

/-- One step of `sync`, if it can happen now. -/
def step (s : Sync Priv) : SyncAct → Option (Sync Priv)
  | .info reply =>
    match s.phase, reply with
    | .connecting, none => some { s with phase := .ended none }
    | .connecting, some info => some { s with phase := s.onInfo lib config info }
    | _, _ => none
  | .save fault =>
    match s.phase with
    | .saving info keyset =>
      let files := writeBytes s.files config.base.keyPath (lib.privateBytes keyset.serverPriv) fault
      some { s with files, phase := if fault.isNone then .sending info keyset else .ended none }
    | _ => none
  | .send delivered returns =>
    match s.phase with
    | .sending info keyset =>
      let sent := if delivered then s.sent ++ [keyset.serverPubBytes] else s.sent
      some { s with sent, phase := if returns then .capturing info (some keyset) (config.capture s.files) false else .ended none }
    | _ => none
  | .capture a =>
    match s.phase with
    | .capturing info keyset capture raising =>
      (capture.step codecs.parsePendantAll config.address config.base.binPath a).map fun next =>
        match a with
        | .finish fault => { s with files := next.files, phase := onFinish config info keyset capture raising fault }
        | a => { s with phase := .capturing info keyset next (raising || a.raises capture.phase) }
    | _ => none
  | .decode client fault =>
    match s.phase with
    | .captured info keyset rawMessages =>
      let keys := keyset.map (·.toAudioKeySet)
      let run := syncDecode codecs clock urandom client s.files config.base config.address info.di keys config.opts rawMessages fault
      some { s with files := run.files, phase := .ended (some run) }
    | _ => none

end Sync

end PendantClient
