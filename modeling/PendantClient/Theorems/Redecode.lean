import PendantClient.Theorems.Batch
import PendantClient.Theorems.KeySets
import PendantClient.Theorems.Lossless
import PendantClient.Theorems.Paths
import PendantClient.Theorems.Readers
import PendantClient.Theorems.Twins

/-! A capture decoded again (`decode` of `cli.py`) beside the decode step of the sync that wrote it. -/

namespace PendantClient

/-- Only the files of the recordings and the sidecars are written. -/
theorem decodeChunksIntoFiles_others {ε : Type} (base : AudioBase) (urandom : Nat → Fin 4 → UInt8) (clock : Clock)
    (info : SyncInfo) (files : Files) (chunks : List AudioChunk) (ending : Option ε) {path : Path}
    (hpath : ∀ index, path ≠ base.recordingPath index)
    (hsidecar : path ∉ (decodeChunksIntoFiles base urandom clock info files chunks ending).sidecars.map Prod.fst) :
    (decodeChunksIntoFiles base urandom clock info files chunks ending).files path = files path := by
  rw [decodeChunksIntoFiles_files, writeSidecarFiles_other hsidecar]
  exact (atManifest_ownFiles base urandom files chunks ending).others path hpath

/-! ### Another device, another clock -/

/-- A sidecar as the same run leaves it that is told of another device and ends at another time. -/
def Sidecar.redone (di : DeviceInfo) (clock : Clock) (finishedIso : String) : Sidecar → Sidecar
  | .manifest m => .manifest { m with
      device := di
      finishedAtUnixMs := clock.nowMs
      finishedAtIso := finishedIso }
  | .events log => .events log

section
variable {base : AudioBase} {clock clock' : Clock} {info : SyncInfo} {di : DeviceInfo} {iso : String}

theorem manifestRecording_zone (hzone : clock'.isoformat = clock.isoformat) :
    manifestRecording clock' base = manifestRecording clock base := by
  funext w
  rw [manifestRecording, manifestRecording, hzone]

variable (base info di) in
theorem writeSidecars_redone (d : Decoding) (hzone : clock'.isoformat = clock.isoformat)
    (hiso : clock'.isoformat clock'.nowMs = .ok iso) : d.writeSidecars clock' base { info with di } =
      (d.writeSidecars clock base info).map fun sidecars =>
        sidecars.map fun sidecar => (sidecar.1, sidecar.2.redone di clock' iso) := by
  obtain ⟨now, hnow⟩ := exists_isoformat.mpr clock.now_ok
  rw [Decoding.writeSidecars, Decoding.writeSidecars, writeSyncManifest, writeSyncManifest, syncManifest, syncManifest,
    manifestRecording_zone hzone, hnow, hiso]
  cases d.outputs.recordings.mapM (manifestRecording clock base) with
  | error e => rfl
  | ok recordings => rfl

variable (base info di) in
theorem decodeChunksIntoFiles_redone (hzone : clock'.isoformat = clock.isoformat) (hiso : clock'.isoformat clock'.nowMs = .ok iso)
    (urandom : Nat → Fin 4 → UInt8) (files : Files) (chunks : List AudioChunk) (ending : Option PyError) :
    let o := decodeChunksIntoFiles base urandom clock info files chunks ending
    let o' := decodeChunksIntoFiles base urandom clock' { info with di } files chunks ending
    (∀ path, path ∉ o'.sidecars.map Prod.fst → o'.files path = o.files path) ∧
      o'.sidecars = o.sidecars.map (fun sidecar => (sidecar.1, sidecar.2.redone di clock' iso)) ∧
      (o'.run []).ending = (o.run []).ending := by
  intro o o'
  have hredone := writeSidecars_redone base info di (Decoding.atManifest base urandom files chunks ending).1 hzone hiso
  have hboth : o'.sidecars = o.sidecars.map (fun sidecar => (sidecar.1, sidecar.2.redone di clock' iso)) ∧
      (o'.run []).ending = (o.run []).ending := by
    show (decodeChunksIntoFiles _ _ _ _ _ _ _).sidecars = (decodeChunksIntoFiles _ _ _ _ _ _ _).sidecars.map _ ∧
      ((decodeChunksIntoFiles _ _ _ _ _ _ _).run []).ending = ((decodeChunksIntoFiles _ _ _ _ _ _ _).run []).ending
    rw [decodeChunksIntoFiles, decodeChunksIntoFiles]
    dsimp only
    rw [hredone]
    cases (Decoding.atManifest base urandom files chunks ending).1.writeSidecars clock base info with
    | error e => exact ⟨rfl, rfl⟩
    | ok sidecars =>
      refine ⟨rfl, ?_⟩
      cases (Decoding.atManifest base urandom files chunks ending).2 <;> rfl
  refine ⟨fun path hpath => ?_, hboth⟩
  have hpaths : o'.sidecars.map Prod.fst = o.sidecars.map Prod.fst := by
    rw [hboth.1, List.map_map]
    rfl
  rw [show o'.files = _ from decodeChunksIntoFiles_files, show o.files = _ from decodeChunksIntoFiles_files,
    writeSidecarFiles_other hpath, writeSidecarFiles_other (hpaths ▸ hpath)]

end

/-! ### The capture file decoded -/

/-- `decode` of a file that the writer has written. -/
theorem decode_encodeBatch {Priv Pub : Type} {lib : EcLibrary Priv Pub} (codecs : Codecs) (clock : Clock)
    (urandom : Nat → Fin 4 → UInt8) (base : AudioBase) {files : Files} {src : Path} {rawMessages : List Bytes} {address : PyStr}
    {idBytes : Bytes} (haddress : address.encode = .ok idBytes) (hsrc : files src = some (encodeBatch rawMessages idBytes))
    {opts : DecodeOptions} {key pubkey : Option Bytes} (hload : opts.load files = some (key, pubkey))
    {keyset : Option (ServerKeySet Priv)} (hkeyset : decodeKeys lib key pubkey = .ok keyset) :
    decode lib codecs clock urandom files src base opts = (decodeChunksIntoFiles base urandom clock
      { di := offlineDeviceInfo, address := address.text, includeLogs := opts.includeLogs } files
      (iterAudioChunksFromMessages codecs (keyset.map (·.toAudioKeySet)) (acceptTypes opts.includeLogs) rawMessages) none).run [] := by
  rw [decode, hsrc, hload]
  dsimp only
  rw [readMetadata_encodeBatch haddress, hkeyset, iterMessages_encodeBatch]

/-- The decode step of a sync, and `decode` of a file with its messages and its address. -/
theorem decode_redoes {Priv Pub : Type} {lib : EcLibrary Priv Pub} {codecs : Codecs} {clock clock' : Clock}
    (hzone : clock'.isoformat = clock.isoformat) (urandom urandom' : Nat → Fin 4 → UInt8) (client : HttpRequest → HttpReply)
    (captured : Files) (base : AudioBase) {address : PyStr} {idBytes : Bytes} (haddress : address.encode = .ok idBytes)
    (di : DeviceInfo) {keys : Option AudioKeySet} {opts : SyncOptions} (hdecodes : opts.noDecode = false)
    {rawMessages : List Bytes} (fault : Option IoFault) {later : Files} {src : Path}
    (hsrc : later src = some (encodeBatch rawMessages idBytes)) {dopts : DecodeOptions} (hlogs : dopts.includeLogs = opts.includeLogs)
    {key pubkey : Option Bytes} (hload : dopts.load later = some (key, pubkey)) {keyset : Option (ServerKeySet Priv)}
    (hkeyset : decodeKeys lib key pubkey = .ok keyset) (hkeys : keyset.map (·.toAudioKeySet) = keys) :
    let synced := syncDecode codecs clock urandom client captured base address di keys opts rawMessages fault
    let decoded := decode lib codecs clock' urandom' later src base dopts
    decoded.ending = synced.ending ∧
      (∃ iso, clock'.isoformat clock'.nowMs = .ok iso ∧
        decoded.sidecars = synced.sidecars.map fun sidecar => (sidecar.1, sidecar.2.redone offlineDeviceInfo clock' iso)) ∧
      (∀ sidecar ∈ decoded.sidecars, decoded.files sidecar.1 = some sidecar.2.content) ∧
      (∀ path, path ∉ decoded.sidecars.map Prod.fst → SameFile (synced.files path) (decoded.files path) ∨
        synced.files path = captured path ∧ decoded.files path = later path) ∧
      ∀ path, path ∉ decoded.sidecars.map Prod.fst → (∀ index, path ≠ base.recordingPath index) →
        decoded.files path = later path := by
  intro synced decoded
  let chunks := iterAudioChunksFromMessages codecs keys (acceptTypes opts.includeLogs) rawMessages
  let info : SyncInfo := { di, address := address.text, includeLogs := opts.includeLogs }
  have hdecoded : decoded =
      (decodeChunksIntoFiles base urandom' clock' { info with di := offlineDeviceInfo } later chunks none).run [] := by
    have hwritten := decode_encodeBatch codecs clock' urandom' base haddress hsrc hload hkeyset
    rw [hkeys, hlogs] at hwritten
    exact hwritten
  have hsynced : synced = (decodeChunksIntoFiles base urandom clock info captured chunks none).run
      (if opts.uploadUrl = "" then [] else (pushMessages client rawMessages opts.uploadUrl address fault).1) := by
    show syncDecode codecs clock urandom client captured base address di keys opts rawMessages fault = _
    rw [syncDecode, hdecodes, if_neg Bool.false_ne_true]
  obtain ⟨iso, hiso⟩ := exists_isoformat.mpr clock'.now_ok
  obtain ⟨hfiles, hsidecars, hending⟩ := decodeChunksIntoFiles_redone base info offlineDeviceInfo hzone
    hiso urandom captured chunks none
  have htwins := twins_decodeChunksIntoFiles base clock' urandom urandom' { info with di := offlineDeviceInfo } captured later
    (AudioChunk.same_refl chunks) none
  rw [hdecoded, hsynced]
  refine ⟨htwins.ending.trans hending, ⟨iso, hiso, htwins.sidecars.trans hsidecars⟩,
    fun sidecar hsidecar => decodeChunksIntoFiles_sidecar hsidecar, fun path hpath => ?_, fun path hsidecar hpath => ?_⟩
  · have hsame := htwins.files path
    rw [hfiles path (htwins.sidecars ▸ hpath)] at hsame
    exact hsame
  · exact decodeChunksIntoFiles_others base urandom' clock' _ later chunks none hpath hsidecar

/-- `decode` of the file that a sync has written makes of it what the sync has made of the messages: it ends as the sync, its
    sidecars differ only in the device and the time they were finished, and each other file is the recording of the sync up to
    its serial number, or one that neither of them has touched. -/
theorem decode_reproduces_sync {Priv Pub : Type} (lib : EcLibrary Priv Pub) (codecs : Codecs) (clock clock' : Clock)
    (hzone : clock'.isoformat = clock.isoformat) (urandom urandom' : Nat → Fin 4 → UInt8) (client : HttpRequest → HttpReply)
    (before : Files) (bin : Path) (base : AudioBase) (address : PyStr) {idBytes : Bytes} (haddress : address.encode = .ok idBytes)
    (di : DeviceInfo) (keys : Option AudioKeySet) (opts : SyncOptions) (hdecodes : opts.noDecode = false)
    (rawMessages : List Bytes) (fault : Option IoFault) (later : Files) (src : Path) (dopts : DecodeOptions)
    (hlogs : dopts.includeLogs = opts.includeLogs) {key pubkey : Option Bytes} (hload : dopts.load later = some (key, pubkey))
    {keyset : Option (ServerKeySet Priv)} (hkeyset : decodeKeys lib key pubkey = .ok keyset)
    (hkeys : keyset.map (·.toAudioKeySet) = keys) :
    let captured := (writeBatchIngestRequest before { items := rawMessages } address bin none).1
    let synced := syncDecode codecs clock urandom client captured base address di keys opts rawMessages fault
    let decoded := decode lib codecs clock' urandom' later src base dopts
    later src = captured bin →
      decoded.ending = synced.ending ∧
      (∃ iso, clock'.isoformat clock'.nowMs = .ok iso ∧
        decoded.sidecars = synced.sidecars.map fun sidecar => (sidecar.1, sidecar.2.redone offlineDeviceInfo clock' iso)) ∧
      (∀ sidecar ∈ decoded.sidecars, decoded.files sidecar.1 = some sidecar.2.content) ∧
      (∀ path, path ∉ decoded.sidecars.map Prod.fst → SameFile (synced.files path) (decoded.files path) ∨
        synced.files path = captured path ∧ decoded.files path = later path) ∧
      ∀ path, path ∉ decoded.sidecars.map Prod.fst → (∀ index, path ≠ base.recordingPath index) →
        decoded.files path = later path := by
  intro captured synced decoded hsrc
  have hbin : captured bin = some (encodeBatch rawMessages idBytes) := by
    rw [show captured = _ from congrArg Prod.fst (writeBatchIngestRequest_ok haddress before rawMessages bin)]
    exact writtenFiles_path _ _ _
  exact decode_redoes hzone urandom urandom' client captured base haddress di hdecodes fault (hsrc.trans hbin) hlogs hload hkeyset
    hkeys

/-- A day after the sync. -/
def Utc.dayAfter : Clock := { Utc.clock with nowMs := Utc.clock.nowMs + 86400000, now_ok := by decide +kernel }

/-- `decode` with the saved key and the device's public key. -/
def keyOptions : DecodeOptions := { keyPath := some "sync.opus.key.pem", pendantPubkeyPath := some "pendant.pub" }

theorem load_keyOptions {files : Files} {key pubkey : Bytes} (hkey : files "sync.opus.key.pem" = some key)
    (hpubkey : files "pendant.pub" = some pubkey) : keyOptions.load files = some (some key, some pubkey) := by
  simp [DecodeOptions.load, keyOptions, hkey, hpubkey]

theorem Party.decodeKeys_eq : decodeKeys library (some (library.privateBytes .server))
    (some (library.publicBytes (library.publicKey .pendant))) = .ok (some keyset) := by
  rw [decodeKeys, keysets_eq.2]
  rfl

/-- A sync with a new key set; a day later the file is decoded with the saved key. -/
theorem decode_reproduces_sync_sample :
    let pendantPubBytes := Party.library.publicBytes (Party.library.publicKey .pendant)
    let captured := (writeBatchIngestRequest (fun _ => none) { items := [Party.message] } [] "sync.bin" none).1
    let later := Function.update (Function.update captured "sync.opus.key.pem" (some (Party.library.privateBytes .server)))
      "pendant.pub" (some pendantPubBytes)
    ∃ keyset, generateKeyset Party.library .server pendantPubBytes = .ok keyset ∧
      let synced := syncDecode Party.codecs Utc.clock (fun _ _ => 7) (fun _ => .raised) captured oggBase [] sampleSync.di
        (some keyset.toAudioKeySet) {} [Party.message] none
      let decoded := decode Party.library Party.codecs Utc.dayAfter (fun _ _ => 9) later "sync.bin" oggBase keyOptions
      decoded.ending = synced.ending ∧ decoded.sidecars.length = synced.sidecars.length ∧
        decoded.files "sync.bin" = captured "sync.bin" := by
  intro pendantPubBytes captured later
  have hload : keyOptions.load later = some (some (Party.library.privateBytes .server), some pendantPubBytes) :=
    load_keyOptions (by simp [later]) (by simp [later])
  have hsrc : later "sync.bin" = captured "sync.bin" := by simp [later]
  obtain ⟨hending, ⟨iso, -, hsidecars⟩, -, -, hothers⟩ := decode_reproduces_sync Party.library Party.codecs Utc.clock Utc.dayAfter rfl
    (fun _ _ => 7) (fun _ _ => 9) (fun _ => .raised) (fun _ => none) "sync.bin" oggBase [] PyStr.encode_nil sampleSync.di
    (some Party.keyset.toAudioKeySet) {} rfl [Party.message] none later "sync.bin" keyOptions rfl hload Party.decodeKeys_eq rfl hsrc
  refine ⟨Party.keyset, Party.keysets_eq.1, hending, by rw [hsidecars, List.length_map], ?_⟩
  have hbin : oggBase.binPath = "sync.bin" := by decide +kernel
  have hpaths : "sync.bin" ∉ (syncDecode Party.codecs Utc.clock (fun _ _ => 7) (fun _ => .raised) captured oggBase [] sampleSync.di
      (some Party.keyset.toAudioKeySet) {} [Party.message] none).sidecars.map Prod.fst := by decide +kernel
  refine (hothers "sync.bin" ?_ fun index => ?_).trans hsrc
  · rw [hsidecars, List.map_map]
    exact hpaths
  · rw [← hbin]
    exact AudioBase.ne_recordingPath (by simp [AudioBase.artifacts]) index

/-! ### Any file decoded -/

/-- A file whose metadata can be read gives all its messages. -/
theorem iterMessages_of_readMetadata {data : Bytes} {info : BatchMetadata} (h : readMetadata data = .ok info) :
    ∃ messages, iterMessages data = (messages, none) ∧ info.messages = messages.length := by
  have hmessages : ((messageReader data).scan data.length 0 []).1 = bodies 1 (readRecords data).1 ∧ _ :=
    Reader.scan_alike (R := fun yielded records => yielded = bodies 1 records) (fun _ _ _ => readMessageField_alike) rfl
  have hinfo : Describes ((metadataReader data).scan data.length 0 {}).1 (readRecords data).1 ∧ _ :=
    Reader.scan_alike (R := Describes) (fun _ _ _ => readMetadataField_alike) ⟨rfl, rfl⟩
  obtain ⟨hmessages, hraises⟩ := hmessages
  obtain ⟨hinfo, hraises'⟩ := hinfo
  rw [readMetadata] at h
  split at h
  · rename_i info' hscan
    cases h
    rw [hscan] at hinfo hraises'
    have hended : ((messageReader data).scan data.length 0 []).2 = none :=
      Option.not_isSome_iff_eq_none.mp fun hsome => by cases hraises'.mpr (hraises.mp hsome)
    exact ⟨_, Prod.ext rfl hended, hinfo.messages.trans (congrArg List.length hmessages.symm)⟩
  · cases h

theorem decodeKeys_error {Priv Pub : Type} {lib : EcLibrary Priv Pub} {key pubkey : Option Bytes} {ending : CommandEnd}
    (h : decodeKeys lib key pubkey = .error ending) : ending ≠ .exit 0 := by
  cases key with
  | none => cases h
  | some pem =>
    cases pubkey with
    | none =>
      cases h
      simp
    | some pub =>
      rw [decodeKeys] at h
      cases hkeyset : keysetFromExisting lib pem pub with
      | ok keyset =>
        rw [hkeyset] at h
        cases h
      | error e =>
        rw [hkeyset] at h
        cases h
        simp

/-- The source of a run that ends is not what raised. -/
theorem run_ending (base : AudioBase) (urandom : Nat → Fin 4 → UInt8) (clock : Clock) (info : SyncInfo) (files : Files)
    (chunks : List AudioChunk) : let run := (decodeChunksIntoFiles base urandom clock info files chunks none).run []
    run.ending = .exit 0 ∨ ∃ e, run.ending = .raised (.own e) := by
  rw [decodeChunksIntoFiles]
  have hended := loop_logs base urandom (none : Option PyError) chunks { outputs := { files } }
  have hsame : (Decoding.atManifest base urandom files chunks (none : Option PyError)).2 =
    (Decoding.loop base urandom none { outputs := { files } } chunks).2 := rfl
  dsimp only
  split
  · exact .inr ⟨_, rfl⟩
  · rw [hsame]
    rcases hended with ⟨-, -, hnone⟩ | ⟨-, -, -, e, -, -, -, hsome⟩
    · rw [hnone]
      exact .inl rfl
    · rw [hsome]
      exact .inr ⟨e, rfl⟩

/-- `decode` stops before it has written anything, or it decodes all messages of the file. -/
theorem decode_cases {Priv Pub : Type} (lib : EcLibrary Priv Pub) (codecs : Codecs) (clock : Clock)
    (urandom : Nat → Fin 4 → UInt8) (files : Files) (src : Path) (base : AudioBase) (opts : DecodeOptions) :
    let run := decode lib codecs clock urandom files src base opts
    (run.files = files ∧ run.sidecars = [] ∧ run.ending ≠ .exit 0) ∨
      ∃ data key pubkey keyset info messages, files src = some data ∧ opts.load files = some (key, pubkey) ∧
        decodeKeys lib key pubkey = .ok keyset ∧ readMetadata data = .ok info ∧ iterMessages data = (messages, none) ∧
        run = (decodeChunksIntoFiles base urandom clock
          { di := offlineDeviceInfo, address := info.bleIdentifier.text, includeLogs := opts.includeLogs } files
          (iterAudioChunksFromMessages codecs (keyset.map (·.toAudioKeySet)) (acceptTypes opts.includeLogs) messages) none).run [] := by
  intro run
  have hrun : run = decode lib codecs clock urandom files src base opts := rfl
  rw [decode] at hrun
  split at hrun
  · rename_i data key pubkey hdata hload
    split at hrun
    · rw [hrun]
      exact .inl ⟨rfl, rfl, by simp⟩
    · rename_i info hmeta
      split at hrun
      · rename_i ending hkeys
        rw [hrun]
        exact .inl ⟨rfl, rfl, decodeKeys_error hkeys⟩
      · rename_i keyset hkeys
        obtain ⟨messages, hmessages, -⟩ := iterMessages_of_readMetadata hmeta
        rw [hmessages] at hrun
        exact .inr ⟨data, key, pubkey, keyset, info, messages, hdata, hload, hkeys, hmeta, hmessages, hrun⟩
  · rw [hrun]
    exact .inl ⟨rfl, rfl, by simp⟩

end PendantClient
