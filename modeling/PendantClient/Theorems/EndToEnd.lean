import PendantClient.Theorems.Delivery
import PendantClient.Theorems.Redecode

/-! From the link to the recordings: what the pendant sends is captured, the capture is decoded, and the manifest leads to the
    files that hold the packets. -/

namespace PendantClient

/-! ### Reading back what a run has left -/

/-- The packets in the files that a manifest lists, one file after the other. -/
def Manifest.audio (m : Manifest) (base : AudioBase) (files : Files) : Option (List Bytes) :=
  (m.recordings.mapM fun r => packetsOf files (base.parent ++ r.file)).map List.flatten

/-- The manifest and the events of a run that ended well. -/
def CommandRun.sidecarsOf (run : CommandRun) : Option (Manifest × List Event) :=
  match run.sidecars with
  | [(_, .manifest m), (_, .events log)] => some (m, log)
  | _ => none

section
variable {base : AudioBase} {clock : Clock} {info : SyncInfo} {r : Recorder AudioChunk} {o : Outputs}
  {urandom : Nat → Fin 4 → UInt8} {files : Files} {chunks : List AudioChunk}

theorem manifestRecording_file {w : RecordingWriter} {entry : ManifestRecording}
    (h : manifestRecording clock base w = .ok entry) : entry.file = base.recordingName w.recordingIndex := by
  rw [manifestRecording] at h
  obtain ⟨first, -, h⟩ := bind_eq_ok.mp h
  obtain ⟨last, -, h⟩ := bind_eq_ok.mp h
  cases h
  rfl

/-- The files that the manifest names are those of the recordings. -/
theorem Settled.manifest_audio (h : Settled base r o) {m : Manifest} {nAudio nEvents : Nat}
    (hm : syncManifest clock base info o.prune.recordings nAudio nEvents = .ok m) {files : Files}
    (hfiles : ∀ index, files (base.recordingPath index) = o.prune.files (base.recordingPath index)) :
    m.audio base files = o.prune.audio := by
  obtain ⟨entries, hentries, hm⟩ := bind_eq_ok.mp hm
  obtain ⟨finished, -, hm⟩ := bind_eq_ok.mp hm
  cases hm
  have hnames := map_of_mapM_ok (g := ManifestRecording.file) (fun _ _ => manifestRecording_file) hentries
  have hread : (entries.map ManifestRecording.file).mapM (fun name => PendantClient.packetsOf files (base.parent ++ name)) =
      o.prune.recordings.mapM (fun w => PendantClient.packetsOf o.prune.files w.path) := by
    rw [hnames, List.mapM_map]
    refine mapM_congr fun w hw => ?_
    obtain ⟨i, v, -, -, hclosed⟩ := h.recordings.exists_of_mem (mem_prune_recordings.mp hw).1
    rw [hclosed.path, Function.comp_apply, hclosed.recordingIndex, PendantClient.packetsOf, PendantClient.packetsOf, ← hfiles i]
    rfl
  rw [List.mapM_map] at hread
  exact congrArg (Option.map List.flatten) hread

theorem run_exit {o : Decoded PyError} : (o.run []).ending = .exit 0 ↔ o.raised = none := by
  obtain ⟨files, sidecars, result⟩ := o
  cases result with
  | ok counts => exact ⟨fun _ => rfl, fun _ => rfl⟩
  | error e => simp [Decoded.run, Decoded.raised]

/-- A run that exits with 0 has listed its recordings and its events. -/
theorem run_exit_zero (hexit : ((decodeChunksIntoFiles base urandom clock info files chunks none).run []).ending = .exit 0) :
    let atEnd := Decoding.atManifest base urandom files chunks (none : Option PyError)
    atEnd.2 = none ∧ ∃ m,
      syncManifest clock base info atEnd.1.outputs.recordings atEnd.1.nAudio atEnd.1.nEvents = .ok m ∧
        ((decodeChunksIntoFiles base urandom clock info files chunks none).run []).sidecarsOf = some (m, atEnd.1.events) := by
  intro atEnd
  rw [run_exit] at hexit
  cases hwrite : (Decoding.atManifest base urandom files chunks (none : Option PyError)).1.writeSidecars clock base info with
  | error e =>
    rw [(decode_masked hwrite).2] at hexit
    cases hexit
  | ok sidecars =>
    obtain ⟨hsidecars, hraised⟩ := decode_written hwrite
    obtain ⟨m, hm, hwritten⟩ := bind_eq_ok.mp hwrite
    cases hwritten
    refine ⟨hraised.symm.trans hexit, m, hm, ?_⟩
    rw [CommandRun.sidecarsOf, Decoded.run, hsidecars]

/-- A run that exits with 0 lists all the events, and its files hold the packets that are kept of the stream. -/
theorem run_packets (hogg : base.isOgg = true) (requests : List HttpRequest) :
    let run := (decodeChunksIntoFiles base urandom clock info files chunks none).run requests
    run.ending = .exit 0 → ∃ m, run.sidecarsOf = some (m, chunks.filterMap eventFor) ∧
      m.audio base run.files = some (streamPackets (Recorder.kept {} chunks)) := by
  intro run hexit
  obtain ⟨hended, m, hm, hsidecars⟩ := run_exit_zero hexit
  obtain ⟨r, hstopped, hadded, huntil⟩ := loop_added base urandom (none : Option PyError) files chunks
  have hevents := loop_logs base urandom (none : Option PyError) chunks { outputs := { files } }
  have hsettled := hstopped.closeWriters urandom
  have hsame : (Decoding.atManifest base urandom files chunks (none : Option PyError)).2 =
    (Decoding.loop base urandom none { outputs := { files } } chunks).2 := rfl
  rw [hsame] at hended
  have hfed : Recorder.untilRefused base.isOgg {} chunks = chunks := by
    rcases huntil with ⟨-, huntil⟩ | ⟨e, he, -⟩
    · exact huntil
    · rw [hended] at he
      cases he
  have hlogged : (Decoding.atManifest base urandom files chunks (none : Option PyError)).1.events = chunks.filterMap eventFor := by
    rcases hevents with ⟨hlogs, -, -⟩ | ⟨-, -, -, e, -, -, -, he⟩
    · exact hlogs.events.trans (List.nil_append _)
    · rw [hended] at he
      cases he
  refine ⟨m, hlogged ▸ hsidecars, ?_⟩
  refine (hsettled.manifest_audio hm decodeChunksIntoFiles_recording).trans ?_
  rw [hsettled.audio hogg, hadded, hfed]

/-- Chunks that a run takes to its end: each packet fits a page, there are page numbers for all, and `datetime` has their times. -/
structure Takes (clock : Clock) (chunks : List AudioChunk) : Prop where
  size : ∀ c ∈ chunks, c.opus.length < 255 * 255
  count : chunks.length + 2 ≤ 2 ^ 32
  times : ∀ c ∈ chunks, clock.InYears c.time

theorem mem_of_firstListed {packets : List AudioChunk} {c : AudioChunk} (h : firstListed packets = some c) : c ∈ packets := by
  rw [firstListed, Option.or_eq_some_iff] at h
  rcases h with h | ⟨-, h⟩
  · exact List.mem_of_find?_eq_some h
  · exact List.mem_of_getLast? h

/-- The writers hold chunks of the stream. -/
theorem Recorder.mem_of_mem_packets {isOgg : Bool} {v : Writer AudioChunk} {c : AudioChunk}
    (hv : v ∈ (Recorder.feedAll {} (Recorder.untilRefused isOgg {} chunks)).writers) (hc : c ∈ v.packets) : c ∈ chunks := by
  have hadded : c ∈ (Recorder.feedAll {} (Recorder.untilRefused isOgg {} chunks)).added :=
    List.mem_flatMap.mpr ⟨v, hv, List.mem_of_mem_filter hc⟩
  rw [Recorder.added_feedAll] at hadded
  have hkept : c ∈ Recorder.kept {} (Recorder.untilRefused isOgg {} chunks) := by
    rcases List.mem_append.mp hadded with hnone | hkept
    · exact absurd hnone List.not_mem_nil
    · exact hkept
  have hfed := List.mem_of_mem_filter ((Recorder.kept_sublist _ {}).subset hkept)
  obtain ⟨rest, hrest⟩ := untilRefused_prefix isOgg chunks (r := {})
  rw [hrest]
  exact List.mem_append_left rest hfed

theorem run_succeeds (hogg : base.isOgg = true) (h : Takes clock chunks) :
    ((decodeChunksIntoFiles base urandom clock info files chunks none).run []).ending = .exit 0 := by
  have hended : (Decoding.atManifest base urandom files chunks (none : Option PyError)).2 = none :=
    atManifest_ended base hogg urandom files none h.size h.count
  obtain ⟨sidecars, hwrite⟩ : ∃ sidecars,
      (Decoding.atManifest base urandom files chunks (none : Option PyError)).1.writeSidecars clock base info = .ok sidecars := by
    refine exists_writeSidecars.mpr fun v hv _ c hc => h.times c (Recorder.mem_of_mem_packets hv ?_)
    rcases hc with hfirst | hlast
    · exact mem_of_firstListed hfirst
    · exact List.mem_of_getLast? hlast
  exact run_exit.mpr ((decode_written hwrite).2.trans hended)

end

/-! ### Any capture file -/

/-- Whatever is in the file, `decode` either stops before it has written anything, or it gives the decoder every message that the
    metadata counts: the file does not break it off half-way. The run then ends well, or with an exception of its own, which with
    an Ogg base comes from a packet, a number of chunks or a time that is too large. It leaves every file but the recordings and
    the sidecars as it was. -/
theorem decode_all_or_nothing {Priv Pub : Type} (lib : EcLibrary Priv Pub) (codecs : Codecs) (clock : Clock)
    (urandom : Nat → Fin 4 → UInt8) (files : Files) (src : Path) (base : AudioBase) (opts : DecodeOptions) :
    let run := decode lib codecs clock urandom files src base opts
    (∀ path, path ∉ base.sidecarPaths → (∀ index, path ≠ base.recordingPath index) → run.files path = files path) ∧
      (∀ sidecar ∈ run.sidecars, run.files sidecar.1 = some sidecar.2.content) ∧
      ((run.files = files ∧ run.sidecars = [] ∧ run.ending ≠ .exit 0) ∨
        ∃ data info messages keys, files src = some data ∧ readMetadata data = .ok info ∧ iterMessages data = (messages, none) ∧
          info.messages = messages.length ∧
          let chunks := iterAudioChunksFromMessages codecs keys (acceptTypes opts.includeLogs) messages
          run = (decodeChunksIntoFiles base urandom clock
            { di := offlineDeviceInfo, address := info.bleIdentifier.text, includeLogs := opts.includeLogs } files chunks none).run [] ∧
          (run.ending = .exit 0 ∨ ∃ e, run.ending = .raised (.own e)) ∧
          (base.isOgg = true → Takes clock chunks → run.ending = .exit 0)) := by
  intro run
  rcases decode_cases lib codecs clock urandom files src base opts with hstopped |
    ⟨data, -, -, keyset, info, messages, hdata, -, -, hmeta, hmessages, hrun⟩
  · refine ⟨fun path _ _ => congrFun hstopped.1 path, fun sidecar hsidecar => ?_, .inl hstopped⟩
    rw [hstopped.2.1] at hsidecar
    exact absurd hsidecar List.not_mem_nil
  · obtain ⟨_, hmessages', hcount⟩ := iterMessages_of_readMetadata hmeta
    obtain rfl := (Prod.mk.inj (hmessages.symm.trans hmessages')).1
    rw [show run = _ from hrun]
    refine ⟨fun path hsidecar hpath => ?_, fun sidecar hsidecar => decodeChunksIntoFiles_sidecar hsidecar,
      .inr ⟨data, info, messages, _, hdata, hmeta, hmessages, hcount, rfl, run_ending base urandom clock _ files _, run_succeeds⟩⟩
    exact decodeChunksIntoFiles_others base urandom clock _ files _ none hpath fun hmem => hsidecar (sidecars_subset hmem)

/-! ### From the link to the recordings -/

/-- Messages that do not parse hold no chunks. -/
theorem iterAudioChunks_filter (codecs : Codecs) (keys : Option AudioKeySet) (acceptTypes : List Int) (payloads : List Bytes) :
    iterAudioChunksFromMessages codecs keys acceptTypes (payloads.filter fun payload => (codecs.parsePendantAll payload).isSome) =
      iterAudioChunksFromMessages codecs keys acceptTypes payloads := by
  induction payloads with
  | nil => rfl
  | cons payload rest ih =>
    rw [List.filter_cons]
    cases hparse : codecs.parsePendantAll payload with
    | none =>
      rw [iterAudioChunksFromMessages, hparse]
      exact ih
    | some msg =>
      rw [Option.isSome_some, if_pos rfl, iterAudioChunksFromMessages, iterAudioChunksFromMessages, hparse, ih]

/-- What the pendant sends is captured, and `decode` of the capture file gives its audio. For any interleaving of the
    notifications that does not mix two messages under one index, any order of the capture's own steps, and a loop that is left
    without an interrupt and with an empty inbox: `decode` succeeds unless a packet, the number of chunks or a time is too
    large; and whenever it succeeds it has logged the events of the messages received, and the files that its manifest names
    hold the packets of these messages in the order they were completed, unless one came with a start marker that found no
    pre-roll recording. -/
theorem received_audio_is_decoded {Priv Pub : Type} (lib : EcLibrary Priv Pub) (codecs : Codecs) (clock : Clock)
    (urandom : Nat → Fin 4 → UInt8) (address : PyStr) {idBytes : Bytes} (haddress : address.encode = .ok idBytes) (src : Path)
    (msgs : List Message) (pieces : List (Piece msgs)) (hpieces : OneAtATime pieces) (c₀ c : Capture) (hstart : c₀.Starts)
    (hfresh : c₀.download.inbox = []) (acts : List CaptureAct) (hnotified : CaptureAct.notified acts = pieces.map Piece.raw)
    (hasks : CaptureAct.NoneAsks acts) (hwhole : .interrupt ∉ acts)
    (hrun : Transition.run (Capture.step codecs.parsePendantAll address src) c₀ (acts ++ [.finish none]) = some c)
    (hdrained : c.download.inbox = []) (later : Files) (hkept : later src = c.files src) (base : AudioBase)
    (hogg : base.isOgg = true) (opts : DecodeOptions) {key pubkey : Option Bytes} (hload : opts.load later = some (key, pubkey))
    {keyset : Option (ServerKeySet Priv)} (hkeyset : decodeKeys lib key pubkey = .ok keyset) :
    let received := payloadsAt msgs (completedAt [] pieces)
    let chunks := iterAudioChunksFromMessages codecs (keyset.map (·.toAudioKeySet)) (acceptTypes opts.includeLogs) received
    let run := decode lib codecs clock urandom later src base opts
    (Takes clock chunks → run.ending = .exit 0) ∧
      (run.ending = .exit 0 → ∃ m packets, run.sidecarsOf = some (m, chunks.filterMap eventFor) ∧
        m.audio base run.files = some packets ∧ packets.Sublist (streamPackets chunks) ∧
        (packets = streamPackets chunks ↔ StartsInPreRoll chunks)) := by
  intro received chunks run
  obtain ⟨c₁, hacts, hleft, hdownload, hwritten⟩ := capture_writes haddress hrun
  have hfile : c.files src = some (encodeBatch c₁.rawMessages idBytes) := by rw [hwritten, writtenFiles_path]
  obtain ⟨held, hcollected, hheld⟩ := capture_collects hpieces hstart hnotified hasks hacts hleft
  rw [hheld hwhole, ← hdownload, hdrained, hfresh] at hcollected
  have hmessages : c₁.rawMessages = received.filter fun payload => (codecs.parsePendantAll payload).isSome := by
    simpa using hcollected
  have hdecode : run = (decodeChunksIntoFiles base urandom clock
      { di := offlineDeviceInfo, address := address.text, includeLogs := opts.includeLogs } later chunks none).run [] := by
    have hdecoded := decode_encodeBatch codecs clock urandom base haddress (hkept.trans hfile) hload hkeyset
    rw [hmessages, iterAudioChunks_filter] at hdecoded
    exact hdecoded
  rw [hdecode]
  refine ⟨run_succeeds hogg, fun hexit => ?_⟩
  obtain ⟨m, hsidecars, haudio⟩ := run_packets hogg [] hexit
  refine ⟨m, _, hsidecars, haudio, streamPackets_kept_sublist {} chunks, ?_⟩
  rw [← dropsNone_iff]
  exact streamPackets_kept_iff chunks {}

/-- A sealed page in two fragments. -/
def sealedMessages : List Message := [⟨1, [Party.message.take 9, Party.message.drop 9], by decide⟩]

/-- The two fragments of a sealed message, the second one first. -/
def sealedPieces : List (Piece sealedMessages) :=
  [⟨0, ⟨sealedMessages[0], 1, encodeFragment 1 1 2 (Party.message.drop 9), by decide, by decide +kernel⟩, rfl⟩,
    ⟨0, ⟨sealedMessages[0], 0, encodeFragment 1 0 2 (Party.message.take 9), by decide, by decide +kernel⟩, rfl⟩]

/-- They are captured, and the loop ends when nothing more comes. -/
def sealedCapture : List CaptureAct :=
  [.download (.begin true), .download (.notify (encodeFragment 1 1 2 (Party.message.drop 9))),
    .download (.notify (encodeFragment 1 0 2 (Party.message.take 9))), .download .take, .append, .next, .download (.ackDone true),
    .download .timeout, .download .stop]

/-- It is captured, and decoded with the key that was kept. -/
theorem received_audio_is_decoded_sample : ∃ c m,
    Transition.run (Capture.step Party.codecs.parsePendantAll [] "sync.bin") { files := fun _ => none }
      (sealedCapture ++ [.finish none]) = some c ∧
    let later := Function.update (Function.update c.files "sync.opus.key.pem" (some (Party.library.privateBytes .server)))
      "pendant.pub" (some (Party.library.publicBytes (Party.library.publicKey .pendant)))
    let run := decode Party.library Party.codecs Utc.clock (fun _ _ => 7) later "sync.bin" oggBase keyOptions
    run.ending = .exit 0 ∧ run.sidecarsOf = some (m, []) ∧ m.audio oggBase run.files = some [[0xB8]] := by
  have hrun : (Transition.run (Capture.step Party.codecs.parsePendantAll [] "sync.bin") { files := fun _ => none }
      (sealedCapture ++ [.finish none])).map (fun c => c.download.inbox) = some [] := by decide +kernel
  obtain ⟨c, hc, hinbox⟩ := Option.map_eq_some_iff.mp hrun
  let later := Function.update (Function.update c.files "sync.opus.key.pem" (some (Party.library.privateBytes .server)))
    "pendant.pub" (some (Party.library.publicBytes (Party.library.publicKey .pendant)))
  have hkept : later "sync.bin" = c.files "sync.bin" := by simp [later]
  have hload : keyOptions.load later = some (some (Party.library.privateBytes .server),
      some (Party.library.publicBytes (Party.library.publicKey .pendant))) := load_keyOptions (by simp [later]) (by simp [later])
  obtain ⟨hsucceeds, hdecoded⟩ := received_audio_is_decoded Party.library Party.codecs Utc.clock (fun _ _ => 7) []
    PyStr.encode_nil "sync.bin" sealedMessages sealedPieces (.of_take (by decide) (by decide))
    { files := fun _ => none } c (.of_files _) rfl sealedCapture rfl (by unfold CaptureAct.NoneAsks; decide)
    (by simp [sealedCapture]) hc hinbox later hkept oggBase (by decide +kernel) keyOptions hload Party.decodeKeys_eq
  have hreceived : payloadsAt sealedMessages (completedAt [] sealedPieces) = [Party.message] := by decide +kernel
  rw [hreceived] at hsucceeds hdecoded
  let chunks := iterAudioChunksFromMessages Party.codecs (some Party.keyset.toAudioKeySet) (acceptTypes false) [Party.message]
  have htakes : Takes Utc.clock chunks :=
    { size := by decide +kernel
      count := by decide +kernel
      times := by unfold Clock.InYears; decide +kernel }
  have hexit := hsucceeds htakes
  obtain ⟨m, packets, hsidecars, haudio, -, hall⟩ := hdecoded hexit
  have hevents : chunks.filterMap eventFor = [] := by decide +kernel
  have hpackets : streamPackets chunks = [[0xB8]] := by decide +kernel
  refine ⟨c, m, hc, hexit, hsidecars.trans (by rw [← hevents]; rfl), haudio.trans (congrArg some ?_)⟩
  exact (hall.mpr (startsInPreRoll_of_markers (by decide +kernel))).trans hpackets

end PendantClient
