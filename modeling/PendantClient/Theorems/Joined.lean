import PendantClient.Theorems.Behind
import PendantClient.Theorems.EndToEnd

/-! Captures joined end to end (`cat a.bin b.bin`): the file reads as all their messages, and where a capture ends between two
    recordings, what is decoded is what the parts give, the later recordings renumbered. -/

namespace PendantClient

/-! ### What the runs list -/

/-- An entry of a recording that is numbered behind `count` others. -/
def ManifestRecording.renumbered (base : AudioBase) (count : Nat) (r : ManifestRecording) : ManifestRecording :=
  { r with recordingIndex := count + r.recordingIndex, file := base.recordingName (count + r.recordingIndex) }

/-- The manifest of joined captures. -/
structure Manifest.Joins (base : AudioBase) (count : Nat) (m₁ m₂ m : Manifest) : Prop where
  recordings : m.recordings = m₁.recordings ++ m₂.recordings.map (ManifestRecording.renumbered base count)
  totalRecordings : m.totalRecordings = m₁.totalRecordings + m₂.totalRecordings
  totalAudioChunks : m.totalAudioChunks = m₁.totalAudioChunks + m₂.totalAudioChunks
  totalEventChunks : m.totalEventChunks = m₁.totalEventChunks + m₂.totalEventChunks

section
variable {base : AudioBase} {clock clock' : Clock} {info info' : SyncInfo} {urandom urandom' : Nat → Fin 4 → UInt8}
  {files files' : Files} {chunks : List AudioChunk}

theorem manifestRecording_renumbered (count : Nat) (w : RecordingWriter) : manifestRecording clock base (w.renumbered base count) =
    (manifestRecording clock base w).map (ManifestRecording.renumbered base count) := by
  rw [manifestRecording, manifestRecording]
  show (clock.isoformat (stampTime w.firstAbsoluteTimestampMs w.firstReceivedUnixMs) >>= _) = _
  rcases clock.isoformat (stampTime w.firstAbsoluteTimestampMs w.firstReceivedUnixMs) with e | firstIso
  · rfl
  · show (clock.isoformat (stampTime w.lastAbsoluteTimestampMs w.lastReceivedUnixMs) >>= _) = _
    rcases clock.isoformat (stampTime w.lastAbsoluteTimestampMs w.lastReceivedUnixMs) with e | lastIso <;> rfl

/-- A run that exits with 0 has read all chunks and can list its recordings. -/
theorem run_exit_iff : ((decodeChunksIntoFiles base urandom clock info files chunks none).run []).ending = .exit 0 ↔
    (Decoding.atManifest base urandom files chunks (none : Option PyError)).2 = none ∧
      ∃ entries, (Decoding.atManifest base urandom files chunks (none : Option PyError)).1.outputs.recordings.mapM
        (manifestRecording clock base) = .ok entries := by
  let atEnd := Decoding.atManifest base urandom files chunks (none : Option PyError)
  have hlists : (∃ sidecars, writeSyncManifest clock base info atEnd.1.outputs.recordings atEnd.1.events atEnd.1.nAudio
      atEnd.1.nEvents = .ok sidecars) ↔ ∀ w ∈ atEnd.1.outputs.recordings, ∃ entry, manifestRecording clock base w = .ok entry :=
    exists_writeSyncManifest
  rw [run_exit, exists_mapM_ok]
  refine Iff.trans ?_ (and_congr_right' hlists)
  rcases hwrite : atEnd.1.writeSidecars clock base info with e | sidecars
  · rw [(decode_masked hwrite).2]
    have hnot : ¬∃ sidecars, writeSyncManifest clock base info atEnd.1.outputs.recordings atEnd.1.events atEnd.1.nAudio
        atEnd.1.nEvents = .ok sidecars := by
      rintro ⟨sidecars, h⟩
      rw [Decoding.writeSidecars, h] at hwrite
      cases hwrite
    simp [hnot]
  · rw [(decode_written hwrite).2]
    exact ⟨fun h => ⟨h, sidecars, hwrite⟩, And.left⟩

/-- What a run that exits with 0 lists. -/
theorem run_lists (hexit : ((decodeChunksIntoFiles base urandom clock info files chunks none).run []).ending = .exit 0) :
    let recordings := (Decoding.atManifest base urandom files chunks (none : Option PyError)).1.outputs.recordings
    ∃ m, ((decodeChunksIntoFiles base urandom clock info files chunks none).run []).sidecarsOf = some (m, chunks.filterMap eventFor) ∧
      recordings.mapM (manifestRecording clock base) = .ok m.recordings ∧ m.totalRecordings = recordings.length ∧
      m.totalAudioChunks = (chunks.filter hasAudio).length ∧ m.totalEventChunks = (chunks.filterMap eventFor).length := by
  intro recordings
  obtain ⟨hended, m, hm, hlisted⟩ := run_exit_zero hexit
  have hlogs := loop_logs base urandom (none : Option PyError) chunks { outputs := { files } }
  have hsame : (Decoding.atManifest base urandom files chunks (none : Option PyError)).2 =
    (Decoding.loop base urandom none { outputs := { files } } chunks).2 := rfl
  rcases hlogs with ⟨hlogs, hnAudio, -⟩ | ⟨-, -, -, e, -, -, -, hraised⟩
  · obtain ⟨entries, hentries, hm⟩ := bind_eq_ok.mp hm
    obtain ⟨finished, -, hm⟩ := bind_eq_ok.mp hm
    have hfields : m.recordings = entries ∧ m.totalRecordings = recordings.length ∧
        m.totalAudioChunks = (chunks.filter hasAudio).length ∧ m.totalEventChunks = (chunks.filterMap eventFor).length := by
      cases hm
      exact ⟨rfl, rfl, hnAudio.trans (Nat.zero_add _), hlogs.nEvents.trans (Nat.zero_add _)⟩
    refine ⟨m, hlisted.trans ?_, hfields.1 ▸ hentries, hfields.2⟩
    exact congrArg (fun log => some (m, log)) (hlogs.events.trans (List.nil_append _))
  · rw [hsame, hraised] at hended
    cases hended

/-- Recordings that differ in their serial numbers are listed alike. -/
theorem entries_twins {ws ws' : List RecordingWriter} (h : List.Forall₂ RecordingWriter.Twins ws ws')
    (hzone : clock'.isoformat = clock.isoformat) :
    ws'.mapM (manifestRecording clock base) = ws.mapM (manifestRecording clock' base) := by
  rw [manifestRecordings_twins h, manifestRecording_zone hzone]

theorem entries_renumbered (count : Nat) (ws : List RecordingWriter) :
    (ws.map (RecordingWriter.renumbered base count)).mapM (manifestRecording clock base) =
      (ws.mapM (manifestRecording clock base)).map (List.map (ManifestRecording.renumbered base count)) := by
  induction ws with
  | nil => rfl
  | cons w ws ih =>
    rw [List.map_cons, List.mapM_cons, List.mapM_cons, ih, manifestRecording_renumbered]
    rcases manifestRecording clock base w with e | entry
    · rfl
    · rcases ws.mapM (manifestRecording clock base) with e | entries <;> rfl

/-- The entries are those of the recordings, one after another. -/
theorem entries_named {ws : List RecordingWriter} {entries : List ManifestRecording}
    (hentries : ws.mapM (manifestRecording clock base) = .ok entries) :
    entries.map (fun r => (r.file, r.recordingIndex)) = ws.map fun w => (base.recordingName w.recordingIndex, w.recordingIndex) := by
  refine map_of_mapM_ok (g := fun r : ManifestRecording => (r.file, r.recordingIndex)) (fun w entry hentry => ?_) hentries
  refine Prod.ext (manifestRecording_file hentry) ?_
  rw [manifestRecording] at hentry
  obtain ⟨first, -, hentry⟩ := bind_eq_ok.mp hentry
  obtain ⟨last, -, hentry⟩ := bind_eq_ok.mp hentry
  cases hentry
  rfl

/-- The recording that an entry is about. -/
theorem listed_writer {ws : List RecordingWriter} {entries : List ManifestRecording} {r : ManifestRecording}
    (hentries : ws.mapM (manifestRecording clock base) = .ok entries) (hr : r ∈ entries) :
    ∃ w ∈ ws, r.file = base.recordingName w.recordingIndex ∧ r.recordingIndex = w.recordingIndex := by
  have hmem := List.mem_map_of_mem (f := fun r : ManifestRecording => (r.file, r.recordingIndex)) hr
  rw [entries_named hentries] at hmem
  obtain ⟨w, hw, heq⟩ := List.mem_map.mp hmem
  exact ⟨w, hw, (congrArg Prod.fst heq).symm, (congrArg Prod.snd heq).symm⟩

/-- The file of a listed recording is the one it has written. -/
theorem run_file {ending : Option PyError} {w : RecordingWriter}
    (hw : w ∈ (Decoding.atManifest base urandom files chunks ending).1.outputs.recordings) (requests : List HttpRequest) :
    ((decodeChunksIntoFiles base urandom clock info files chunks ending).run requests).files (base.recordingPath w.recordingIndex) =
      some w.sink.written := by
  obtain ⟨r, hstopped, -⟩ := loop_stopped base urandom ending files chunks
  have hsettled := hstopped.closeWriters urandom
  obtain ⟨hw, hcount⟩ := mem_prune_recordings.mp hw
  obtain ⟨i, v, -, hi, hclosed⟩ := hsettled.recordings.exists_of_mem hw
  refine (decodeChunksIntoFiles_recording _).trans ?_
  rw [hclosed.recordingIndex]
  have hfile := hsettled.prune_file hi hclosed.path
  rw [if_neg hcount] at hfile
  exact hfile.trans (hclosed.path ▸ hsettled.files w hw)

variable (info) in
/-- What is in the file of an entry. -/
theorem listed_file {entries : List ManifestRecording} {r : ManifestRecording}
    (hentries : (Decoding.atManifest base urandom files chunks (none : Option PyError)).1.outputs.recordings.mapM
      (manifestRecording clock base) = .ok entries) (hr : r ∈ entries) (requests : List HttpRequest) :
    ∃ w ∈ (Decoding.atManifest base urandom files chunks (none : Option PyError)).1.outputs.recordings,
      r.file = base.recordingName w.recordingIndex ∧ r.recordingIndex = w.recordingIndex ∧
        ((decodeChunksIntoFiles base urandom clock info files chunks none).run requests).files (base.parent ++ r.file) =
          some w.sink.written := by
  obtain ⟨w, hw, hfile, hindex⟩ := listed_writer hentries hr
  exact ⟨w, hw, hfile, hindex, by rw [hfile]; exact run_file hw requests⟩

theorem RecordingWriter.Twins.recordingIndex {w w' : RecordingWriter} (h : w.Twins w') : w'.recordingIndex = w.recordingIndex := by
  obtain ⟨sink, rfl, -⟩ := h
  rfl

end

/-- The entries of recordings that are those of two other runs, the second renumbered. -/
theorem entries_joined {base : AudioBase} {clock clock₁ clock₂ : Clock} (hzone₁ : clock₁.isoformat = clock.isoformat)
    (hzone₂ : clock₂.isoformat = clock.isoformat) {ws₁ ws₁' ws₂ ws₂' : List RecordingWriter}
    (htwins₁ : List.Forall₂ RecordingWriter.Twins ws₁ ws₁') (htwins₂ : List.Forall₂ RecordingWriter.Twins ws₂ ws₂') (count : Nat) :
    (ws₁' ++ ws₂'.map (RecordingWriter.renumbered base count)).mapM (manifestRecording clock base) =
      ws₁.mapM (manifestRecording clock₁ base) >>= fun entries => ws₂.mapM (manifestRecording clock₂ base) >>= fun entries' =>
        .ok (entries ++ entries'.map (ManifestRecording.renumbered base count)) := by
  rw [List.mapM_append, entries_renumbered, entries_twins htwins₁ hzone₁, entries_twins htwins₂ hzone₂]
  refine congrArg (_ >>= ·) (funext fun entries => ?_)
  rcases ws₂.mapM (manifestRecording clock₂ base) with e | entries' <;> rfl

/-- The recordings of a run over both streams. -/
theorem joined_recordings (base : AudioBase) (urandom urandom₁ urandom₂ : Nat → Fin 4 → UInt8) (files files₁ files₂ : Files)
    {chunks : List AudioChunk} (more : List AudioChunk) (hbetween : EndsBetween chunks) :
    let first := Decoding.atManifest base urandom₁ files₁ chunks (none : Option PyError)
    let second := Decoding.atManifest base urandom₂ files₂ more (none : Option PyError)
    let both := Decoding.atManifest base urandom files (chunks ++ more) (none : Option PyError)
    (both.2 = none ↔ first.2 = none ∧ second.2 = none) ∧
      (both.2 = none → ∃ ws₁ ws₂, List.Forall₂ RecordingWriter.Twins first.1.outputs.recordings ws₁ ∧
        List.Forall₂ RecordingWriter.Twins second.1.outputs.recordings ws₂ ∧
        both.1.outputs.recordings = ws₁ ++ ws₂.map (RecordingWriter.renumbered base (opened chunks))) := by
  intro first second both
  obtain ⟨hended, hrecordings⟩ := atManifest_append PyError base urandom files more hbetween
  obtain ⟨htwins₁, hended₁⟩ := twins_atManifest base urandom₁ urandom files₁ files (AudioChunk.same_refl chunks) (none : Option PyError)
  obtain ⟨htwins₂, hended₂⟩ := twins_atManifest base urandom₂ (fun index => urandom (opened chunks + index)) files₂ files
    (AudioChunk.same_refl more) (none : Option PyError)
  rw [hended₁, hended₂] at hended
  exact ⟨hended, fun hnone => ⟨_, _, htwins₁.outputs.recordings, htwins₂.outputs.recordings, hrecordings hnone⟩⟩

/-- Two runs over two streams and one run over both: it succeeds exactly when they do, and then lists what they list, the second
    behind the recordings of the first, with the same files. -/
theorem joined_runs {base : AudioBase} {clock clock₁ clock₂ : Clock} (hzone₁ : clock₁.isoformat = clock.isoformat)
    (hzone₂ : clock₂.isoformat = clock.isoformat) (info info₁ info₂ : SyncInfo) (urandom urandom₁ urandom₂ : Nat → Fin 4 → UInt8)
    (files files₁ files₂ : Files) {chunks more : List AudioChunk} (hbetween : EndsBetween chunks) :
    let first := (decodeChunksIntoFiles base urandom₁ clock₁ info₁ files₁ chunks none).run []
    let second := (decodeChunksIntoFiles base urandom₂ clock₂ info₂ files₂ more none).run []
    let both := (decodeChunksIntoFiles base urandom clock info files (chunks ++ more) none).run []
    (both.ending = .exit 0 ↔ first.ending = .exit 0 ∧ second.ending = .exit 0) ∧
      (both.ending = .exit 0 → ∃ m₁ log₁ m₂ log₂ m, first.sidecarsOf = some (m₁, log₁) ∧ second.sidecarsOf = some (m₂, log₂) ∧
        both.sidecarsOf = some (m, log₁ ++ log₂) ∧ m₁.Joins base (opened chunks) m₂ m ∧
        (∀ r ∈ m₁.recordings, SameFile (first.files (base.parent ++ r.file)) (both.files (base.parent ++ r.file))) ∧
        ∀ r ∈ m₂.recordings, SameFile (second.files (base.parent ++ r.file))
          (both.files (base.parent ++ (r.renumbered base (opened chunks)).file))) := by
  intro first second both
  obtain ⟨hended, hrecordings⟩ := joined_recordings base urandom urandom₁ urandom₂ files files₁ files₂ more hbetween
  have hiff : both.ending = .exit 0 ↔ first.ending = .exit 0 ∧ second.ending = .exit 0 := by
    refine run_exit_iff.trans (Iff.trans ?_ (and_congr run_exit_iff run_exit_iff).symm)
    constructor
    · rintro ⟨hnone, entries, h⟩
      obtain ⟨ws₁, ws₂, htwins₁, htwins₂, hjoined⟩ := hrecordings hnone
      obtain ⟨hnone₁, hnone₂⟩ := hended.mp hnone
      rw [hjoined, entries_joined hzone₁ hzone₂ htwins₁ htwins₂] at h
      obtain ⟨entries₁, h₁, h⟩ := bind_eq_ok.mp h
      obtain ⟨entries₂, h₂, -⟩ := bind_eq_ok.mp h
      exact ⟨⟨hnone₁, entries₁, h₁⟩, hnone₂, entries₂, h₂⟩
    · rintro ⟨⟨hnone₁, entries₁, h₁⟩, hnone₂, entries₂, h₂⟩
      have hnone := hended.mpr ⟨hnone₁, hnone₂⟩
      obtain ⟨ws₁, ws₂, htwins₁, htwins₂, hjoined⟩ := hrecordings hnone
      exact ⟨hnone, _, by rw [hjoined, entries_joined hzone₁ hzone₂ htwins₁ htwins₂, h₁, ok_bind, h₂, ok_bind]⟩
  refine ⟨hiff, fun hexit => ?_⟩
  obtain ⟨hexit₁, hexit₂⟩ := hiff.mp hexit
  obtain ⟨m₁, hlisted₁, hm₁, hcount₁, haudio₁, hevents₁⟩ := run_lists hexit₁
  obtain ⟨m₂, hlisted₂, hm₂, hcount₂, haudio₂, hevents₂⟩ := run_lists hexit₂
  obtain ⟨m, hlisted, hm, hcount, haudio, hevents⟩ := run_lists hexit
  obtain ⟨ws₁, ws₂, htwins₁, htwins₂, hjoined⟩ := hrecordings (run_exit_iff.mp hexit).1
  refine ⟨m₁, _, m₂, _, m, hlisted₁, hlisted₂, by rw [hlisted, List.filterMap_append], ?_, ?_, ?_⟩
  · rw [hjoined, entries_joined hzone₁ hzone₂ htwins₁ htwins₂, hm₁, ok_bind, hm₂, ok_bind] at hm
    refine ⟨(Except.ok.inj hm).symm, ?_, ?_, ?_⟩
    · rw [hcount, hcount₁, hcount₂, hjoined, List.length_append, List.length_map, htwins₁.length_eq, htwins₂.length_eq]
    · rw [haudio, haudio₁, haudio₂, List.filter_append, List.length_append]
    · rw [hevents, hevents₁, hevents₂, List.filterMap_append, List.length_append]
  · intro r hr
    obtain ⟨w, hw, hfile, -, hwritten⟩ := listed_file info₁ hm₁ hr []
    obtain ⟨w', hw', htwins⟩ := htwins₁.exists_of_mem hw
    have hfirst : first.files (base.parent ++ r.file) = some w.sink.written := hwritten
    have hboth : both.files (base.parent ++ r.file) = some w'.sink.written := by
      rw [hfile, ← htwins.recordingIndex]
      exact run_file (hjoined ▸ List.mem_append_left _ hw') []
    rw [hfirst, hboth]
    exact htwins.sameFile
  · intro r hr
    obtain ⟨w, hw, -, hindex, hwritten⟩ := listed_file info₂ hm₂ hr []
    obtain ⟨w', hw', htwins⟩ := htwins₂.exists_of_mem hw
    have hsecond : second.files (base.parent ++ r.file) = some w.sink.written := hwritten
    have hboth : both.files (base.parent ++ (r.renumbered base (opened chunks)).file) = some w'.sink.written := by
      rw [ManifestRecording.renumbered, hindex, ← htwins.recordingIndex]
      exact run_file (w := w'.renumbered base (opened chunks))
        (hjoined ▸ List.mem_append_right _ (List.mem_map_of_mem hw')) []
    rw [hsecond, hboth]
    exact htwins.sameFile

/-! ### Capture files joined -/

/-- A capture as `write_batch_ingest_request` writes it. -/
structure CaptureFile where
  messages : List Bytes
  address : PyStr
  idBytes : Bytes
  encodes : address.encode = .ok idBytes

namespace CaptureFile

/-- The bytes of the file. -/
def content (f : CaptureFile) : Bytes := encodeBatch f.messages f.idBytes

/-- The files one behind the other, as one file. -/
def joined (fs : List CaptureFile) : Bytes := fs.flatMap content

/-- The address that is read last; a capture without one leaves it. -/
def lastAddress (given : PyStr) (fs : List CaptureFile) : PyStr :=
  fs.foldl (fun last f => if f.address = [] then last else f.address) given

end CaptureFile

section
variable {data : Bytes}

theorem address_eq_nil (f : CaptureFile) : f.address = [] ↔ f.idBytes = [] := by
  constructor
  · intro h
    have hencodes := f.encodes
    rw [h] at hencodes
    exact (Except.ok.inj hencodes).symm
  · intro h
    exact PyStr.encode_eq_nil (h ▸ f.encodes)

theorem drop_joined_cons {f : CaptureFile} {fs : List CaptureFile} {pos : Nat} (h : data.drop pos = CaptureFile.joined (f :: fs)) :
    data.drop pos = encodeMessages f.messages ++ (encodeIdentifier f.idBytes ++ CaptureFile.joined fs) := by
  rw [h, CaptureFile.joined, List.flatMap_cons, CaptureFile.content, encodeBatch, List.append_assoc]
  rfl

/-- The reader goes from one capture to the next. -/
theorem scan_joined (fs : List CaptureFile) : ∀ {pos : Nat} {yielded : List Bytes}, data.drop pos = CaptureFile.joined fs →
    (messageReader data).scan data.length pos yielded = (yielded ++ fs.flatMap (·.messages), none) := by
  induction fs with
  | nil =>
    intro pos yielded h
    rw [List.flatMap_nil, List.append_nil]
    exact scan_end _ h
  | cons f fs ih =>
    intro pos yielded h
    have hstart := drop_joined_cons h
    have hafter := drop_of_drop_append hstart
    rw [scan_messages f.messages hstart, List.flatMap_cons, ← List.append_assoc]
    by_cases hempty : f.idBytes = []
    · rw [encodeIdentifier, if_pos hempty, List.nil_append] at hafter
      exact ih hafter
    · rw [encodeIdentifier, if_neg hempty] at hafter
      have hnext := drop_of_drop_append hafter
      rw [encodeField, List.cons_append, List.append_assoc] at hafter
      rw [length_encodeField, ← Nat.add_assoc] at hnext
      rw [Reader.scan_ok (r := messageReader data) (lt_length_of_drop hafter (List.cons_ne_nil _ _))
        (readMessageField_identifier hafter)]
      exact ih hnext

theorem scan_joined_metadata (fs : List CaptureFile) : ∀ {pos : Nat} {info : BatchMetadata},
    data.drop pos = CaptureFile.joined fs →
    (metadataReader data).scan data.length pos info =
      ({ info with
        messages := info.messages + (fs.flatMap (·.messages)).length
        bleIdentifier := CaptureFile.lastAddress info.bleIdentifier fs }, none) := by
  induction fs with
  | nil =>
    intro pos info h
    exact scan_end _ h
  | cons f fs ih =>
    intro pos info h
    have hstart := drop_joined_cons h
    have hafter := drop_of_drop_append hstart
    rw [scan_messages_metadata f.messages hstart, List.flatMap_cons, List.length_append, ← Nat.add_assoc, CaptureFile.lastAddress,
      List.foldl_cons]
    by_cases hempty : f.idBytes = []
    · rw [encodeIdentifier, if_pos hempty, List.nil_append] at hafter
      rw [if_pos ((address_eq_nil f).mpr hempty)]
      exact ih hafter
    · rw [encodeIdentifier, if_neg hempty] at hafter
      have hnext := drop_of_drop_append hafter
      rw [encodeField, List.cons_append, List.append_assoc] at hafter
      rw [length_encodeField, ← Nat.add_assoc] at hnext
      rw [Reader.scan_ok (r := metadataReader data) (lt_length_of_drop hafter (List.cons_ne_nil _ _))
        (readMetadataField_identifier hafter), List.take_left, decodeUtf8Replace_encode f.encodes,
        if_neg (fun h => hempty ((address_eq_nil f).mp h))]
      exact ih hnext

end

theorem iterMessages_joined (fs : List CaptureFile) : iterMessages (CaptureFile.joined fs) = (fs.flatMap (·.messages), none) :=
  scan_joined fs rfl

theorem readMetadata_joined (fs : List CaptureFile) : readMetadata (CaptureFile.joined fs) =
    .ok ⟨(fs.flatMap (·.messages)).length, CaptureFile.lastAddress [] fs, (CaptureFile.joined fs).length⟩ := by
  rw [readMetadata, scan_joined_metadata fs rfl]
  simp

/-- `decode` of captures joined in one file is `decode` of all their messages. -/
theorem decode_joined {Priv Pub : Type} {lib : EcLibrary Priv Pub} (codecs : Codecs) (clock : Clock)
    (urandom : Nat → Fin 4 → UInt8) (base : AudioBase) {files : Files} {src : Path} {fs : List CaptureFile}
    (hsrc : files src = some (CaptureFile.joined fs)) {opts : DecodeOptions} {key pubkey : Option Bytes}
    (hload : opts.load files = some (key, pubkey)) {keyset : Option (ServerKeySet Priv)}
    (hkeyset : decodeKeys lib key pubkey = .ok keyset) :
    decode lib codecs clock urandom files src base opts = (decodeChunksIntoFiles base urandom clock
      { di := offlineDeviceInfo, address := (CaptureFile.lastAddress [] fs).text, includeLogs := opts.includeLogs } files
      (iterAudioChunksFromMessages codecs (keyset.map (·.toAudioKeySet)) (acceptTypes opts.includeLogs) (fs.flatMap (·.messages)))
      none).run [] := by
  rw [decode, hsrc, hload]
  dsimp only
  rw [readMetadata_joined, hkeyset, iterMessages_joined]

/-- Captures joined end to end read as all their messages; and where the first end between two recordings, `decode` of the joined
    file succeeds exactly when `decode` of each part does, and then lists the recordings of the first part and behind them,
    renumbered, those of the second, with the same files up to their serial numbers, all the events and the sums of the totals. -/
theorem joined_captures_decode {Priv Pub : Type} (lib : EcLibrary Priv Pub) (codecs : Codecs) (clock clock₁ clock₂ : Clock)
    (hzone₁ : clock₁.isoformat = clock.isoformat) (hzone₂ : clock₂.isoformat = clock.isoformat)
    (urandom urandom₁ urandom₂ : Nat → Fin 4 → UInt8) (base : AudioBase) (fs more : List CaptureFile) (files files₁ files₂ : Files)
    (src src₁ src₂ : Path) (hsrc : files src = some (CaptureFile.joined (fs ++ more)))
    (hsrc₁ : files₁ src₁ = some (CaptureFile.joined fs)) (hsrc₂ : files₂ src₂ = some (CaptureFile.joined more))
    (opts : DecodeOptions) {key pubkey : Option Bytes} (hload : opts.load files = some (key, pubkey))
    (hload₁ : opts.load files₁ = some (key, pubkey)) (hload₂ : opts.load files₂ = some (key, pubkey))
    {keyset : Option (ServerKeySet Priv)} (hkeyset : decodeKeys lib key pubkey = .ok keyset) :
    let chunks := iterAudioChunksFromMessages codecs (keyset.map (·.toAudioKeySet)) (acceptTypes opts.includeLogs)
      (fs.flatMap (·.messages))
    let first := decode lib codecs clock₁ urandom₁ files₁ src₁ base opts
    let second := decode lib codecs clock₂ urandom₂ files₂ src₂ base opts
    let both := decode lib codecs clock urandom files src base opts
    iterMessages (CaptureFile.joined (fs ++ more)) = ((fs ++ more).flatMap (·.messages), none) ∧
    (EndsBetween chunks →
      (both.ending = .exit 0 ↔ first.ending = .exit 0 ∧ second.ending = .exit 0) ∧
      (both.ending = .exit 0 → ∃ m₁ log₁ m₂ log₂ m, first.sidecarsOf = some (m₁, log₁) ∧ second.sidecarsOf = some (m₂, log₂) ∧
        both.sidecarsOf = some (m, log₁ ++ log₂) ∧ m₁.Joins base (opened chunks) m₂ m ∧
        (∀ r ∈ m₁.recordings, SameFile (first.files (base.parent ++ r.file)) (both.files (base.parent ++ r.file))) ∧
        ∀ r ∈ m₂.recordings, SameFile (second.files (base.parent ++ r.file))
          (both.files (base.parent ++ (r.renumbered base (opened chunks)).file)))) := by
  intro chunks first second both
  refine ⟨iterMessages_joined (fs ++ more), fun hbetween => ?_⟩
  have hfirst : first = _ := decode_joined codecs clock₁ urandom₁ base hsrc₁ hload₁ hkeyset
  have hsecond : second = _ := decode_joined codecs clock₂ urandom₂ base hsrc₂ hload₂ hkeyset
  have hboth : both = _ := decode_joined codecs clock urandom base hsrc hload hkeyset
  rw [List.flatMap_append, iterAudioChunks_append] at hboth
  rw [hfirst, hsecond, hboth]
  exact joined_runs hzone₁ hzone₂ _ _ _ urandom urandom₁ urandom₂ files files₁ files₂ hbetween

/-- A page whose audio ends its recording, on the wire. -/
def stopPage : Bytes := wireField 0x1A (wireField 0x12 ([0x22, 0x01, 0xB8] ++ [0x48, 0x01]))

/-- A message with that page. -/
def stopPageMessage : Bytes := wireField 0x12 ([0x08, 0x02, 0x28, 0x06] ++ wireField 0x32 stopPage)

/-- The parsers on that message and on one with an audio page. -/
def stopCodecs : Codecs where
  parsePendantAll payload :=
    if payload = stopPageMessage then
      some { content := some (.storageBuffer { ingestType := 2, index := 6, flashPage := stopPage }) }
    else if payload = audioPageMessage then
      some { content := some (.storageBuffer { ingestType := 2, index := 7, flashPage := audioPage }) }
    else none
  parseFlashPage page :=
    if page = stopPage then
      some { chunks := [{ audioData := some { codecBeamformingData := [0xB8], didStopRecording := true } }] }
    else if page = audioPage then some { chunks := [{ audioData := some { codecBeamformingData := [0xB8] } }] }
    else none
  aesGcmDecrypt _ _ _ := .error .invalidTag

/-- A capture that ends with a stop marker. -/
def stoppedCapture : CaptureFile := ⟨[stopPageMessage], [], [], PyStr.encode_nil⟩

/-- A capture with an audio page. -/
def nextCapture : CaptureFile := ⟨[audioPageMessage], [], [], PyStr.encode_nil⟩

/-- The two captures and the file joined of them. -/
def joinedFiles : Files := fun path =>
  if path = "a.bin" then some (CaptureFile.joined [stoppedCapture])
  else if path = "b.bin" then some (CaptureFile.joined [nextCapture])
  else if path = "ab.bin" then some (CaptureFile.joined ([stoppedCapture] ++ [nextCapture]))
  else none

/-- Each capture holds one recording; the joined file gives both. -/
theorem joined_captures_decode_sample :
    let both := decode Party.library stopCodecs Utc.clock (fun _ _ => 7) joinedFiles "ab.bin" oggBase {}
    both.ending = .exit 0 ∧ ∃ m log, both.sidecarsOf = some (m, log) ∧
      m.recordings.map (·.file) = ["sync_rec0000.opus", "sync_rec0001.opus"] := by
  intro both
  have hfirst : (decode Party.library stopCodecs Utc.clock (fun _ _ => 7) joinedFiles "a.bin" oggBase {}).ending = .exit 0 ∧
      (decode Party.library stopCodecs Utc.clock (fun _ _ => 7) joinedFiles "a.bin" oggBase {}).sidecarsOf.map
        (fun listed => listed.1.recordings.map (·.file)) = some ["sync_rec0000.opus"] := by decide +kernel
  have hsecond : (decode Party.library stopCodecs Utc.clock (fun _ _ => 7) joinedFiles "b.bin" oggBase {}).ending = .exit 0 ∧
      (decode Party.library stopCodecs Utc.clock (fun _ _ => 7) joinedFiles "b.bin" oggBase {}).sidecarsOf.map
        (fun listed => listed.1.recordings.map (fun r => (r.renumbered oggBase 1).file)) = some ["sync_rec0001.opus"] := by
    decide +kernel
  obtain ⟨-, hdecodes⟩ := joined_captures_decode Party.library stopCodecs Utc.clock Utc.clock Utc.clock rfl rfl (fun _ _ => 7)
    (fun _ _ => 7) (fun _ _ => 7) oggBase [stoppedCapture] [nextCapture] joinedFiles joinedFiles joinedFiles "ab.bin" "a.bin" "b.bin"
    (by decide +kernel) (by decide +kernel) (by decide +kernel) {} rfl rfl rfl
    (show decodeKeys Party.library none none = .ok none from rfl)
  obtain ⟨hiff, hjoins⟩ := hdecodes (by decide +kernel)
  have hexit := hiff.mpr ⟨hfirst.1, hsecond.1⟩
  obtain ⟨m₁, log₁, m₂, log₂, m, hlisted₁, hlisted₂, hlisted, hjoined, -⟩ := hjoins hexit
  have hopened : opened (iterAudioChunksFromMessages stopCodecs none (acceptTypes false)
      ([stoppedCapture].flatMap (·.messages))) = 1 := by decide +kernel
  have hnames := hjoined.recordings
  refine ⟨hexit, m, _, hlisted, ?_⟩
  have hnames₁ := hfirst.2
  have hnames₂ := hsecond.2
  rw [hlisted₁, Option.map_some, Option.some_inj] at hnames₁
  rw [hlisted₂, Option.map_some, Option.some_inj] at hnames₂
  rw [hnames, List.map_append, List.map_map, hnames₁]
  exact congrArg (["sync_rec0000.opus"] ++ ·) (hopened ▸ hnames₂)

end PendantClient
