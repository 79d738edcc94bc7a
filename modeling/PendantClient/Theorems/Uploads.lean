import PendantClient.Theorems.EndToEnd

/-! Uploads: `sync` sends what `push` sends, whatever becomes of it, and `enroll-voice` sends its longest recording. -/

namespace PendantClient

/-! ### The capture is uploaded -/

section
variable (client : HttpRequest → HttpReply)

/-- The request of `push_bin` for a body. -/
def pushRequest (body : Bytes) (url : String) (peripheralId : PyStr) : HttpRequest where
  url
  params := [("blePeripheralDeviceId", peripheralId)]
  content := body
  headers := [("Content-Type", "application/octet-stream")]
  timeoutSec := 60

theorem pushBin_eq {files : Files} {binPath : Path} {body : Bytes} (hbody : files binPath = some body) (url : String)
    (peripheralId : PyStr) : pushBin client files binPath url peripheralId = (pushRequest body url peripheralId).post client := by
  rw [pushBin, hbody]
  rfl

theorem pushMessages_eq {address : PyStr} {idBytes : Bytes} (haddress : address.encode = .ok idBytes) (rawMessages : List Bytes)
    (url : String) : pushMessages client rawMessages url address none =
      (pushRequest (encodeBatch rawMessages idBytes) url address).post client := by
  rw [pushMessages, writeBatchIngestRequest_ok haddress]
  exact pushBin_eq client (writtenFiles_path _ _ _) url address

/-- What `push` sends of a file with a body, once it has an identifier. -/
theorem push_requests {files : Files} {src : Path} {body : Bytes} (hbody : files src = some body) (url : String)
    (peripheralId : PyStr) : (push client files src url (some peripheralId)).requests = [pushRequest body url peripheralId] := by
  rw [push, hbody]
  dsimp only
  rw [pushBin_eq client hbody, HttpRequest.post]
  split
  · rfl
  · split <;> rfl

/-- Without `--peripheral-id` the identifier comes from the file. -/
theorem push_requests_own {files : Files} {src : Path} {body : Bytes} (hbody : files src = some body) {info : BatchMetadata}
    (hinfo : readMetadata body = .ok info) (url : String) : (push client files src url none).requests =
      if info.bleIdentifier = [] then [] else [pushRequest body url info.bleIdentifier] := by
  have hgiven := push_requests client hbody url info.bleIdentifier
  rw [push, hbody] at hgiven ⊢
  dsimp only at hgiven ⊢
  rw [hinfo]
  dsimp only
  split
  · rfl
  · exact hgiven

end

/-- A sync with an upload URL sends one request, the one that `push` sends for its capture file; the file of the request is read
    back as the messages of the capture. A sync without a URL sends nothing, nor does one that does not decode. Nothing else of
    the run depends on the reply, or on whether the request could be written. -/
theorem sync_uploads_capture (codecs : Codecs) (clock : Clock) (urandom : Nat → Fin 4 → UInt8) (client : HttpRequest → HttpReply)
    (before : Files) (bin : Path) (base : AudioBase) (address : PyStr) {idBytes : Bytes} (haddress : address.encode = .ok idBytes)
    (di : DeviceInfo) (keys : Option AudioKeySet) (opts : SyncOptions) (rawMessages : List Bytes) :
    let captured := (writeBatchIngestRequest before { items := rawMessages } address bin none).1
    let synced := syncDecode codecs clock urandom client captured base address di keys opts rawMessages
    (opts.noDecode = true ∨ opts.uploadUrl = "" → ∀ fault, (synced fault).requests = []) ∧
      (opts.noDecode = false → opts.uploadUrl ≠ "" → ∃ request, (synced none).requests = [request] ∧
        iterMessages request.content = (rawMessages, none) ∧
        (push client captured bin opts.uploadUrl (some address)).requests = [request] ∧
        (push client captured bin opts.uploadUrl none).requests = if address = [] then [] else [request]) ∧
      ∀ client' fault, let other := syncDecode codecs clock urandom client' captured base address di keys opts rawMessages fault
        other.files = (synced none).files ∧ other.sidecars = (synced none).sidecars ∧ other.ending = (synced none).ending := by
  intro captured synced
  have hbin : captured bin = some (encodeBatch rawMessages idBytes) := by
    rw [show captured = _ from congrArg Prod.fst (writeBatchIngestRequest_ok haddress before rawMessages bin)]
    exact writtenFiles_path _ _ _
  refine ⟨fun hnone fault => ?_, fun hdecodes hurl => ?_, fun client' fault => ?_⟩
  · show (syncDecode codecs clock urandom client captured base address di keys opts rawMessages fault).requests = []
    rw [syncDecode]
    rcases hnone with hno | hurl
    · rw [if_pos hno]
    · split
      · rfl
      · simp [Decoded.run]
  · refine ⟨pushRequest (encodeBatch rawMessages idBytes) opts.uploadUrl address, ?_, iterMessages_encodeBatch _ _,
      push_requests client hbin _ _, ?_⟩
    · show (syncDecode codecs clock urandom client captured base address di keys opts rawMessages none).requests = _
      rw [syncDecode, hdecodes, if_neg Bool.false_ne_true]
      simp [hurl, pushMessages_eq client haddress, HttpRequest.post, Decoded.run]
    · exact push_requests_own client hbin (readMetadata_encodeBatch haddress rawMessages) opts.uploadUrl
  · show _ = (syncDecode codecs clock urandom client captured base address di keys opts rawMessages none).files ∧
      _ = (syncDecode codecs clock urandom client captured base address di keys opts rawMessages none).sidecars ∧
      _ = (syncDecode codecs clock urandom client captured base address di keys opts rawMessages none).ending
    rw [syncDecode, syncDecode]
    split <;> exact ⟨rfl, rfl, rfl⟩

theorem sync_uploads_capture_sample :
    let captured := (writeBatchIngestRequest (fun _ => none) { items := [audioPageMessage] } [0x43, 0x30] "sync.bin" none).1
    let synced := syncDecode sampleCodecs Utc.clock (fun _ _ => 7) (fun _ => .raised) captured oggBase [0x43, 0x30] sampleSync.di none
      { uploadUrl := "http://server" } [audioPageMessage] none
    ∃ request, synced.requests = [request] ∧ iterMessages request.content = ([audioPageMessage], none) ∧
      (push (fun _ => .raised) captured "sync.bin" "http://server" none).requests = [request] := by
  intro captured synced
  obtain ⟨-, hsends, -⟩ := sync_uploads_capture sampleCodecs Utc.clock (fun _ _ => 7) (fun _ => .raised) (fun _ => none) "sync.bin"
    oggBase [0x43, 0x30] (show PyStr.encode [0x43, 0x30] = .ok [0x43, 0x30] by decide) sampleSync.di none
    { uploadUrl := "http://server" } [audioPageMessage]
  obtain ⟨request, hsent, hread, -, hpushed⟩ := hsends rfl (by decide)
  exact ⟨request, hsent, hread, hpushed.trans (if_neg (by decide))⟩

/-! ### The longest recording -/

theorem longestRecording_eq_none {ws : List RecordingWriter} (h : longestRecording ws = none) : ws = [] := by
  cases ws with
  | nil => rfl
  | cons w rest =>
    rw [longestRecording] at h
    split at h
    · cases h
    · split at h <;> cases h

/-- Of the largest recordings the first. -/
theorem longestRecording_eq_some {ws : List RecordingWriter} {w : RecordingWriter} (h : longestRecording ws = some w) :
    ∃ i : Nat, ws[i]? = some w ∧ ∀ (j : Nat) (u : RecordingWriter), ws[j]? = some u →
      u.chunkCount ≤ w.chunkCount ∧ (j < i → u.chunkCount < w.chunkCount) := by
  induction ws generalizing w with
  | nil => cases h
  | cons v rest ih =>
    rw [longestRecording] at h
    cases hrest : longestRecording rest with
    | none =>
      rw [hrest] at h
      cases h
      rw [longestRecording_eq_none hrest]
      refine ⟨0, rfl, fun j u hu => ?_⟩
      obtain ⟨rfl, rfl⟩ : j = 0 ∧ v = u := by simpa [List.getElem?_singleton] using hu
      simp
    | some longest =>
      rw [hrest] at h
      obtain ⟨i, hi, hlongest⟩ := ih hrest
      dsimp only at h
      split at h
      · rename_i hlt
        cases h
        refine ⟨i + 1, hi, fun j u hu => ?_⟩
        rcases j with - | j
        · cases hu
          exact ⟨hlt.le, fun _ => hlt⟩
        · simpa using hlongest j u hu
      · rename_i hle
        cases h
        refine ⟨0, rfl, fun j u hu => ?_⟩
        rcases j with - | j
        · cases hu
          simp
        · simpa using (hlongest j u hu).1.trans (Nat.le_of_not_lt hle)

/-! ### The sample that is enrolled -/

section
variable {base : AudioBase} {clock : Clock} {info : SyncInfo} {r : Recorder AudioChunk} {o : Outputs}

/-- The file of a listed recording, read back, has as many packets as the recording counts. -/
theorem Settled.listed_file (h : Settled base r o) (hogg : base.isOgg = true) {w : RecordingWriter} (hw : w ∈ o.prune.recordings) :
    ∃ content packets, o.prune.files (base.recordingPath w.recordingIndex) = some content ∧
      (OggPage.readFile content).map dataPackets = some packets ∧ packets.length = w.chunkCount := by
  obtain ⟨hmem, hcount⟩ := mem_prune_recordings.mp hw
  obtain ⟨i, v, -, hi, hclosed⟩ := h.recordings.exists_of_mem hmem
  have hprune := h.prune_file hi hclosed.path
  rw [if_neg hcount, ← hclosed.path, h.files w hmem, hclosed.path, ← hclosed.recordingIndex] at hprune
  obtain ⟨hread, hcontent⟩ := hclosed.content hogg
  refine ⟨_, _, hprune, hread, ?_⟩
  rw [hcontent, hclosed.noted.chunkCount, streamPackets, List.length_map]
  rfl

theorem manifestRecording_fields {w : RecordingWriter} {entry : ManifestRecording} (h : manifestRecording clock base w = .ok entry) :
    (entry.file, entry.chunks) = (base.recordingName w.recordingIndex, w.chunkCount) :=
  Prod.ext (manifestRecording_file h) (manifestRecording_chunks h)

/-- The recording that a run has listed in the `i`-th place of its manifest, and its file. -/
theorem decode_lists (hogg : base.isOgg = true) {urandom : Nat → Fin 4 → UInt8} {files : Files} {chunks : List AudioChunk}
    {nAudio nEvents : Nat} {recordings : List RecordingWriter} :
    let decoded := decodeChunksIntoFiles base urandom clock info files chunks (none : Option PyError)
    decoded.result = .ok (nAudio, nEvents, recordings) → ∃ m log, (decoded.run []).sidecarsOf = some (m, log) ∧
      m.recordings.map (fun entry => (entry.file, entry.chunks)) =
        recordings.map (fun w => (base.recordingName w.recordingIndex, w.chunkCount)) ∧
      ∀ w ∈ recordings, ∃ content packets, decoded.files (base.recordingPath w.recordingIndex) = some content ∧
        (OggPage.readFile content).map dataPackets = some packets ∧ packets.length = w.chunkCount := by
  intro decoded hresult
  have hexit : (decoded.run []).ending = .exit 0 := by rw [Decoded.run, hresult]
  obtain ⟨hended, m, hm, hsidecars⟩ := run_exit_zero hexit
  obtain ⟨r, hstopped, -⟩ := loop_added base urandom (none : Option PyError) files chunks
  have hsettled := hstopped.closeWriters urandom
  have hrecordings : recordings = (Decoding.atManifest base urandom files chunks (none : Option PyError)).1.outputs.recordings := by
    change (decodeChunksIntoFiles base urandom clock info files chunks none).result = _ at hresult
    rw [decodeChunksIntoFiles] at hresult
    dsimp only at hresult
    rw [hended] at hresult
    split at hresult
    · cases hresult
    · cases hresult
      rfl
  obtain ⟨entries, hentries, hlisted⟩ := bind_eq_ok.mp hm
  obtain ⟨finished, -, hlisted⟩ := bind_eq_ok.mp hlisted
  cases hlisted
  refine ⟨_, _, hsidecars, ?_, fun w hw => ?_⟩
  · rw [hrecordings]
    exact map_of_mapM_ok (fun _ _ => manifestRecording_fields) hentries
  · obtain ⟨content, packets, hfile, hread, hcount⟩ := hsettled.listed_file hogg (hrecordings ▸ hw)
    exact ⟨content, packets, (decodeChunksIntoFiles_recording _).trans hfile, hread,
      hcount⟩

end

/-- The recording of a request is the first of the longest in a manifest; it was not too short, and its file reads back as
    the packets that the manifest counts. -/
def SendsLongest (opts : EnrollOptions) (parent : String) (run : CommandRun) (request : HttpRequest) : Prop :=
  ∃ m log file packets, ∃ i : Nat, ∃ entry, run.sidecarsOf = some (m, log) ∧ m.recordings[i]? = some entry ∧
    (∀ (j : Nat) other, m.recordings[j]? = some other → other.chunks ≤ entry.chunks ∧ (j < i → other.chunks < entry.chunks)) ∧
    opts.tooShort entry.chunks = false ∧ request.file = some file ∧ file.name = entry.file ∧ file.contentType = "audio/ogg" ∧
    run.files (parent ++ entry.file) = some file.content ∧
    (OggPage.readFile file.content).map dataPackets = some packets ∧ packets.length = entry.chunks

section
variable (client : HttpRequest → HttpReply)

theorem enrollBase_isOgg (parent : String) : (enrollBase parent).isOgg = true := by
  have hstem : AudioBase.isOgg { stem := "enroll-voice" } = true := by decide +kernel
  exact hstem

theorem EnrollOptions.upload_sent {files : Files} {parent : String} {index : Nat} {content : Bytes}
    (hfile : files ((enrollBase parent).recordingPath index) = some content) (opts : EnrollOptions) :
    ∃ request, opts.upload client files (enrollBase parent) index = ([request], (client request).result) ∧
      request.file = some {
        field := "file", name := (enrollBase parent).recordingName index, contentType := "audio/ogg", content } := by
  have hcontentType : guessContentType (enrollBase parent).recordingSuffix.toLower = "audio/ogg" := by
    have hstem : guessContentType (AudioBase.recordingSuffix { stem := "enroll-voice" }).toLower = "audio/ogg" := by decide +kernel
    exact hstem
  rw [EnrollOptions.upload]
  rcases opts.name with - | name
  · dsimp only
    rw [enrollWearerVoice, enrollVoice, hfile, ← hcontentType]
    exact ⟨_, rfl, rfl⟩
  · dsimp only
    rw [enrollPersonVoice, enrollVoice, hfile, ← hcontentType]
    exact ⟨_, rfl, rfl⟩

end

/-- `enroll-voice` ends with nothing sent, or it sends the longest recording of a run that was decoded. -/
theorem enrollDecode_cases (codecs : Codecs) (clock : Clock) (urandom : Nat → Fin 4 → UInt8) (client : HttpRequest → HttpReply)
    (files : Files) (parent : String) (address : PyStr) (di : DeviceInfo) (keys : Option AudioKeySet) (opts : EnrollOptions)
    (rawMessages : List Bytes) :
    let run := enrollDecode codecs clock urandom client files parent address di keys opts rawMessages
    let decoded := decodeChunksIntoFiles (enrollBase parent) urandom clock { di, address := address.text, includeLogs := false } files
      (iterAudioChunksFromMessages codecs keys [1, 2] rawMessages) (none : Option PyError)
    (run.requests = [] ∧ run.ending ≠ .exit 0) ∨ ∃ nAudio nEvents recordings longest,
      decoded.result = .ok (nAudio, nEvents, recordings) ∧ longestRecording recordings = some longest ∧
        opts.tooShort longest.chunkCount = false ∧ run.files = decoded.files ∧ run.sidecars = decoded.sidecars ∧
        run.requests = (opts.upload client decoded.files (enrollBase parent) longest.recordingIndex).1 ∧
        (run.ending = .exit 0 ↔ ∃ fields, (opts.upload client decoded.files (enrollBase parent) longest.recordingIndex).2 = .ok fields ∧
          isEnrolled fields = true) := by
  intro run decoded
  have hrun : run = enrollDecode codecs clock urandom client files parent address di keys opts rawMessages := rfl
  rw [enrollDecode] at hrun
  split at hrun
  · rw [hrun]
    exact .inl ⟨rfl, by simp⟩
  · dsimp only at hrun
    split at hrun
    · rename_i e herror
      rw [hrun]
      exact .inl ⟨rfl, by simp [Decoded.run, herror]⟩
    · rename_i nAudio nEvents recordings hresult
      split at hrun
      · rw [hrun]
        exact .inl ⟨rfl, by simp⟩
      · rename_i longest hlongest
        split at hrun
        · rw [hrun]
          exact .inl ⟨rfl, by simp⟩
        · rename_i hlong
          rw [hrun]
          refine .inr ⟨nAudio, nEvents, recordings, longest, hresult, hlongest, by simpa using hlong, rfl, rfl, rfl, ?_⟩
          dsimp only
          rcases (opts.upload client decoded.files (enrollBase parent) longest.recordingIndex).2 with e | fields <;> simp

/-- `enroll-voice` sends at most one request, with the longest recording of the run, and exits with 0 exactly when it has sent
    one and the server has enrolled it. -/
theorem enroll_sends_longest (codecs : Codecs) (clock : Clock) (urandom : Nat → Fin 4 → UInt8) (client : HttpRequest → HttpReply)
    (files : Files) (parent : String) (address : PyStr) (di : DeviceInfo) (keys : Option AudioKeySet) (opts : EnrollOptions)
    (rawMessages : List Bytes) :
    let run := enrollDecode codecs clock urandom client files parent address di keys opts rawMessages
    (run.requests = [] ∨ ∃ request, run.requests = [request] ∧ SendsLongest opts parent run request) ∧
      (run.ending = .exit 0 ↔ ∃ request fields, run.requests = [request] ∧ (client request).result = .ok fields ∧
        isEnrolled fields = true) := by
  intro run
  rcases enrollDecode_cases codecs clock urandom client files parent address di keys opts rawMessages with
    ⟨hrequests, hending⟩ | ⟨nAudio, nEvents, recordings, longest, hresult, hlongest, hlong, hrunFiles, hsidecars, hrequests, hending⟩
  · exact ⟨.inl hrequests, by simp [show run.requests = [] from hrequests, show run.ending ≠ .exit 0 from hending]⟩
  obtain ⟨m, log, hlisted, hentries, hfiles⟩ := decode_lists (enrollBase_isOgg parent) hresult
  obtain ⟨i, hi, hmax⟩ := longestRecording_eq_some hlongest
  obtain ⟨content, packets, hfile, hread, hcount⟩ := hfiles longest (List.mem_of_getElem? hi)
  obtain ⟨request, hsent, hrequest⟩ := opts.upload_sent client hfile
  rw [hsent] at hrequests hending
  have hentry (j : Nat) := congrArg (fun list => list[j]?) hentries
  simp only [List.getElem?_map] at hentry
  obtain ⟨entry, hat, hsame⟩ := Option.map_eq_some_iff.mp ((hentry i).trans (congrArg _ hi))
  obtain ⟨hname, hchunks⟩ := Prod.mk.inj hsame
  refine ⟨.inr ⟨request, hrequests, m, log, _, packets, i, entry, ?_, hat, fun j other hother => ?_, ?_, hrequest, hname.symm, rfl,
    ?_, hread, hcount.trans hchunks.symm⟩, ?_⟩
  · rw [CommandRun.sidecarsOf, show run.sidecars = _ from hsidecars]
    exact hlisted
  · have hu := hentry j
    rw [hother, Option.map_some, eq_comm, Option.map_eq_some_iff] at hu
    obtain ⟨u, hu, hsame⟩ := hu
    rw [← (Prod.mk.inj hsame).2, hchunks]
    exact hmax j u hu
  · rw [hchunks]
    exact hlong
  · rw [hname, show run.files = _ from hrunFiles]
    exact hfile
  · rw [show run.requests = _ from hrequests]
    refine hending.trans ?_
    constructor
    · rintro ⟨fields, hreply, henrolled⟩
      exact ⟨request, fields, rfl, hreply, henrolled⟩
    · rintro ⟨_, fields, hsame, hreply, henrolled⟩
      cases hsame
      exact ⟨fields, hreply, henrolled⟩

end PendantClient
