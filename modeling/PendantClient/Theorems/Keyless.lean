import PendantClient.Theorems.Joined

/-! A capture decoded without its key and with one: the key opens packets and does nothing else. Chunks go to the same
    recordings, and events are logged alike. -/

namespace PendantClient

/-! ### A change the splitter does not see -/

/-- Chunks and what they are changed to look alike to the splitter. -/
structure KeepsFlags {χ ω : Type} [Flagged χ] [Flagged ω] (f : χ → ω) : Prop where
  hasAudio : ∀ c, hasAudio (f c) = hasAudio c
  isRecordingStart : ∀ c, isRecordingStart (f c) = isRecordingStart c
  isRecordingStop : ∀ c, isRecordingStop (f c) = isRecordingStop c

/-- The writer when each chunk is replaced. -/
def Writer.map {χ ω : Type} (f : χ → ω) (w : Writer χ) : Writer ω where
  added := w.added.map f
  openedWithStartMarker := w.openedWithStartMarker
  closedWithStopMarker := w.closedWithStopMarker

namespace Recorder
variable {χ ω : Type} {f : χ → ω}

/-- The recorder when each chunk is replaced. -/
def map (f : χ → ω) (r : Recorder χ) : Recorder ω where
  closed := r.closed.map (Writer.map f)
  current := r.current.map (Writer.map f)
  pending := r.pending

theorem writers_map (f : χ → ω) (r : Recorder χ) : (r.map f).writers = r.writers.map (Writer.map f) := by
  rw [writers, writers, List.map_append]
  rcases hw : r.current with - | w <;> simp [map, hw]

variable [Flagged χ] [Flagged ω]

theorem map_takeAudio (h : KeepsFlags f) (w : Writer χ) (c : χ) : (w.map f).takeAudio (f c) = (w.takeAudio c).map f := by
  rw [Writer.takeAudio, Writer.takeAudio, h.hasAudio]
  split
  · simp [Writer.map]
  · rfl

theorem map_take (h : KeepsFlags f) (r : Recorder χ) (w : Writer χ) (c : χ) :
    (r.map f).take (w.map f) (f c) = (r.take w c).map f := by
  rw [take, take, h.isRecordingStop, map_takeAudio h]
  split
  · simp [map, Writer.map]
  · rfl

theorem map_feed (h : KeepsFlags f) (r : Recorder χ) (c : χ) : (r.map f).feed (f c) = (r.feed c).map f := by
  have hflag := h.isRecordingStart c
  cases hw : r.current with
  | none =>
    have hmap : (r.map f).current = none := by rw [map, hw, Option.map_none]
    cases hs : isRecordingStart c with
    | true => rw [feed_note hw hs, feed_note hmap (hflag.trans hs)]; rfl
    | false =>
      rw [feed_none hw hs, feed_none hmap (hflag.trans hs), h.hasAudio]
      split
      · exact map_take h { r with pending := false } { openedWithStartMarker := r.pending } c
      · rfl
  | some w =>
    have hmap : (r.map f).current = some (w.map f) := by rw [map, hw, Option.map_some]
    cases hs : isRecordingStart c with
    | true =>
      cases ho : w.openedWithStartMarker with
      | true =>
        rw [feed_restart hw hs ho, feed_restart hmap (hflag.trans hs) ho]
        simp [map]
      | false =>
        rw [feed_promote hw hs ho, feed_promote hmap (hflag.trans hs) ho]
        exact map_take h r { w with openedWithStartMarker := true } c
    | false =>
      rw [feed_body hw hs, feed_body hmap (hflag.trans hs)]
      exact map_take h r w c

theorem map_feedAll (h : KeepsFlags f) (chunks : List χ) : ∀ r : Recorder χ,
    (r.map f).feedAll (chunks.map f) = (r.feedAll chunks).map f := by
  induction chunks with
  | nil => exact fun _ => rfl
  | cons c rest ih =>
    intro r
    rw [List.map_cons, feedAll, List.foldl_cons, map_feed h]
    exact ih (r.feed c)

end Recorder

/-! ### Chunks opened with a key -/

section
variable {codecs : Codecs} {keys : Option AudioKeySet}

/-- Whether the chunk carries sealed audio. -/
def AudioChunk.isSealed (c : AudioChunk) : Bool := c.chunk.audio.any fun audio => audio.encrypted.isSome

/-- The chunk with its audio opened, if the keys open it. -/
def AudioChunk.decrypted (codecs : Codecs) (keys : Option AudioKeySet) (c : AudioChunk) : AudioChunk :=
  { c with chunk := decryptChunk codecs keys c.chunk }

/-- A chunk stays, or the packets of its sealed audio are replaced. -/
theorem decryptChunk_cases (codecs : Codecs) (keys : Option AudioKeySet) (chunk : Chunk) :
    decryptChunk codecs keys chunk = chunk ∨ ∃ audio opus, chunk.audio = some audio ∧ audio.encrypted.isSome = true ∧
      decryptChunk codecs keys chunk = { chunk with audio := some { audio with opusPackets := opus } } := by
  unfold decryptChunk
  split
  · rename_i audio keys haudio
    split
    · rename_i hsealed
      split
      · exact .inr ⟨audio, _, haudio, hsealed, rfl⟩
      · exact .inl rfl
    · exact .inl rfl
  · exact .inl rfl

theorem decryptChunk_none (chunk : Chunk) : decryptChunk codecs none chunk = chunk := by
  unfold decryptChunk
  split
  · rename_i hkeys
    cases hkeys
  · rfl

variable (codecs keys) in
theorem decrypted_keepsFlags : KeepsFlags (AudioChunk.decrypted codecs keys) := by
  refine ⟨fun c => ?_, fun c => ?_, fun c => ?_⟩ <;>
  · rcases decryptChunk_cases codecs keys c.chunk with hsame | ⟨audio, opus, haudio, hsealed, hopened⟩
    · simp only [hasAudio, isRecordingStart, isRecordingStop, AudioChunk.decrypted, hsame]
    · simp [hasAudio, isRecordingStart, isRecordingStop, AudioChunk.decrypted, hopened, haudio, hsealed, Chunk.hasAudio,
        AudioPayload.hasAudio, Chunk.isRecordingStart, Chunk.isRecordingStop]

theorem eventFor_decrypted (c : AudioChunk) : eventFor (c.decrypted codecs keys) = eventFor c := by
  rcases decryptChunk_cases codecs keys c.chunk with hsame | ⟨audio, opus, haudio, -, hopened⟩
  · rw [AudioChunk.decrypted, hsame]
  · rw [AudioChunk.decrypted, hopened]
    simp only [eventFor, eventKindFor, AudioChunk.absoluteChunkTimestampMs, Chunk.isStorageSessionStart, Chunk.isStorageSessionStop,
      Chunk.isRecordingStart, Chunk.isRecordingStop, haudio, Option.any_some]
    rfl

theorem pageChunks_decrypted (sb : StorageBufferMsg) (page : FlashPage) (chunks : List Chunk) :
    pageChunks codecs keys sb page chunks = (pageChunks codecs none sb page chunks).map (AudioChunk.decrypted codecs keys) := by
  induction chunks with
  | nil => rfl
  | cons chunk rest ih =>
    rw [pageChunks, pageChunks, List.map_cons, ih, AudioChunk.decrypted, decryptChunk_none]

theorem iterAudioChunks_decrypted (acceptTypes : List Int) (messages : List Bytes) :
    iterAudioChunksFromMessages codecs keys acceptTypes messages =
      (iterAudioChunksFromMessages codecs none acceptTypes messages).map (AudioChunk.decrypted codecs keys) := by
  induction messages with
  | nil => rfl
  | cons payload rest ih =>
    rw [iterAudioChunksFromMessages, iterAudioChunksFromMessages]
    rw [ih]
    rcases codecs.parsePendantAll payload with - | ⟨-, - | sb | -⟩
    · rfl
    · rfl
    · dsimp only
      split
      · rfl
      · split
        · rfl
        · rcases parseFlashPage codecs sb.flashPage with - | page
          · rfl
          · exact (congrArg (· ++ _) (pageChunks_decrypted sb page page.chunks)).trans List.map_append.symm
    · rfl

/-- Where sealed audio carries no plain packets, opening it adds packets to those that are there. -/
theorem streamPackets_decrypted {chunks : List AudioChunk} (hplain : ∀ c ∈ chunks, c.isSealed = true → c.opus = []) :
    (streamPackets chunks).Sublist (streamPackets (chunks.map (AudioChunk.decrypted codecs keys))) := by
  induction chunks with
  | nil => exact .slnil
  | cons c rest ih =>
    have hrest := ih fun c hc => hplain c (List.mem_cons_of_mem _ hc)
    have hcons (c : AudioChunk) (cs : List AudioChunk) : streamPackets (c :: cs) = streamPackets [c] ++ streamPackets cs :=
      streamPackets_append [c] cs
    rw [List.map_cons, hcons, hcons (c.decrypted codecs keys)]
    refine .append ?_ hrest
    rcases decryptChunk_cases codecs keys c.chunk with hsame | ⟨audio, opus, haudio, hsealed, -⟩
    · rw [AudioChunk.decrypted, hsame]
    · have hnone := hplain c List.mem_cons_self (by rw [AudioChunk.isSealed, haudio]; exact hsealed)
      rw [streamPackets, List.filter_cons_of_neg (by simp [AudioChunk.hasPacket, hnone])]
      exact List.nil_sublist _

end

/-! ### The recordings of a run -/

/-- The recordings that a run lists: one for each group of chunks with packets, under the number of the group, and with these
    packets in its file. -/
structure Manifest.Lists (m : Manifest) (base : AudioBase) (files : Files) (groups : List (List AudioChunk)) : Prop where
  listed : ∀ r ∈ m.recordings, ∃ group, groups[r.recordingIndex]? = some group ∧ streamPackets group ≠ [] ∧
    r.file = base.recordingName r.recordingIndex ∧ packetsOf files (base.parent ++ r.file) = some (streamPackets group)
  complete : ∀ (index : Nat) group, groups[index]? = some group → streamPackets group ≠ [] →
    ∃ r ∈ m.recordings, r.recordingIndex = index

section
variable {base : AudioBase} {clock : Clock} {info : SyncInfo} {urandom : Nat → Fin 4 → UInt8} {files : Files}
  {chunks : List AudioChunk}

variable (urandom files) in
/-- A run that has read all chunks has closed the recordings of the splitter's writers. -/
theorem run_settled (hended : (Decoding.atManifest base urandom files chunks (none : Option PyError)).2 = none) :
    ∃ o, (Decoding.atManifest base urandom files chunks (none : Option PyError)).1.outputs = o.prune ∧
      Settled base (Recorder.feedAll {} chunks) o := by
  have hstart : AtChunk base {} { outputs := { files } } := .start files
  have hsame : (Decoding.atManifest base urandom files chunks (none : Option PyError)).2 =
    (Decoding.loop base urandom none { outputs := { files } } chunks).2 := rfl
  rcases hstart.loop urandom (none : Option PyError) chunks with ⟨-, d, hloop, -, hd⟩ | ⟨-, d, e, v, hloop, -⟩
  · refine ⟨_, rfl, ?_⟩
    rw [hloop]
    exact hd.stopped.closeWriters urandom
  · rw [hsame, hloop] at hended
    cases hended

theorem Settled.lists {r : Recorder AudioChunk} {o : Outputs} (h : Settled base r o) (hogg : base.isOgg = true) {m : Manifest}
    (hentries : o.prune.recordings.mapM (manifestRecording clock base) = .ok m.recordings) :
    m.Lists base o.prune.files (r.writers.map Writer.added) where
  listed r hr := by
    obtain ⟨w, hw, hfile, hindex⟩ := listed_writer hentries hr
    obtain ⟨hw, hcount⟩ := mem_prune_recordings.mp hw
    obtain ⟨i, v, hv, hi, hclosed⟩ := h.recordings.exists_of_mem hw
    have hpackets : v.packets ≠ [] := fun hnone => hcount (hclosed.noted.chunkCount.trans (congrArg List.length hnone))
    rw [hfile, hindex, hclosed.recordingIndex]
    refine ⟨v.added, ?_, fun hnone => hpackets (List.map_eq_nil_iff.mp hnone), rfl, ?_⟩
    · rw [List.getElem?_map, hv, Option.map_some]
    · have hkept := h.prune_file hi hclosed.path
      rw [if_neg hcount] at hkept
      show PendantClient.packetsOf _ (base.recordingPath i) = _
      rw [PendantClient.packetsOf, hkept]
      exact h.packetsOf hogg hi hclosed
  complete index group hgroup hpackets := by
    rw [List.getElem?_map] at hgroup
    obtain ⟨v, hv, rfl⟩ := Option.map_eq_some_iff.mp hgroup
    obtain ⟨w, hw, hclosed⟩ := h.recordings.exists_right hv
    have hcount : w.chunkCount ≠ 0 := by
      rw [hclosed.noted.chunkCount]
      exact fun hzero => hpackets (List.map_eq_nil_iff.mpr (List.length_eq_zero_iff.mp hzero))
    have hkept := mem_prune_recordings.mpr ⟨List.mem_of_getElem? hw, hcount⟩
    have hmem := List.mem_map_of_mem (f := fun w : RecordingWriter => (base.recordingName w.recordingIndex, w.recordingIndex)) hkept
    rw [← entries_named hentries] at hmem
    obtain ⟨r, hr, heq⟩ := List.mem_map.mp hmem
    exact ⟨r, hr, (congrArg Prod.snd heq).trans hclosed.recordingIndex⟩

theorem Manifest.Lists.of_files {m : Manifest} {files' : Files} {groups : List (List AudioChunk)} (h : m.Lists base files groups)
    (hfiles : ∀ index, files' (base.recordingPath index) = files (base.recordingPath index)) : m.Lists base files' groups where
  listed r hr := by
    obtain ⟨group, hgroup, hpackets, hfile, hread⟩ := h.listed r hr
    refine ⟨group, hgroup, hpackets, hfile, Eq.trans ?_ hread⟩
    rw [hfile]
    exact congrArg (fun file => (Option.bind file OggPage.readFile).map dataPackets) (hfiles r.recordingIndex)
  complete := h.complete

/-- What a run that exits with 0 has made of its chunks. -/
theorem run_groups :
    let run := (decodeChunksIntoFiles base urandom clock info files chunks none).run []
    run.ending = .exit 0 → ∃ m, run.sidecarsOf = some (m, chunks.filterMap eventFor) ∧
      m.totalAudioChunks = (chunks.filter hasAudio).length ∧ m.totalEventChunks = (chunks.filterMap eventFor).length ∧
      (base.isOgg = true → m.Lists base run.files ((Recorder.feedAll {} chunks).writers.map Writer.added)) := by
  intro run hexit
  obtain ⟨m, hlisted, hentries, -, haudio, hevents⟩ := run_lists hexit
  obtain ⟨o, hpruned, hsettled⟩ := run_settled urandom files (run_exit_iff.mp hexit).1
  have hfiles (index : Nat) : run.files (base.recordingPath index) = o.prune.files (base.recordingPath index) :=
    (decodeChunksIntoFiles_recording index).trans (congrFun (congrArg Outputs.files hpruned) _)
  rw [hpruned] at hentries
  exact ⟨m, hlisted, haudio, hevents, fun hogg => (hsettled.lists hogg hentries).of_files hfiles⟩

/-- Where sealed audio carries no plain packets, a run with keys lists all that a run without them lists. -/
theorem lists_decrypted {codecs : Codecs} {keys : Option AudioKeySet} {files' : Files} {m m' : Manifest}
    (hplain : ∀ c ∈ chunks, c.isSealed = true → c.opus = [])
    (h : m.Lists base files ((Recorder.feedAll {} chunks).writers.map Writer.added))
    (h' : m'.Lists base files' ((Recorder.feedAll {} (chunks.map (AudioChunk.decrypted codecs keys))).writers.map Writer.added)) :
    ∀ r ∈ m.recordings, ∃ r' ∈ m'.recordings, r'.recordingIndex = r.recordingIndex ∧ r'.file = r.file ∧ ∃ packets packets',
      packetsOf files (base.parent ++ r.file) = some packets ∧ packetsOf files' (base.parent ++ r'.file) = some packets' ∧
        packets.Sublist packets' := by
  intro r hr
  obtain ⟨group, hgroup, hpackets, hfile, hread⟩ := h.listed r hr
  have hwriters : (Recorder.feedAll {} (chunks.map (AudioChunk.decrypted codecs keys))).writers.map Writer.added =
      ((Recorder.feedAll {} chunks).writers.map Writer.added).map (List.map (AudioChunk.decrypted codecs keys)) := by
    have hfed := Recorder.map_feedAll (decrypted_keepsFlags codecs keys) chunks {}
    refine (congrArg (fun r => (Recorder.writers r).map Writer.added) hfed).trans ?_
    rw [Recorder.writers_map, List.map_map, List.map_map]
    rfl
  have hsub : (streamPackets group).Sublist (streamPackets (group.map (AudioChunk.decrypted codecs keys))) := by
    refine streamPackets_decrypted fun c hc => hplain c ?_
    obtain ⟨v, hv, rfl⟩ := List.mem_map.mp (List.mem_of_getElem? hgroup)
    have hadded : c ∈ (Recorder.feedAll {} chunks).added := List.mem_flatMap.mpr ⟨v, hv, hc⟩
    rw [Recorder.added_feedAll] at hadded
    rcases List.mem_append.mp hadded with hnone | hkept
    · exact absurd hnone List.not_mem_nil
    · exact List.mem_of_mem_filter ((Recorder.kept_sublist _ {}).subset hkept)
  have hgroup' : ((Recorder.feedAll {} (chunks.map (AudioChunk.decrypted codecs keys))).writers.map Writer.added)[r.recordingIndex]? =
      some (group.map (AudioChunk.decrypted codecs keys)) := by
    rw [hwriters, List.getElem?_map, hgroup, Option.map_some]
  obtain ⟨r', hr', hindex⟩ := h'.complete _ _ hgroup' fun hnone => hpackets (List.sublist_nil.mp (hnone ▸ hsub))
  obtain ⟨group', hsame, -, hfile', hread'⟩ := h'.listed r' hr'
  rw [hindex, hgroup', Option.some_inj] at hsame
  exact ⟨r', hr', hindex, by rw [hfile', hindex, hfile], _, _, hread, hread', hsame ▸ hsub⟩

end

/-! ### `decode` without a key -/

theorem DecodeOptions.load_keyless {files : Files} {opts : DecodeOptions} {key pubkey : Option Bytes} (hkeyless : opts.keyPath = none)
    (hload : opts.load files = some (key, pubkey)) : key = none := by
  rw [load, hkeyless] at hload
  obtain ⟨key', hkey, hload⟩ := Option.bind_eq_some_iff.mp hload
  obtain ⟨pubkey', -, hload⟩ := Option.bind_eq_some_iff.mp hload
  cases hkey
  cases hload
  rfl

/-- `decode` of one capture without a key and with any key, right or wrong: where both succeed, they log the same events and
    count the same chunks; and with an Ogg base, unless sealed audio carries plain packets as well, each recording listed without
    the key is listed with it, under its number and with its packets in their order, others between them. -/
theorem key_only_adds {Priv Pub : Type} (lib : EcLibrary Priv Pub) (codecs : Codecs) (clock clock' : Clock)
    (urandom urandom' : Nat → Fin 4 → UInt8) (files files' : Files) (src src' : Path) {data : Bytes}
    (hsrc : files src = some data) (hsrc' : files' src' = some data) (base : AudioBase)
    (opts opts' : DecodeOptions) (hlogs : opts'.includeLogs = opts.includeLogs) (hkeyless : opts.keyPath = none) :
    let chunks := iterAudioChunksFromMessages codecs none (acceptTypes opts.includeLogs) (iterMessages data).1
    let bare := decode lib codecs clock urandom files src base opts
    let keyed := decode lib codecs clock' urandom' files' src' base opts'
    bare.ending = .exit 0 → keyed.ending = .exit 0 → ∃ m m' log, bare.sidecarsOf = some (m, log) ∧
      keyed.sidecarsOf = some (m', log) ∧ m'.totalAudioChunks = m.totalAudioChunks ∧
      m'.totalEventChunks = m.totalEventChunks ∧
      (base.isOgg = true → (∀ c ∈ chunks, c.isSealed = true → c.opus = []) →
        ∀ r ∈ m.recordings, ∃ r' ∈ m'.recordings, r'.recordingIndex = r.recordingIndex ∧ r'.file = r.file ∧ ∃ packets packets',
          packetsOf bare.files (base.parent ++ r.file) = some packets ∧ packetsOf keyed.files (base.parent ++ r'.file) = some packets' ∧
            packets.Sublist packets') := by
  intro chunks bare keyed hexit hexit'
  rcases decode_cases lib codecs clock urandom files src base opts with ⟨-, -, hstopped⟩ |
    ⟨_, key, pubkey, keyset, info, messages, hread, hload, hkeys, -, hmessages, hbare⟩
  · exact absurd hexit hstopped
  rcases decode_cases lib codecs clock' urandom' files' src' base opts' with ⟨-, -, hstopped⟩ |
    ⟨_, key', pubkey', keyset', info', messages', hread', hload', hkeys', -, hmessages', hkeyed⟩
  · exact absurd hexit' hstopped
  obtain rfl := Option.some.inj (hsrc.symm.trans hread)
  obtain rfl := Option.some.inj (hsrc'.symm.trans hread')
  obtain rfl := (Prod.mk.inj (hmessages.symm.trans hmessages')).1
  obtain rfl := opts.load_keyless hkeyless hload
  cases hkeys
  have hchunks : chunks = iterAudioChunksFromMessages codecs none (acceptTypes opts.includeLogs) messages := by
    show iterAudioChunksFromMessages _ _ _ (iterMessages data).1 = _
    rw [hmessages]
  rw [Option.map_none, ← hchunks] at hbare
  rw [hlogs, iterAudioChunks_decrypted, ← hchunks] at hkeyed
  rw [show bare = _ from hbare] at hexit ⊢
  rw [show keyed = _ from hkeyed] at hexit' ⊢
  obtain ⟨m, hlisted, haudio, hevents, hlists⟩ := run_groups hexit
  obtain ⟨m', hlisted', haudio', hevents', hlists'⟩ := run_groups hexit'
  have hlog : (chunks.map (AudioChunk.decrypted codecs (keyset'.map (·.toAudioKeySet)))).filterMap eventFor =
      chunks.filterMap eventFor := by
    rw [List.filterMap_map]
    exact congrArg (fun f => chunks.filterMap f) (funext eventFor_decrypted)
  rw [hlog] at hlisted' hevents'
  refine ⟨m, m', _, hlisted, hlisted', ?_, hevents'.trans hevents.symm, fun hogg hplain => lists_decrypted hplain (hlists hogg) (hlists' hogg)⟩
  · rw [haudio, haudio', List.filter_map, List.length_map]
    exact congrArg (fun p => (chunks.filter p).length) (funext (decrypted_keepsFlags codecs _).hasAudio)

/-- A capture of a plain page and a sealed one, beside the key that was kept. -/
def mixedFiles : Files := fun path =>
  if path = "sync.bin" then some (encodeBatch [audioPageMessage, Party.message] [])
  else if path = "sync.opus.key.pem" then some (Party.library.privateBytes .server)
  else if path = "pendant.pub" then some (Party.library.publicBytes (Party.library.publicKey .pendant))
  else none

/-- The key brings a second packet. -/
theorem key_only_adds_sample :
    let bare := decode Party.library Party.codecs Utc.clock (fun _ _ => 7) mixedFiles "sync.bin" oggBase {}
    let keyed := decode Party.library Party.codecs Utc.clock (fun _ _ => 9) mixedFiles "sync.bin" oggBase keyOptions
    packetsOf keyed.files "sync_rec0000.opus" = some [[0xB8], [0xB8]] ∧ ∃ m m' log, bare.sidecarsOf = some (m, log) ∧
      keyed.sidecarsOf = some (m', log) ∧ ∃ r ∈ m.recordings, ∃ r' ∈ m'.recordings, r.file = "sync_rec0000.opus" ∧
        r'.file = r.file ∧ packetsOf bare.files (oggBase.parent ++ r.file) = some [[0xB8]] := by
  intro bare keyed
  have hbare : bare.ending = .exit 0 ∧ packetsOf bare.files "sync_rec0000.opus" = some [[0xB8]] ∧
      bare.sidecarsOf.map (fun listed => listed.1.recordings.map (·.file)) = some ["sync_rec0000.opus"] := by decide +kernel
  have hkeyed : keyed.ending = .exit 0 ∧ packetsOf keyed.files "sync_rec0000.opus" = some [[0xB8], [0xB8]] := by decide +kernel
  obtain ⟨m, m', log, hlisted, hlisted', -, -, hadds⟩ := key_only_adds Party.library Party.codecs Utc.clock Utc.clock
    (fun _ _ => 7) (fun _ _ => 9) mixedFiles mixedFiles "sync.bin" "sync.bin"
    (show mixedFiles "sync.bin" = some (encodeBatch [audioPageMessage, Party.message] []) from rfl) rfl oggBase
    {} keyOptions rfl rfl hbare.1 hkeyed.1
  have hnames := hbare.2.2
  rw [hlisted, Option.map_some, Option.some_inj] at hnames
  have hmem : "sync_rec0000.opus" ∈ m.recordings.map (·.file) := hnames ▸ List.mem_cons_self
  obtain ⟨r, hr, hfile⟩ := List.mem_map.mp hmem
  obtain ⟨r', hr', -, hfile', -⟩ := hadds (by decide +kernel) (by decide +kernel) r hr
  exact ⟨hkeyed.2, m, m', log, hlisted, hlisted', r, hr, r', hr', hfile, hfile', hfile.symm ▸ hbare.2.1⟩

end PendantClient
