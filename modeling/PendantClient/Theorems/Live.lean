import PendantClient.Live
import PendantClient.Theorems.Persist

/-! Live download and capture file. The decoder treats every payload by itself, so decoding payload by payload gives
    the chunks of the whole; and the file gives back exactly the payloads that were written. -/

namespace PendantClient

/-! ### The decoder -/

/-- The chunk without its time of receipt. -/
def AudioChunk.withoutReceipt (c : AudioChunk) : AudioChunk := { c with receivedAtUnixMs := 0 }

section
variable {codecs : Codecs} {keys : Option AudioKeySet} {acceptTypes : List Int}

theorem iterAudioChunks_cons (payload : Bytes) (payloads : List Bytes) :
    iterAudioChunksFromMessages codecs keys acceptTypes (payload :: payloads) =
      iterAudioChunksFromMessages codecs keys acceptTypes [payload] ++
        iterAudioChunksFromMessages codecs keys acceptTypes payloads := by
  simp only [iterAudioChunksFromMessages]
  split
  · rfl
  · split
    · split
      · rfl
      · split
        · rfl
        · split
          · rfl
          · rw [List.append_nil]
    · rfl

/-- Nothing is carried from one message to the next. -/
theorem iterAudioChunks_append (payloads payloads' : List Bytes) :
    iterAudioChunksFromMessages codecs keys acceptTypes (payloads ++ payloads') =
      iterAudioChunksFromMessages codecs keys acceptTypes payloads ++
        iterAudioChunksFromMessages codecs keys acceptTypes payloads' := by
  induction payloads with
  | nil => rfl
  | cons payload payloads ih =>
    rw [List.cons_append, iterAudioChunks_cons, ih, iterAudioChunks_cons payload payloads, List.append_assoc]

theorem pageChunks_withoutReceipt (sb : StorageBufferMsg) (page : FlashPage) (chunks : List Chunk) :
    (pageChunks codecs keys sb page chunks).map AudioChunk.withoutReceipt = pageChunks codecs keys sb page chunks := by
  induction chunks with
  | nil => rfl
  | cons chunk rest ih =>
    rw [pageChunks, List.map_cons, ih]
    rfl

/-- The decoder leaves the time of receipt at 0. -/
theorem iterAudioChunks_withoutReceipt (payloads : List Bytes) :
    (iterAudioChunksFromMessages codecs keys acceptTypes payloads).map AudioChunk.withoutReceipt =
      iterAudioChunksFromMessages codecs keys acceptTypes payloads := by
  induction payloads with
  | nil => rfl
  | cons payload payloads ih =>
    rw [iterAudioChunks_cons, List.map_append, ih]
    congr 1
    simp only [iterAudioChunksFromMessages]
    split
    · rfl
    · split
      · split
        · rfl
        · split
          · rfl
          · split
            · rfl
            · rw [List.append_nil, pageChunks_withoutReceipt]
      · rfl

end

/-! ### The file -/

section
variable {messages : List Bytes} {bleIdentifier : PyStr} {files files' : Files} {path : Path} {n : Nat}

theorem iterMessages_written_of_none
    (h : writeBatchIngestRequest files { items := messages } bleIdentifier path none = (files', .ok n)) :
    ∃ data, files' path = some data ∧ iterMessages data = (messages, none) := by
  cases hid : bleIdentifier.encode with
  | ok idBytes =>
    rw [writeBatchIngestRequest_ok hid] at h
    obtain ⟨rfl, -⟩ := Prod.mk.inj h
    exact ⟨_, writtenFiles_path _ _ _, iterMessages_encodeBatch messages idBytes⟩
  | error e =>
    have hne : bleIdentifier ≠ [] := by
      rintro rfl
      cases hid
    have hresult : (batchCalls { items := messages } bleIdentifier).2 = .error e := by
      simp only [batchCalls, if_neg hne, hid]
    have := congrArg Prod.snd h
    dsimp only [writeBatchIngestRequest] at this
    rw [hresult] at this
    split at this <;> cases this

/-- A write call that returns has written a file that is read back as the messages. -/
theorem iterMessages_written {fault : Option IoFault}
    (h : writeBatchIngestRequest files { items := messages } bleIdentifier path fault = (files', .ok n)) :
    ∃ data, files' path = some data ∧ iterMessages data = (messages, none) := by
  cases fault with
  | none => exact iterMessages_written_of_none h
  | some f =>
    rcases Nat.lt_or_ge f.call (batchCalls { items := messages } bleIdentifier).1.length with hlt | hge
    · obtain ⟨before, after, hcalls, hlen⟩ := split_of_getElem? (List.getElem?_eq_getElem hlt)
      have := congrArg Prod.snd h
      dsimp only [writeBatchIngestRequest] at this
      rw [hcalls, execute_fault hlen] at this
      cases this
    · have hnone : writeBatchIngestRequest files { items := messages } bleIdentifier path none = (files', .ok n) := by
        rw [← h]
        dsimp only [writeBatchIngestRequest]
        rw [execute_late hge]
      exact iterMessages_written_of_none hnone

end

/-! ### The run -/

section
variable {parse : Bytes → Option PendantAllMsg}

theorem take_step {d e : Download} (h : d.step parse .take = some e) :
    ∃ entry, e.phase = .yielded entry ∧ e.yielded = d.yielded ++ [entry] := by
  cases Download.stepped h
  exact ⟨_, rfl, rfl⟩

end

section
variable {codecs : Codecs} {keys : Option AudioKeySet} {acceptTypes : List Int}

/-- What the decoder makes of all payloads the raw generator has yielded. -/
def Live.decoded (codecs : Codecs) (keys : Option AudioKeySet) (acceptTypes : List Int) (l : Live) : List AudioChunk :=
  iterAudioChunksFromMessages codecs keys acceptTypes (l.download.yielded.map (·.1))

/-- The chunks yielded so far are those of the payloads so far, less what is still to come of the last one. -/
structure Follows (codecs : Codecs) (keys : Option AudioKeySet) (acceptTypes : List Int) (l : Live) : Prop where
  between : l.phase = .iterating ∨ l.phase = .ended →
    l.yielded.map AudioChunk.withoutReceipt = l.decoded codecs keys acceptTypes
  received : l.phase = .received → ∃ before entry, l.download.phase = .yielded entry ∧
    l.download.yielded = before ++ [entry] ∧ l.yielded.map AudioChunk.withoutReceipt =
      iterAudioChunksFromMessages codecs keys acceptTypes (before.map (·.1))
  yielding : ∀ nowMs left, l.phase = .yielding nowMs left →
    (l.yielded ++ left).map AudioChunk.withoutReceipt = l.decoded codecs keys acceptTypes
  aborted : l.phase = .aborted → l.yielded.map AudioChunk.withoutReceipt <+: l.decoded codecs keys acceptTypes

theorem Follows.isPrefix {l : Live} (h : Follows codecs keys acceptTypes l) :
    l.yielded.map AudioChunk.withoutReceipt <+: l.decoded codecs keys acceptTypes := by
  cases hphase : l.phase with
  | iterating => exact ⟨[], by rw [List.append_nil, h.between (.inl hphase)]⟩
  | ended => exact ⟨[], by rw [List.append_nil, h.between (.inr hphase)]⟩
  | received =>
    obtain ⟨before, entry, -, hyielded, heq⟩ := h.received hphase
    rw [heq, Live.decoded, hyielded, List.map_append, iterAudioChunks_append]
    exact List.prefix_append _ _
  | yielding nowMs left =>
    rw [← h.yielding nowMs left hphase, List.map_append]
    exact List.prefix_append _ _
  | aborted => exact h.aborted hphase

theorem not_between {phase : LivePhase} {p : Prop} (hi : phase ≠ .iterating) (he : phase ≠ .ended) :
    phase = .iterating ∨ phase = .ended → p :=
  fun hp => absurd hp (not_or.mpr ⟨hi, he⟩)

theorem Follows.download {l : Live} {d : Download} {a : DownloadAct} (h : Follows codecs keys acceptTypes l)
    (hallow : Live.allows l.phase a = true) (hstep : l.download.step codecs.parsePendantAll a = some d) :
    Follows codecs keys acceptTypes { l with download := d, phase := Live.phaseAfter l.phase a } := by
  by_cases htake : a = .take
  · subst htake
    obtain ⟨entry, hphase, hyielded⟩ := take_step hstep
    have hiter : l.phase = .iterating := by simpa [Live.allows] using hallow
    exact ⟨not_between nofun nofun, fun _ => ⟨l.download.yielded, entry, hphase, hyielded, h.between (.inl hiter)⟩, nofun,
      nofun⟩
  have hyielded := (step_keeps hstep).2 htake
  have hdecoded : ({ l with download := d, phase := Live.phaseAfter l.phase a } : Live).decoded codecs keys acceptTypes =
      l.decoded codecs keys acceptTypes := by
    show iterAudioChunksFromMessages _ _ _ (d.yielded.map _) = _
    rw [hyielded]
    rfl
  -- the loop is where it was, or it was waiting and has ended
  have hphase : Live.phaseAfter l.phase a = l.phase ∧ ((∃ raw, a = .notify raw) ∨ (∃ b, a = .session b) ∨ Live.inBody l.phase = false) ∨
      Live.phaseAfter l.phase a = .ended ∧ l.phase = .iterating := by
    cases a with
    | notify raw => exact .inl ⟨rfl, .inl ⟨raw, rfl⟩⟩
    | session b => exact .inl ⟨rfl, .inr (.inl ⟨b, rfl⟩)⟩
    | begin ok =>
      have hiter : l.phase = .iterating := by simpa [Live.allows] using hallow
      cases ok with
      | true => exact .inl ⟨rfl, .inr (.inr (by rw [hiter]; rfl))⟩
      | false => exact .inr ⟨rfl, hiter⟩
    | take => exact absurd rfl htake
    | stop =>
      rw [Live.phaseAfter]
      split
      · exact .inr ⟨rfl, ‹_›⟩
      · exact .inl ⟨rfl, .inr (.inr (by simpa [Live.allows] using hallow))⟩
    | abort delivered => exact .inl ⟨rfl, .inr (.inr (by simpa [Live.allows] using hallow))⟩
    | resume => cases hallow
    | _ =>
      have hiter : l.phase = .iterating := by simpa [Live.allows] using hallow
      exact .inl ⟨rfl, .inr (.inr (by rw [hiter]; rfl))⟩
  rcases hphase with ⟨hsame, hlink⟩ | ⟨hended, hiter⟩
  · rw [hsame] at hdecoded ⊢
    refine ⟨fun hp => (h.between hp).trans hdecoded.symm, fun hp => ?_, fun nowMs left hp =>
      (h.yielding nowMs left hp).trans hdecoded.symm, fun hp => hdecoded.symm ▸ h.aborted hp⟩
    obtain ⟨before, entry, hentry, hy, heq⟩ := h.received hp
    refine ⟨before, entry, ?_, hyielded.trans hy, heq⟩
    rcases hlink with hnotify | hsession | hbody
    · exact (phase_step (.inl hnotify) hstep).trans hentry
    · exact (phase_step (.inr hsession) hstep).trans hentry
    · have hp' : l.phase = .received := hp
      rw [hp'] at hbody
      cases hbody
  · rw [hended] at hdecoded ⊢
    exact ⟨fun _ => (h.between (.inl hiter)).trans hdecoded.symm, nofun, nofun, nofun⟩

theorem Follows.step {l l' : Live} {a : LiveAct} (h : Follows codecs keys acceptTypes l)
    (hstep : l.step codecs keys acceptTypes a = some l') : Follows codecs keys acceptTypes l' := by
  cases a with
  | download a =>
    simp only [Live.step] at hstep
    split at hstep
    · obtain ⟨d, hd, rfl⟩ := Option.map_eq_some_iff.mp hstep
      exact h.download ‹_› hd
    · cases hstep
  | stamp nowMs =>
    simp only [Live.step] at hstep
    split at hstep
    · rename_i entry hphase hentry
      cases hstep
      refine ⟨not_between nofun nofun, nofun, fun now left hp => ?_, nofun⟩
      cases hp
      obtain ⟨before, entry', hentry', hyielded, heq⟩ := h.received hphase
      cases hentry.symm.trans hentry'
      show (l.yielded ++ _).map _ = iterAudioChunksFromMessages codecs keys acceptTypes (l.download.yielded.map _)
      rw [List.map_append, heq, iterAudioChunks_withoutReceipt, hyielded, List.map_append, iterAudioChunks_append]
      rfl
    · cases hstep
  | yieldChunk =>
    simp only [Live.step] at hstep
    split at hstep
    · rename_i nowMs chunk left hphase
      cases hstep
      refine ⟨not_between nofun nofun, nofun, fun now left' hp => ?_, nofun⟩
      cases hp
      have := h.yielding nowMs (chunk :: left) hphase
      rw [← List.singleton_append, ← List.append_assoc, List.map_append, List.map_append, List.map_singleton] at this
      show (l.yielded ++ [_] ++ left).map _ = _
      rw [List.map_append, List.map_append, List.map_singleton]
      exact this
    · cases hstep
  | next =>
    simp only [Live.step] at hstep
    split at hstep
    · rename_i nowMs hphase
      obtain ⟨d, hd, rfl⟩ := Option.map_eq_some_iff.mp hstep
      have hyielded : d.yielded = l.download.yielded := (step_keeps hd).2 nofun
      refine ⟨fun _ => ?_, nofun, nofun, nofun⟩
      have := h.yielding nowMs [] hphase
      rw [List.append_nil] at this
      rw [this, Live.decoded, Live.decoded, hyielded]
    · cases hstep
  | abort =>
    simp only [Live.step] at hstep
    split at hstep
    · cases hstep
      exact ⟨not_between nofun nofun, nofun, nofun, fun _ => h.isPrefix⟩
    · cases hstep

theorem Follows.start : Follows codecs keys acceptTypes {} :=
  ⟨fun _ => rfl, nofun, nofun, nofun⟩

end

/-- The chunks of a live download are those decoded from the file that is written for the payloads of the same run, also
    when the generator has been closed in the middle of a payload, as far as it got. -/
theorem live_download_agrees (codecs : Codecs) (keys : Option AudioKeySet) (acceptTypes : List Int) (acts : List LiveAct)
    (l : Live) (hrun : Transition.run (Live.step codecs keys acceptTypes) {} acts = some l) (files files' : Files)
    (bleIdentifier : PyStr) (path : Path) (fault : Option IoFault) (n : Nat)
    (hwrite : writeBatchIngestRequest files { items := l.download.yielded.map (·.1) } bleIdentifier path fault =
      (files', .ok n)) :
    ∃ data messages, files' path = some data ∧ iterMessages data = (messages, none) ∧
      (l.phase = .iterating ∨ l.phase = .ended →
        l.yielded.map AudioChunk.withoutReceipt = iterAudioChunksFromMessages codecs keys acceptTypes messages) ∧
      l.yielded.map AudioChunk.withoutReceipt <+: iterAudioChunksFromMessages codecs keys acceptTypes messages := by
  have hfollows : Follows codecs keys acceptTypes l :=
    Transition.run_invariant (fun _ _ _ h hstep => Follows.step h hstep) hrun .start
  obtain ⟨data, hdata, hread⟩ := iterMessages_written hwrite
  exact ⟨data, _, hdata, hread, hfollows.between, hfollows.isPrefix⟩

/-- A flash page with one chunk of audio, on the wire. -/
def audioPage : Bytes := [0x1A, 0x05, 0x12, 0x03, 0x22, 0x01, 0xB8]

/-- The page in a `storage_buffer` message with ingest type 2 and index 7. -/
def audioPageMessage : Bytes := [0x12, 0x0D, 0x08, 0x02, 0x28, 0x07, 0x32, 0x07] ++ audioPage

/-- The parsers on a message with an audio page. -/
def sampleCodecs : Codecs where
  parsePendantAll payload :=
    if payload = audioPageMessage then
      some { content := some (.storageBuffer { ingestType := 2, index := 7, flashPage := audioPage }) }
    else none
  parseFlashPage page :=
    if page = audioPage then some { chunks := [{ audioData := some { codecBeamformingData := [0xB8] } }] } else none
  aesGcmDecrypt _ _ _ := .error .invalidTag

/-- A page arrives and is drained; bytes that are no message arrive too. -/
def sampleLive : List LiveAct :=
  [.download (.begin true), .download (.notify (encodeFragment 0 0 1 [0xFF])),
    .download (.notify (encodeFragment 1 0 1 audioPageMessage)), .download .take, .stamp 1700000000000, .yieldChunk, .next,
    .download (.ackDone true), .download .timeout, .download .stop]

theorem live_download_agrees_sample :
    ∃ l, Transition.run (Live.step sampleCodecs none [1, 2]) {} sampleLive = some l ∧
      l.yielded.map (fun c => (c.opus, c.pageIndex, c.receivedAtUnixMs)) = [([0xB8], 7, 1700000000000)] ∧
      ∃ files' n data messages, writeBatchIngestRequest (fun _ => none) { items := l.download.yielded.map (·.1) } [] "capture.bin"
          none = (files', .ok n) ∧ files' "capture.bin" = some data ∧ iterMessages data = (messages, none) ∧
        l.yielded.map AudioChunk.withoutReceipt = iterAudioChunksFromMessages sampleCodecs none [1, 2] messages := by
  have hrun : (Transition.run (Live.step sampleCodecs none [1, 2]) {} sampleLive).map (fun l => (l.phase,
      l.yielded.map fun c => (c.opus, c.pageIndex, c.receivedAtUnixMs))) =
        some (.ended, [([0xB8], 7, 1700000000000)]) := by decide +kernel
  obtain ⟨l, hl, hview⟩ := Option.map_eq_some_iff.mp hrun
  obtain ⟨hphase, hyielded⟩ := Prod.mk.inj hview
  have hid : PyStr.encode [] = .ok [] := rfl
  have hwrite := writeBatchIngestRequest_ok hid (fun _ => none) (l.download.yielded.map (·.1)) "capture.bin"
  obtain ⟨data, messages, hdata, hread, hagree, -⟩ := live_download_agrees sampleCodecs none [1, 2] sampleLive l hl
    (fun _ => none) _ [] "capture.bin" none _ hwrite
  exact ⟨l, hl, hyielded, _, _, data, messages, hwrite, hdata, hread, hagree (.inr hphase)⟩

end PendantClient
