import PendantClient.Theorems.KeptFiles

/-! What a run leaves on disk of the stream it was fed: the packets of its recordings one after the other, their events,
    and no other file than its own. -/

namespace PendantClient

/-! ### Other files -/

/-- Every recording has a file of its own name, and no other file has changed. -/
structure OwnFiles (base : AudioBase) (files : Files) (o : Outputs) : Prop where
  paths : ∀ w ∈ o.recordings, ∃ index, w.path = base.recordingPath index
  others : ∀ path, (∀ index, path ≠ base.recordingPath index) → o.files path = files path

section
variable {base : AudioBase} {urandom : Nat → Fin 4 → UInt8} {files : Files} {o : Outputs} {w : RecordingWriter} {d : Decoding}

theorem OwnFiles.start (base : AudioBase) (files : Files) : OwnFiles base files { files } :=
  ⟨fun _ hw => absurd hw List.not_mem_nil, fun _ _ => rfl⟩

theorem OwnFiles.store (h : OwnFiles base files o) (index : Nat) (hw : ∃ i, w.path = base.recordingPath i) :
    OwnFiles base files (o.store index w) where
  paths u hu := by
    rcases List.mem_or_eq_of_mem_set hu with hu | rfl
    · exact h.paths u hu
    · exact hw
  others path hpath := by
    obtain ⟨i, hi⟩ := hw
    show Function.update o.files w.path _ path = _
    rw [Function.update_of_ne (hi ▸ hpath i)]
    exact h.others path hpath

theorem OwnFiles.modify (h : OwnFiles base files o) (index : Nat) {f : RecordingWriter → RecordingWriter}
    (hf : ∀ w, (f w).path = w.path) : OwnFiles base files (o.modify index f) := by
  rw [Outputs.modify]
  split
  · rename_i w hw
    exact h.store index (hf w ▸ h.paths w (List.mem_of_getElem? hw))
  · exact h

theorem RecordingWriter.add_path (w : RecordingWriter) (chunk : AudioChunk) : (w.add chunk).1.path = w.path := by
  rw [RecordingWriter.add]
  split
  · rfl
  · split
    · rfl
    · exact (note_keeps _ chunk).2.1

variable (urandom) in
theorem OwnFiles.perform (h : OwnFiles base files o) (call : WriterCall AudioChunk) :
    OwnFiles base files (o.perform base urandom call).1 := by
  cases call with
  | openWriter index chunk =>
    obtain ⟨sink, hinit, -⟩ := RecordingWriter.init_eq_ok base index (urandom index)
    rw [Outputs.perform, hinit]
    refine ⟨fun w hw => ?_, fun path hpath => ?_⟩
    · rcases List.mem_append.mp hw with hw | hw
      · exact h.paths w hw
      · exact ⟨index, by rw [List.mem_singleton.mp hw]⟩
    · dsimp only
      rw [Function.update_of_ne (hpath index)]
      exact h.others path hpath
  | setOpenedWithStartMarker index => exact h.modify index fun _ => rfl
  | add index chunk =>
    rw [Outputs.perform]
    split
    · rename_i w hw
      refine h.store index ?_
      rw [w.add_path chunk]
      exact h.paths w (List.mem_of_getElem? hw)
    · exact h
  | setClosedWithStopMarker index => exact h.modify index fun _ => rfl
  | close index => exact h.modify index fun _ => rfl

variable (urandom) in
theorem OwnFiles.performAll (h : OwnFiles base files o) (calls : List (WriterCall AudioChunk)) :
    OwnFiles base files (o.performAll base urandom calls).1 := by
  induction calls generalizing o with
  | nil => exact h
  | cons call calls ih =>
    have hcall := h.perform urandom call
    rw [Outputs.performAll]
    split
    · rename_i heq
      rwa [heq] at hcall
    · rename_i heq
      rw [heq] at hcall
      exact ih hcall

variable (urandom) in
theorem OwnFiles.feed (h : OwnFiles base files d.outputs) (chunk : AudioChunk) :
    OwnFiles base files (d.feed base urandom chunk).1.outputs := by
  have hcalls := h.performAll urandom ((d.splitter.feed chunk none).1.calls.drop d.splitter.calls.length)
  rw [Decoding.feed]
  split <;>
  · rename_i heq
    rwa [heq] at hcalls

theorem log_outputs (d : Decoding) (chunk : AudioChunk) : (d.log chunk).outputs = d.outputs := by
  rw [Decoding.log]
  split <;> rfl

theorem count_outputs (d : Decoding) (chunk : AudioChunk) : (d.count chunk).outputs = d.outputs := by
  rw [Decoding.count]
  split <;> rfl

variable (urandom) in
theorem OwnFiles.loop {ε : Type} (ending : Option ε) (chunks : List AudioChunk) : ∀ {d : Decoding},
    OwnFiles base files d.outputs → OwnFiles base files (d.loop base urandom ending chunks).1.outputs := by
  induction chunks with
  | nil => exact fun h => h
  | cons chunk chunks ih =>
    intro d h
    rw [← log_outputs d chunk] at h
    have hfed := h.feed urandom chunk
    rw [Decoding.loop]
    split
    · rename_i heq
      rwa [heq] at hfed
    · rename_i d' heq
      rw [heq, ← count_outputs d' chunk] at hfed
      exact ih hfed

/-- A file written or deleted for each recording leaves the other files alone. -/
theorem OwnFiles.foldl_update (content : RecordingWriter → Option Bytes) {ws : List RecordingWriter} {path : Path}
    (hws : ∀ w ∈ ws, w.path ≠ path) (files : Files) :
    ws.foldl (fun (files : Files) w => Function.update files w.path (content w)) files path = files path := by
  induction ws generalizing files with
  | nil => rfl
  | cons w ws ih =>
    rw [List.foldl_cons, ih fun u hu => hws u (List.mem_cons_of_mem w hu),
      Function.update_of_ne (hws w List.mem_cons_self).symm]

theorem OwnFiles.path_ne (h : OwnFiles base files o) {path : Path} (hpath : ∀ index, path ≠ base.recordingPath index) :
    ∀ w ∈ o.recordings, w.path ≠ path := by
  intro w hw hsame
  obtain ⟨i, hi⟩ := h.paths w hw
  exact hpath i (hsame.symm.trans hi)

theorem OwnFiles.closeAll (h : OwnFiles base files o) : OwnFiles base files o.closeAll where
  paths u hu := by
    obtain ⟨w, hw, rfl⟩ := List.mem_map.mp hu
    exact h.paths w hw
  others path hpath := by
    rw [Outputs.closeAll]
    dsimp only
    rw [foldl_update (fun w => some w.close.sink.written) (h.path_ne hpath)]
    exact h.others path hpath

theorem OwnFiles.prune (h : OwnFiles base files o) : OwnFiles base files o.prune where
  paths w hw := h.paths w (mem_prune_recordings.mp hw).1
  others path hpath := by
    rw [Outputs.prune]
    dsimp only
    rw [foldl_update (fun _ => none) fun w hw => h.path_ne hpath w (List.mem_of_mem_filter hw)]
    exact h.others path hpath

end

/-- Up to its manifest a run only writes and deletes the files of its recordings. -/
theorem atManifest_ownFiles {ε : Type} (base : AudioBase) (urandom : Nat → Fin 4 → UInt8) (files : Files)
    (chunks : List AudioChunk) (ending : Option ε) :
    OwnFiles base files (Decoding.atManifest base urandom files chunks ending).1.outputs := by
  have hloop : OwnFiles base files (Decoding.loop base urandom ending { outputs := { files } } chunks).1.outputs :=
    OwnFiles.loop urandom ending chunks (.start base files)
  exact (hloop.performAll urandom _).closeAll.prune

/-! ### The packets on disk -/

/-- The packets in the files of the listed recordings, in the order of the recordings. -/
def Outputs.audio (o : Outputs) : Option (List Bytes) :=
  (o.recordings.mapM fun w => packetsOf o.files w.path).map List.flatten

/-- The packets of a stream. -/
def streamPackets (chunks : List AudioChunk) : List Bytes := (chunks.filter AudioChunk.hasPacket).map AudioChunk.opus

/-- Each start marker that carries a packet arrives while a pre-roll writer is open. -/
def StartsInPreRoll (chunks : List AudioChunk) : Prop :=
  ∀ before c after, chunks = before ++ c :: after → isRecordingStart c = true → c.hasPacket = true →
    (Splitter.feedAll {} before).InPreRoll

theorem mapM_eq_some_map {α β : Type} {f : α → Option β} {g : α → β} {xs : List α} (h : ∀ x ∈ xs, f x = some (g x)) :
    xs.mapM f = some (xs.map g) := by
  induction xs with
  | nil => rfl
  | cons x xs ih =>
    rw [List.mapM_cons, h x List.mem_cons_self, ih fun y hy => h y (List.mem_cons_of_mem x hy)]
    rfl

theorem flatten_filter_map {α β : Type} {p : α → Bool} {f : α → List β} {xs : List α} (h : ∀ x ∈ xs, p x = false → f x = []) :
    ((xs.filter p).map f).flatten = (xs.map f).flatten := by
  induction xs with
  | nil => rfl
  | cons x xs ih =>
    have hrest := ih fun y hy => h y (List.mem_cons_of_mem x hy)
    rw [List.filter_cons]
    split
    · rw [List.map_cons, List.flatten_cons, hrest, List.map_cons, List.flatten_cons]
    · rename_i hp
      rw [hrest, List.map_cons, List.flatten_cons, h x List.mem_cons_self (by simpa using hp), List.nil_append]

section
variable {base : AudioBase} {r : Recorder AudioChunk} {o : Outputs}

/-- What the file of a closed recording is read back as. -/
def RecordingWriter.content (w : RecordingWriter) : List Bytes := ((OggPage.readFile w.sink.written).map dataPackets).getD []

theorem ClosedAt.content {v : Writer AudioChunk} {w : RecordingWriter} {index : Nat} (h : ClosedAt base index v w)
    (hogg : base.isOgg = true) : (OggPage.readFile w.sink.written).map dataPackets = some w.content ∧
      w.content = streamPackets v.added := by
  obtain ⟨writer, hsink, hended⟩ := h.ogg hogg
  obtain ⟨pages, hread, hdata, -⟩ := hended.pages
  have hfile : (OggPage.readFile w.sink.written).map dataPackets = some (v.packets.map AudioChunk.opus) := by
    rw [hsink]
    show (OggPage.readFile writer.written).map dataPackets = _
    rw [hread, Option.map_some, hdata]
  rw [RecordingWriter.content, hfile]
  exact ⟨rfl, rfl⟩

theorem streamPackets_flatten (vs : List (List AudioChunk)) : streamPackets vs.flatten = (vs.map streamPackets).flatten := by
  rw [streamPackets, List.filter_flatten, List.map_flatten, List.map_map]
  rfl

/-- The files hold what was added to the writers. -/
theorem Settled.audio (h : Settled base r o) (hogg : base.isOgg = true) : o.prune.audio = some (streamPackets r.added) := by
  have hlisted : ∀ w ∈ o.prune.recordings, PendantClient.packetsOf o.prune.files w.path = some w.content := by
    intro w hw
    obtain ⟨hmem, hcount⟩ := mem_prune_recordings.mp hw
    obtain ⟨i, v, -, hi, hclosed⟩ := h.recordings.exists_of_mem hmem
    have hprune := h.prune_file hi hclosed.path
    rw [if_neg hcount, ← hclosed.path, h.files w hmem] at hprune
    rw [PendantClient.packetsOf, hprune, Option.bind_some]
    exact (hclosed.content hogg).1
  have hempty : ∀ w ∈ o.recordings, decide (w.chunkCount ≠ 0) = false → w.content = [] := by
    intro w hw hcount
    obtain ⟨i, v, -, -, hclosed⟩ := h.recordings.exists_of_mem hw
    have hzero : v.packets.length = 0 := by simpa [hclosed.noted.chunkCount] using hcount
    rw [(hclosed.content hogg).2]
    exact List.map_eq_nil_iff.mpr (List.length_eq_zero_iff.mp hzero)
  have hcontents : r.writers.map (fun v => streamPackets v.added) = o.recordings.map RecordingWriter.content :=
    h.recordings.map_eq fun _ _ _ hclosed => (hclosed.content hogg).2.symm
  rw [Outputs.audio, mapM_eq_some_map hlisted, Option.map_some]
  show some ((o.recordings.filter _).map RecordingWriter.content).flatten = _
  rw [flatten_filter_map hempty, ← hcontents, Recorder.added, List.flatMap_def, streamPackets_flatten, List.map_map]
  rfl

end

/-! ### The packets that are kept -/

section
variable {r : Recorder AudioChunk} {c : AudioChunk} {chunks rest : List AudioChunk}

theorem hasAudio_of_hasPacket (h : c.hasPacket = true) : hasAudio c = true := by
  cases haudio : c.chunk.audio with
  | none => simp [AudioChunk.hasPacket, AudioChunk.opus, haudio] at h
  | some audio =>
    have hopus : audio.opusPackets ≠ [] := by simpa [AudioChunk.hasPacket, AudioChunk.opus, haudio] using h
    simp [hasAudio, Chunk.hasAudio, AudioPayload.hasAudio, haudio, hopus]

theorem kept_append (before : List AudioChunk) : ∀ {r : Recorder AudioChunk},
    r.kept (before ++ rest) = r.kept before ++ (r.feedAll before).kept rest := by
  induction before with
  | nil => exact fun {_} => rfl
  | cons c before ih =>
    intro r
    rw [List.cons_append, Recorder.kept, Recorder.kept, ih, List.append_assoc]
    rfl

theorem streamPackets_append (chunks rest : List AudioChunk) :
    streamPackets (chunks ++ rest) = streamPackets chunks ++ streamPackets rest := by
  rw [streamPackets, List.filter_append, List.map_append]
  rfl

theorem streamPackets_kept_sublist (r : Recorder AudioChunk) (chunks : List AudioChunk) :
    (streamPackets (r.kept chunks)).Sublist (streamPackets chunks) :=
  (((Recorder.kept_sublist chunks r).trans List.filter_sublist).filter _).map _

/-- A recorder drops no packet of the chunks. -/
def Recorder.DropsNone (r : Recorder AudioChunk) (chunks : List AudioChunk) : Prop :=
  ∀ before c after, chunks = before ++ c :: after → isRecordingStart c = true → c.hasPacket = true →
    (r.feedAll before).preRoll = true

theorem dropsNone_cons : r.DropsNone (c :: rest) ↔ (isRecordingStart c = true → c.hasPacket = true → r.preRoll = true) ∧
    (r.feed c).DropsNone rest := forall_split_cons

/-- A stream's packets are all kept exactly when none of them comes with a start marker outside the pre-roll. -/
theorem streamPackets_kept_iff (chunks : List AudioChunk) : ∀ r : Recorder AudioChunk,
    streamPackets (r.kept chunks) = streamPackets chunks ↔ r.DropsNone chunks := by
  induction chunks with
  | nil => exact fun r => ⟨fun _ before _ _ heq => absurd heq (by simp), fun _ => rfl⟩
  | cons c rest ih =>
    intro r
    have hle := (streamPackets_kept_sublist (r.feed c) rest).length_le
    rw [dropsNone_cons, ← ih, Recorder.kept, streamPackets_append, show c :: rest = [c] ++ rest from rfl, streamPackets_append]
    cases hp : c.hasPacket with
    | false =>
      have hnone : streamPackets [c] = [] := by simp [streamPackets, hp]
      have hkept : streamPackets (if r.keeps c = true then [c] else []) = [] := by
        split
        · exact hnone
        · rfl
      rw [hnone, hkept]
      simp
    | true =>
      have hone : streamPackets [c] = [c.opus] := by simp [streamPackets, hp]
      have hkeeps : r.keeps c = (!isRecordingStart c || r.preRoll) := by
        rw [Recorder.keeps, hasAudio_of_hasPacket hp, Bool.true_and]
      rw [hkeeps, hone]
      cases hs : isRecordingStart c with
      | false => simp [hone]
      | true =>
        cases r.preRoll with
        | true => simp [hone]
        | false =>
          refine iff_of_false (fun heq => ?_) (fun hno => absurd (hno.1 rfl rfl) Bool.false_ne_true)
          have hlength := congrArg List.length heq
          rw [List.length_append, List.length_append, List.length_singleton] at hlength
          change 0 + _ = _ at hlength
          omega

theorem dropsNone_iff : Recorder.DropsNone {} chunks ↔ StartsInPreRoll chunks := by
  simp only [StartsInPreRoll, (represents_start.feedAll _).inPreRoll]
  rfl

theorem untilRefused_prefix (isOgg : Bool) (chunks : List AudioChunk) : ∀ {r : Recorder AudioChunk},
    ∃ rest, chunks = r.untilRefused isOgg chunks ++ rest := by
  induction chunks with
  | nil => exact fun {_} => ⟨[], rfl⟩
  | cons c chunks ih =>
    intro r
    rw [Recorder.untilRefused]
    split
    · exact ⟨_, rfl⟩
    · obtain ⟨rest, hrest⟩ := ih (r := r.feed c)
      exact ⟨rest, congrArg (c :: ·) hrest⟩

end

/-! ### Packets that are refused -/

section
variable {r : Recorder AudioChunk} {c : AudioChunk}

theorem length_current_le (r : Recorder AudioChunk) : (r.current.getD {}).packets.length ≤ r.added.length := by
  cases hv : r.current with
  | none => exact Nat.zero_le _
  | some v =>
    have hle : v.packets.length ≤ v.added.length := List.length_filter_le _ _
    rw [Recorder.added, Recorder.writers, hv, Option.toList_some, List.flatMap_append, List.flatMap_singleton,
      List.length_append, Option.getD_some]
    omega

theorem length_added_feed (r : Recorder AudioChunk) (c : AudioChunk) : (r.feed c).added.length ≤ r.added.length + 1 := by
  rw [Recorder.added_feed, List.length_append]
  split <;> simp

/-- Packets of a size that fits a page are refused only once the page numbers are used up. -/
theorem untilRefused_eq (chunks : List AudioChunk) : ∀ {r : Recorder AudioChunk}, (∀ c ∈ chunks, c.opus.length < 255 * 255) →
    r.added.length + chunks.length + 2 ≤ 2 ^ 32 → r.untilRefused true chunks = chunks := by
  induction chunks with
  | nil => exact fun _ _ => rfl
  | cons c chunks ih =>
    intro r hsize hcount
    rw [List.length_cons] at hcount
    have htakes : r.refuses true c = false := by
      rw [← Bool.not_eq_true, refuses_eq_true]
      rintro ⟨-, -, hnot⟩
      have hle := length_current_le r
      exact hnot ⟨by omega, hsize c List.mem_cons_self⟩
    have hadded := length_added_feed r c
    rw [Recorder.untilRefused, if_neg (by simp [htakes]), ih (fun b hb => hsize b (List.mem_cons_of_mem c hb)) (by omega)]

end

/-! ### Every run -/

section
variable (base : AudioBase) (urandom : Nat → Fin 4 → UInt8)

/-- However the loop ends, the writers were given the packets that are kept of the chunks before the first refused one. -/
theorem loop_added {ε : Type} (ending : Option ε) (files : Files) (chunks : List AudioChunk) :
    let run := Decoding.loop base urandom ending { outputs := { files } } chunks
    ∃ r : Recorder AudioChunk, Stopped base r run.1 ∧
      streamPackets r.added = streamPackets (Recorder.kept {} (Recorder.untilRefused base.isOgg {} chunks)) ∧
      (run.2 = ending.map .source ∧ Recorder.untilRefused base.isOgg {} chunks = chunks ∨
        ∃ e, run.2 = some (.own e) ∧ Recorder.untilRefused base.isOgg {} chunks ≠ chunks) := by
  intro run
  have hstart : AtChunk base {} { outputs := { files } } := .start files
  have hkept (fed : List AudioChunk) : (Recorder.feedAll {} fed).added = Recorder.kept {} fed :=
    (Recorder.added_feedAll fed {}).trans (List.nil_append _)
  rcases hstart.loop urandom ending chunks with ⟨huntil, d, hloop, -, hd⟩ | ⟨huntil, d, e, v, hloop, hpackets, hd⟩
  · have hrun : run = (d, ending.map .source) := hloop
    rw [hrun, huntil]
    exact ⟨_, hd.stopped, by rw [hkept], .inl ⟨rfl, rfl⟩⟩
  · have hrun : run = (d, some (.own e)) := hloop
    rw [hrun]
    refine ⟨_, hd, ?_, .inr ⟨e, rfl, huntil⟩⟩
    rw [← hkept]
    generalize Recorder.feedAll {} (Recorder.untilRefused base.isOgg {} chunks) = r at hpackets
    have hv : streamPackets v.added = streamPackets (r.current.getD {}).added := congrArg (List.map AudioChunk.opus) hpackets
    rw [Recorder.added, Recorder.added, Recorder.writers, Recorder.writers, List.flatMap_append, List.flatMap_append,
      streamPackets_append, streamPackets_append, Option.toList_some, List.flatMap_singleton, hv]
    cases r.current with
    | none => rfl
    | some u => rw [Option.toList_some, List.flatMap_singleton, Option.getD_some]

end

/-- However a run with an Ogg base ends, the files of its recordings hold packets of the stream, in its order and each
    once. None before the last of them is missing unless it came with a start marker outside the pre-roll, and if no packet
    is refused none is missing behind it. -/
theorem recordings_hold_stream {ε : Type} (base : AudioBase) (hogg : base.isOgg = true) (urandom : Nat → Fin 4 → UInt8)
    (files : Files) (chunks : List AudioChunk) (ending : Option ε) :
    let run := Decoding.atManifest base urandom files chunks ending
    ∃ packets, run.1.outputs.audio = some packets ∧ packets.Sublist (streamPackets chunks) ∧
      (StartsInPreRoll chunks → packets <+: streamPackets chunks) ∧
      (run.2 = ending.map .source → (packets = streamPackets chunks ↔ StartsInPreRoll chunks)) := by
  intro run
  obtain ⟨r, hstopped, hadded, hended⟩ := loop_added base urandom ending files chunks
  have haudio := (hstopped.closeWriters urandom).audio hogg
  obtain ⟨rest, hrest⟩ := untilRefused_prefix base.isOgg chunks (r := {})
  refine ⟨_, haudio, ?_, ?_, ?_⟩
  · rw [hadded]
    refine (streamPackets_kept_sublist _ _).trans ?_
    conv_rhs => rw [hrest, streamPackets_append]
    exact List.sublist_append_left _ _
  · intro hstarts
    have hall := (streamPackets_kept_iff chunks {}).mpr (dropsNone_iff.mpr hstarts)
    rw [hadded, ← hall]
    conv_rhs => rw [hrest, kept_append, streamPackets_append]
    exact List.prefix_append _ _
  · intro hnone
    have huntil : Recorder.untilRefused base.isOgg {} chunks = chunks := by
      rcases hended with ⟨-, huntil⟩ | ⟨e, he, -⟩
      · exact huntil
      · have : some (Raised.own e) = ending.map .source := he.symm.trans hnone
        cases ending <;> cases this
    rw [hadded, huntil, ← dropsNone_iff]
    exact streamPackets_kept_iff chunks {}

theorem startsInPreRoll_of_markers {chunks : List AudioChunk} (h : ∀ c ∈ chunks, isRecordingStart c = true → c.hasPacket = false) :
    StartsInPreRoll chunks := by
  intro before c after heq hs hp
  rw [h c (heq ▸ List.mem_append_right _ List.mem_cons_self) hs] at hp
  cases hp

/-- A start marker without a packet. -/
def markerChunk : AudioChunk := { chunk := { audio := some { didStartRecording := true } } }

/-- Pre-roll audio, a start marker, the body, a stop marker, and the audio of a second recording. -/
theorem recordings_hold_stream_sample :
    (Decoding.atManifest oggBase (fun _ _ => 7) (fun _ => none) [audioChunk, markerChunk, audioChunk, stopChunk, audioChunk]
      (none : Option Unit)).1.outputs.audio = some [[0xB8], [0xB8], [0xB8]] := by
  obtain ⟨packets, haudio, -, -, hall⟩ := recordings_hold_stream oggBase (by decide +kernel) (fun _ _ => 7) (fun _ => none)
    [audioChunk, markerChunk, audioChunk, stopChunk, audioChunk] (none : Option Unit)
  have hended : (Decoding.atManifest oggBase (fun _ _ => 7) (fun _ => none)
      [audioChunk, markerChunk, audioChunk, stopChunk, audioChunk] (none : Option Unit)).2.isNone := by decide +kernel
  rw [haudio, (hall (Option.isNone_iff_eq_none.mp hended)).mpr (startsInPreRoll_of_markers (by decide))]
  rfl

/-- Packets that fit a page are not refused, as long as there are page numbers for all of them. -/
theorem atManifest_ended {ε : Type} (base : AudioBase) (hogg : base.isOgg = true) (urandom : Nat → Fin 4 → UInt8)
    (files : Files) {chunks : List AudioChunk} (ending : Option ε) (hsize : ∀ c ∈ chunks, c.opus.length < 255 * 255)
    (hcount : chunks.length + 2 ≤ 2 ^ 32) :
    (Decoding.atManifest base urandom files chunks ending).2 = ending.map .source := by
  obtain ⟨-, -, -, ⟨hended, -⟩ | ⟨-, -, hne⟩⟩ := loop_added base urandom ending files chunks
  · exact hended
  · rw [hogg] at hne
    exact absurd (untilRefused_eq chunks hsize (by simpa [Recorder.added, Recorder.writers] using hcount)) hne

/-! ### The events -/

section
variable {base : AudioBase} {urandom : Nat → Fin 4 → UInt8}

/-- The events of the chunks are logged behind those that are there, and counted. -/
structure Logs (d d' : Decoding) (chunks : List AudioChunk) : Prop where
  events : d'.events = d.events ++ chunks.filterMap eventFor
  nEvents : d'.nEvents = d.nEvents + (chunks.filterMap eventFor).length

theorem logs_log (d : Decoding) (c : AudioChunk) : Logs d (d.log c) [c] := by
  rw [Decoding.log]
  split
  · rename_i ev hev
    exact ⟨by rw [List.filterMap_cons_some hev]; rfl, by rw [List.filterMap_cons_some hev]; rfl⟩
  · rename_i hev
    exact ⟨by rw [List.filterMap_cons_none hev]; exact (List.append_nil _).symm, by rw [List.filterMap_cons_none hev]; rfl⟩

theorem Logs.trans {d₁ d₂ d₃ : Decoding} {cs cs' : List AudioChunk} (h : Logs d₁ d₂ cs) (h' : Logs d₂ d₃ cs') :
    Logs d₁ d₃ (cs ++ cs') where
  events := by rw [h'.events, h.events, List.append_assoc, List.filterMap_append]
  nEvents := by rw [h'.nEvents, h.nEvents, List.filterMap_append, List.length_append, Nat.add_assoc]

variable (base urandom) in
theorem feed_keeps_log (d : Decoding) (c : AudioChunk) : (d.feed base urandom c).1.events = d.events ∧
    (d.feed base urandom c).1.nEvents = d.nEvents ∧ (d.feed base urandom c).1.nAudio = d.nAudio := by
  rw [Decoding.feed]
  split <;> exact ⟨rfl, rfl, rfl⟩

theorem count_keeps_log (d : Decoding) (c : AudioChunk) : (d.count c).events = d.events ∧ (d.count c).nEvents = d.nEvents ∧
    (d.count c).nAudio = d.nAudio + ([c].filter hasAudio).length := by
  rw [Decoding.count]
  split
  · rename_i ha
    rw [List.filter_cons_of_pos ha]
    exact ⟨rfl, rfl, rfl⟩
  · rename_i ha
    rw [List.filter_cons_of_neg ha]
    exact ⟨rfl, rfl, rfl⟩

theorem log_nAudio (d : Decoding) (c : AudioChunk) : (d.log c).nAudio = d.nAudio := by
  rw [Decoding.log]
  split <;> rfl

variable (base urandom) in
/-- How the loop ends: with the stream, or at a chunk whose event is logged but whose audio is not counted. -/
theorem loop_logs {ε : Type} (ending : Option ε) (chunks : List AudioChunk) : ∀ d : Decoding,
    let run := d.loop base urandom ending chunks
    (Logs d run.1 chunks ∧ run.1.nAudio = d.nAudio + (chunks.filter hasAudio).length ∧ run.2 = ending.map .source) ∨
      ∃ before refused rest e, chunks = before ++ refused :: rest ∧ Logs d run.1 (before ++ [refused]) ∧
        run.1.nAudio = d.nAudio + (before.filter hasAudio).length ∧ run.2 = some (.own e) := by
  induction chunks with
  | nil => exact fun d => .inl ⟨⟨(List.append_nil _).symm, rfl⟩, rfl, rfl⟩
  | cons c chunks ih =>
    intro d run
    obtain ⟨hevents, hnEvents, hnAudio⟩ := feed_keeps_log base urandom (d.log c) c
    have hlog := logs_log d c
    have hrun : run = d.loop base urandom ending (c :: chunks) := rfl
    rw [Decoding.loop] at hrun
    split at hrun
    · rename_i d' e heq
      rw [heq] at hevents hnEvents hnAudio
      rw [hrun]
      exact .inr ⟨[], c, chunks, e, rfl, ⟨hevents.trans hlog.events, hnEvents.trans hlog.nEvents⟩,
        hnAudio.trans (log_nAudio d c), rfl⟩
    · rename_i d' heq
      rw [heq] at hevents hnEvents hnAudio
      obtain ⟨hevents', hnEvents', hcount⟩ := count_keeps_log d' c
      have hlogs : Logs d (d'.count c) [c] :=
        ⟨(hevents'.trans hevents).trans hlog.events, (hnEvents'.trans hnEvents).trans hlog.nEvents⟩
      have hcounted : (d'.count c).nAudio = d.nAudio + ([c].filter hasAudio).length := by
        rw [hcount, show d'.nAudio = _ from hnAudio, log_nAudio]
      rw [hrun]
      rcases ih (d'.count c) with ⟨hmore, haudio, hended⟩ | ⟨before, refused, rest, e, rfl, hmore, haudio, hended⟩
      · refine .inl ⟨hlogs.trans hmore, ?_, hended⟩
        rw [haudio, hcounted, Nat.add_assoc, ← List.length_append, ← List.filter_append]
        rfl
      · refine .inr ⟨c :: before, refused, rest, e, rfl, hlogs.trans hmore, ?_, hended⟩
        rw [haudio, hcounted, Nat.add_assoc, ← List.length_append, ← List.filter_append]
        rfl

end

/-- However a run ends, its events are those of the chunks it was fed, in their order: of the whole stream, or of the chunks up
    to the one whose packet was refused. Of that one alone the event is counted and the audio is not. -/
theorem events_of_fed {ε : Type} (base : AudioBase) (urandom : Nat → Fin 4 → UInt8) (files : Files) (chunks : List AudioChunk)
    (ending : Option ε) :
    let run := Decoding.atManifest base urandom files chunks ending
    run.1.nEvents = run.1.events.length ∧
      ((run.1.events = chunks.filterMap eventFor ∧ run.1.nAudio = (chunks.filter hasAudio).length ∧
          run.2 = ending.map .source) ∨
        ∃ before refused rest e, chunks = before ++ refused :: rest ∧
          run.1.events = (before ++ [refused]).filterMap eventFor ∧ run.1.nAudio = (before.filter hasAudio).length ∧
          run.2 = some (.own e)) := by
  intro run
  rcases loop_logs base urandom ending chunks { outputs := { files } } with
    ⟨hlogs, haudio, hended⟩ | ⟨before, refused, rest, e, hchunks, hlogs, haudio, hended⟩
  · have hevents : run.1.events = chunks.filterMap eventFor := hlogs.events.trans (List.nil_append _)
    exact ⟨(hlogs.nEvents.trans (Nat.zero_add _)).trans (by rw [hevents]), .inl ⟨hevents, haudio.trans (Nat.zero_add _), hended⟩⟩
  · have hevents : run.1.events = (before ++ [refused]).filterMap eventFor := hlogs.events.trans (List.nil_append _)
    exact ⟨(hlogs.nEvents.trans (Nat.zero_add _)).trans (by rw [hevents]),
      .inr ⟨before, refused, rest, e, hchunks, hevents, haudio.trans (Nat.zero_add _), hended⟩⟩

end PendantClient
