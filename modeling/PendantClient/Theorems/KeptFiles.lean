import PendantClient.Theorems.Outputs

/-! The recordings' files when the manifest is written: which are deleted, which are listed, and what is in them. -/

namespace PendantClient

/-! ### Pruning -/

theorem foldl_unlink (ws : List RecordingWriter) (path : Path) : ∀ files : Files,
    ws.foldl (fun (files : Files) w => Function.update files w.path none) files path =
      if path ∈ ws.map RecordingWriter.path then none else files path := by
  induction ws with
  | nil =>
    intro files
    rfl
  | cons w ws ih =>
    intro files
    rw [List.foldl_cons, ih]
    by_cases hpath : path = w.path
    · subst hpath
      rw [Function.update_self, ite_self, if_pos (List.mem_map_of_mem List.mem_cons_self)]
    · rw [Function.update_of_ne hpath]
      simp only [List.map_cons, List.mem_cons, hpath, false_or]

section
variable {base : AudioBase} {r : Recorder AudioChunk} {o : Outputs} {v : Writer AudioChunk} {w : RecordingWriter} {index : Nat}

theorem prune_files (o : Outputs) (path : Path) : o.prune.files path =
    if ∃ w ∈ o.recordings, w.chunkCount = 0 ∧ w.path = path then none else o.files path := by
  rw [Outputs.prune]
  dsimp only
  rw [foldl_unlink]
  simp only [List.mem_map, List.mem_filter, decide_eq_true_eq, and_assoc]

/-- The recording at an index is the only one with that index or that path. -/
theorem Settled.unique (h : Settled base r o) (hw : o.recordings[index]? = some w) {u : RecordingWriter}
    (hu : u ∈ o.recordings) (hsame : u.recordingIndex = index ∨ u.path = base.recordingPath index) : u = w := by
  obtain ⟨i, x, -, hi, hclosed⟩ := h.recordings.exists_of_mem hu
  obtain rfl : i = index := by
    rcases hsame with hindex | hpath
    · exact hclosed.recordingIndex.symm.trans hindex
    · exact base.recordingPath_injective (hclosed.path.symm.trans hpath)
  exact Option.some.inj (hi.symm.trans hw)

theorem Settled.prune_file (h : Settled base r o) (hw : o.recordings[index]? = some w) (hpath : w.path = base.recordingPath index) :
    o.prune.files (base.recordingPath index) = if w.chunkCount = 0 then none else o.files (base.recordingPath index) := by
  rw [prune_files]
  by_cases hcount : w.chunkCount = 0
  · rw [if_pos hcount, if_pos ⟨w, List.mem_of_getElem? hw, hcount, hpath⟩]
  · rw [if_neg hcount, if_neg]
    rintro ⟨u, hu, hzero, hsame⟩
    rw [h.unique hw hu (.inr hsame)] at hzero
    exact hcount hzero

end

/-! ### Files and recordings -/

/-- The packets on the data pages of an Ogg Opus file. -/
def packetsOf (files : Files) (path : Path) : Option (List Bytes) := ((files path).bind OggPage.readFile).map dataPackets

/-- What becomes of a recording's file, by the packets that were in it when it was closed: without packets it is deleted
    and not listed, with packets it stays and is listed with their number. -/
structure FileAgrees (base : AudioBase) (atClose atManifest : Outputs) (index : Nat) : Prop where
  readable : ∃ packets, packetsOf atClose.files (base.recordingPath index) = some packets
  deleted : atManifest.files (base.recordingPath index) = none ↔
    packetsOf atClose.files (base.recordingPath index) = some []
  unlisted : atManifest.files (base.recordingPath index) = none → ∀ w ∈ atManifest.recordings, w.recordingIndex ≠ index
  listed : atManifest.files (base.recordingPath index) ≠ none →
    atManifest.files (base.recordingPath index) = atClose.files (base.recordingPath index) ∧
      ∃ w ∈ atManifest.recordings, w.recordingIndex = index ∧ w.path = base.recordingPath index ∧
        ∃ packets, packetsOf atManifest.files w.path = some packets ∧ w.chunkCount = packets.length

/-- The recording's file is closed, and read to its end its one EOS page is the last: it comes behind two headers and
    as many pages as the recording counts chunks. -/
def EndsStream (files : Files) (w : RecordingWriter) : Prop :=
  w.sink.closed = true ∧ ∃ pages, (files w.path).bind OggPage.readFile = some pages ∧
    pages.map OggPage.Page.eos = List.replicate (w.chunkCount + 2) false ++ [true]

section
variable {base : AudioBase} {r : Recorder AudioChunk} {o : Outputs} {v : Writer AudioChunk} {w : RecordingWriter} {index : Nat}

theorem ClosedAt.ogg (h : ClosedAt base index v w) (hogg : base.isOgg = true) : ∃ writer, w.sink = .ogg writer ∧
    writer.Ended (v.packets.map AudioChunk.opus) := by
  have hsink := h.sink
  rw [hogg] at hsink
  cases hw : w.sink with
  | ogg writer =>
    rw [hw] at hsink
    cases hsink with
    | ogg hended => exact ⟨writer, rfl, hended⟩
  | raw written closed =>
    rw [hw] at hsink
    cases hsink

theorem Settled.packetsOf (h : Settled base r o) (hogg : base.isOgg = true) (hw : o.recordings[index]? = some w)
    (hclosed : ClosedAt base index v w) :
    PendantClient.packetsOf o.files (base.recordingPath index) = some (v.packets.map AudioChunk.opus) := by
  obtain ⟨writer, hsink, hended⟩ := hclosed.ogg hogg
  obtain ⟨pages, hread, hdata, -⟩ := hended.pages
  have hfile := h.files w (List.mem_of_getElem? hw)
  rw [hsink] at hfile
  rw [PendantClient.packetsOf, ← hclosed.path, hfile, Option.bind_some]
  show (OggPage.readFile writer.written).map dataPackets = _
  rw [hread, Option.map_some, hdata]

theorem Settled.fileAgrees (h : Settled base r o) (hogg : base.isOgg = true) (hindex : index < r.writers.length) :
    FileAgrees base o o.prune index := by
  obtain ⟨v, w, -, hw, hclosed⟩ := h.at hindex
  have hpackets := h.packetsOf hogg hw hclosed
  have hfile := h.files w (List.mem_of_getElem? hw)
  have hprune := h.prune_file hw hclosed.path
  rw [hclosed.path] at hfile
  have hcount := hclosed.noted.chunkCount
  by_cases hzero : w.chunkCount = 0
  · have hnone : v.packets = [] := List.length_eq_zero_iff.mp (hcount.symm.trans hzero)
    rw [if_pos hzero] at hprune
    refine ⟨⟨_, hpackets⟩, ⟨fun _ => by rw [hpackets, hnone]; rfl, fun _ => hprune⟩, fun _ u hu hsame => ?_,
      fun hne => absurd hprune hne⟩
    obtain ⟨hu, hne⟩ := mem_prune_recordings.mp hu
    rw [h.unique hw hu (.inl hsame)] at hne
    exact hne hzero
  · rw [if_neg hzero] at hprune
    have hne : o.prune.files (base.recordingPath index) ≠ none := by rw [hprune, hfile]; exact nofun
    have hlisted : PendantClient.packetsOf o.prune.files w.path = some (v.packets.map AudioChunk.opus) := by
      rw [hclosed.path, PendantClient.packetsOf, hprune]
      exact hpackets
    refine ⟨⟨_, hpackets⟩, ⟨fun hnone => absurd hnone hne, fun hempty => ?_⟩, fun hnone => absurd hnone hne, fun _ => ?_⟩
    · rw [hpackets, Option.some_inj, List.map_eq_nil_iff] at hempty
      exact absurd (by rw [hcount, hempty]; rfl) hzero
    · exact ⟨hprune, w, mem_prune_recordings.mpr ⟨List.mem_of_getElem? hw, hzero⟩, hclosed.recordingIndex, hclosed.path, _,
        hlisted, by rw [hcount, List.length_map]⟩

theorem Settled.endsStream (h : Settled base r o) (hogg : base.isOgg = true) (hw : w ∈ o.prune.recordings) :
    (w.chunkCount + 2 < 2 ^ 32 → EndsStream o.prune.files w) ∧ (2 ^ 32 ≤ w.chunkCount + 2 → ¬EndsStream o.prune.files w) := by
  obtain ⟨hmem, hzero⟩ := mem_prune_recordings.mp hw
  obtain ⟨i, v, -, hi, hclosed⟩ := h.recordings.exists_of_mem hmem
  obtain ⟨writer, hsink, hended⟩ := hclosed.ogg hogg
  obtain ⟨pages, hread, -, heos⟩ := hended.pages
  have hcount : w.chunkCount = (v.packets.map AudioChunk.opus).length := by rw [List.length_map, hclosed.noted.chunkCount]
  have hne : v.packets.map AudioChunk.opus ≠ [] := by
    intro hnone
    rw [hnone] at hcount
    exact hzero hcount
  have hfile := h.files w hmem
  have hprune := h.prune_file hi hclosed.path
  rw [if_neg hzero, ← hclosed.path, hfile, hsink] at hprune
  rw [EndsStream, hcount, hsink, hprune]
  constructor
  · intro hlt
    obtain ⟨hclosed, heos⟩ := heos hne hlt
    exact ⟨hclosed, pages, hread, heos⟩
  · rintro hge ⟨hclosed, -⟩
    have hunclosed := hended.unclosed hne hge
    rw [show (Sink.ogg writer).closed = writer.closed from rfl, hunclosed] at hclosed
    cases hclosed

end

/-! ### Every run -/

/-- However a run with an Ogg base ends, when it comes to its manifest each file it has opened is deleted, if no packet
    was written to it, or listed with its packets, and then it is a finished stream unless its page numbers ran out. -/
theorem kept_files_agree {ε : Type} (base : AudioBase) (hogg : base.isOgg = true) (urandom : Nat → Fin 4 → UInt8)
    (files : Files) (chunks : List AudioChunk) (ending : Option ε) :
    let atClose := (Decoding.loop base urandom ending { outputs := { files } } chunks).1.closeWriters base urandom
    let d := (Decoding.atManifest base urandom files chunks ending).1
    (∀ index < d.splitter.nextIndex, FileAgrees base atClose.outputs d.outputs index) ∧
      ∀ w ∈ d.outputs.recordings, w.recordingIndex < d.splitter.nextIndex ∧
        (w.chunkCount + 2 < 2 ^ 32 → EndsStream d.outputs.files w) := by
  intro atClose d
  obtain ⟨r, hstopped, -⟩ := loop_stopped base urandom ending files chunks
  have hsettled : Settled base r atClose.outputs := hstopped.closeWriters urandom
  have hnext : d.splitter.nextIndex = r.writers.length := (closeWriters_nextIndex base urandom _).trans hstopped.nextIndex
  rw [hnext]
  refine ⟨fun index hindex => hsettled.fileAgrees hogg hindex, fun w hw => ⟨?_, (hsettled.endsStream hogg hw).1⟩⟩
  obtain ⟨i, v, hv, -, hclosed⟩ := hsettled.recordings.exists_of_mem (mem_prune_recordings.mp hw).1
  rw [hclosed.recordingIndex]
  exact (List.getElem?_eq_some_iff.mp hv).1

/-- `-o sync.opus`. -/
def oggBase : AudioBase := { stem := "sync", suffix := ".opus" }

/-- A chunk with a packet of one byte. -/
def audioChunk : AudioChunk := { chunk := { audio := some { opusPackets := [0xB8] } } }

/-- A stop marker without a packet. -/
def stopChunk : AudioChunk := { chunk := { audio := some { didStopRecording := true } } }

/-- A chunk whose audio has not been decrypted. -/
def encryptedChunk : AudioChunk := { chunk := { audio := some { encrypted := some {} } } }

/-- One recording with a packet and one with an encrypted chunk only; then the source raises. -/
theorem kept_files_agree_sample :
    let chunks := [audioChunk, stopChunk, encryptedChunk]
    let atClose := (Decoding.loop oggBase (fun _ _ => 7) (some ()) { outputs := { files := fun _ => none } } chunks).1.closeWriters
      oggBase fun _ _ => 7
    let d := (Decoding.atManifest oggBase (fun _ _ => 7) (fun _ => none) chunks (some ())).1
    FileAgrees oggBase atClose.outputs d.outputs 0 ∧ FileAgrees oggBase atClose.outputs d.outputs 1 ∧
      d.outputs.files "sync_rec0001.opus" = none ∧
      ∃ w, d.outputs.recordings = [w] ∧ w.recordingIndex = 0 ∧ w.chunkCount = 1 ∧ EndsStream d.outputs.files w := by
  intro chunks atClose d
  have hview : (d.splitter.nextIndex, d.outputs.recordings.map fun w => (w.recordingIndex, w.chunkCount),
      d.outputs.files "sync_rec0001.opus") = (2, [(0, 1)], none) := by decide +kernel
  obtain ⟨hnext, hrest⟩ := Prod.mk.inj hview
  obtain ⟨hrecordings, hdeleted⟩ := Prod.mk.inj hrest
  obtain ⟨hagree, hends⟩ := kept_files_agree oggBase (by decide +kernel) (fun _ _ => 7) (fun _ => none) chunks (some ())
  obtain ⟨w, hlist, hw⟩ := List.map_eq_singleton_iff.mp hrecordings
  obtain ⟨hindex, hcount⟩ := Prod.mk.inj hw
  refine ⟨hagree 0 (hnext ▸ by decide), hagree 1 (hnext ▸ by decide), hdeleted, w, hlist, hindex, hcount, ?_⟩
  exact (hends w (hlist ▸ List.mem_singleton.mpr rfl)).2 (by rw [hcount]; decide)

/-! ### A recording whose page numbers run out -/

theorem packets_replicate (k : Nat) :
    ({ added := List.replicate k audioChunk } : Writer AudioChunk).packets = List.replicate k audioChunk :=
  List.filter_replicate_of_pos (by decide)

/-- Chunks of one packet without markers go to one recording as long as it takes them. -/
theorem feedAll_replicate (n : Nat) : ∀ k, k + n + 2 ≤ 2 ^ 32 →
    let r : Recorder AudioChunk := { current := some { added := List.replicate k audioChunk } }
    r.untilRefused true (List.replicate n audioChunk) = List.replicate n audioChunk ∧
      r.feedAll (List.replicate n audioChunk) = { current := some { added := List.replicate (k + n) audioChunk } } := by
  induction n with
  | zero =>
    intro k hk
    exact ⟨rfl, rfl⟩
  | succ n ih =>
    intro k hk r
    have hrefuses : r.refuses true audioChunk = false := by
      rw [← Bool.not_eq_true, refuses_eq_true, Option.getD_some]
      rintro ⟨-, -, htakes⟩
      apply htakes
      rw [packets_replicate, List.length_replicate]
      exact ⟨by omega, by decide⟩
    have hfeed : r.feed audioChunk = { current := some { added := List.replicate (k + 1) audioChunk } } := by
      rw [List.replicate_succ']
      rfl
    obtain ⟨huntil, hall⟩ := ih (k + 1) (by omega)
    rw [List.replicate_succ, Recorder.untilRefused, hrefuses, if_neg (by simp), hfeed, huntil]
    refine ⟨rfl, ?_⟩
    show (r.feed audioChunk).feedAll _ = _
    rw [hfeed, hall, Nat.add_right_comm]
    rfl

theorem not_all_ended {count : Nat} (hcount : count + 2 = 2 ^ 32) :
    let d := (Decoding.atManifest oggBase (fun _ _ => 7) (fun _ => none) (List.replicate count audioChunk)
      (none : Option Unit)).1
    ¬∀ w ∈ d.outputs.recordings, EndsStream d.outputs.files w := by
  obtain ⟨n, rfl⟩ : ∃ n, count = n + 1 := ⟨count - 1, by omega⟩
  intro d
  have hogg : oggBase.isOgg = true := by decide +kernel
  have hstart : AtChunk oggBase {} { outputs := { files := fun _ => none } } := .start _
  obtain ⟨huntil, hall⟩ := feedAll_replicate n 1 (by omega)
  have hfeed : Recorder.feed {} audioChunk = { current := some { added := List.replicate 1 audioChunk } } := rfl
  have hfirst : Recorder.refuses true {} audioChunk = false := by decide
  have htaken : Recorder.untilRefused true {} (List.replicate (n + 1) audioChunk) = List.replicate (n + 1) audioChunk := by
    rw [List.replicate_succ, Recorder.untilRefused, hfirst, if_neg (by simp), hfeed, huntil]
  have hwriters : (Recorder.feedAll {} (List.replicate (n + 1) audioChunk)).writers =
      [{ added := List.replicate (n + 1) audioChunk }] := by
    show ((Recorder.feed {} audioChunk).feedAll (List.replicate n audioChunk)).writers = _
    rw [hfeed, hall, Nat.add_comm 1 n]
    rfl
  obtain ⟨o, hpruned, hsettled⟩ : ∃ o : Outputs, d.outputs = o.prune ∧
      Settled oggBase (Recorder.feedAll {} (List.replicate (n + 1) audioChunk)) o := by
    rcases hstart.loop (fun _ _ => 7) (none : Option Unit) (List.replicate (n + 1) audioChunk) with
      ⟨-, d', hloop, -, hd⟩ | ⟨huntil, -⟩
    · refine ⟨_, ?_, hd.stopped.closeWriters fun _ _ => 7⟩
      rw [show d' = _ from (Prod.mk.inj hloop).1.symm]
      rfl
    · rw [hogg] at huntil
      exact absurd htaken huntil
  obtain ⟨v, w, hv, hw, hclosed⟩ := hsettled.at (show 0 < _ by rw [hwriters]; exact Nat.one_pos)
  rw [hwriters] at hv
  cases hv
  have hchunks : w.chunkCount = n + 1 := by rw [hclosed.noted.chunkCount, packets_replicate, List.length_replicate]
  have hkept : w ∈ o.prune.recordings := mem_prune_recordings.mpr ⟨List.mem_of_getElem? hw, by omega⟩
  rw [hpruned]
  exact fun hall => (hsettled.endsStream hogg hkept).2 (by omega) (hall w hkept)

/-- A recording of 2^32 - 2 packets uses all page numbers: no EOS page can be written, and the file is not closed. -/
theorem full_recording_stays_open :
    let d := (Decoding.atManifest oggBase (fun _ _ => 7) (fun _ => none) (List.replicate (2 ^ 32 - 2) audioChunk)
      (none : Option Unit)).1
    ¬∀ w ∈ d.outputs.recordings, EndsStream d.outputs.files w :=
  not_all_ended (by decide)

end PendantClient
