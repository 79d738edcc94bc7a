import PendantClient.Commands
import PendantClient.Theorems.KeptFiles
import PendantClient.Theorems.Sidecars

/-! Two runs of the decoder over chunks that it does not tell apart. Each draws its own serial numbers and finds its own files;
    they differ in nothing else that they leave behind. -/

namespace PendantClient

namespace OggOpusWriter

/-! ### Serial numbers -/

/-- What `_write_page` checks, the serial number apart. -/
def pageCheck (closed : Bool) (pageSeq length granule : Nat) : Except PyError Unit := do
  let _ ← packQ granule
  let _ ← packI pageSeq
  let _ ← packB (segs length).length
  if closed then .error (.valueError "write to closed file") else .ok ()

/-- Two writers that have written the same pages, each under its own serial number. -/
structure Twins (w w' : OggOpusWriter) : Prop where
  closed : w'.closed = w.closed
  granule : w'.granule = w.granule
  pages : ∃ entries, Written { w with closed := false } entries ∧ Written { w' with closed := false } entries

variable {w w' : OggOpusWriter} {packet : Bytes} {isFirst isLast : Bool} {granule : Nat}

variable (packet isFirst isLast granule) in
theorem writePage_eq_check (hserial : w.serial < 2 ^ 32) : w.writePage packet isFirst isLast granule =
    (pageCheck w.closed w.pageSeq packet.length granule).map fun _ => w.wrote ⟨headerType isFirst isLast, granule, packet⟩ := by
  have packedHeader : packB ((if isFirst then 0x02 else 0) ||| (if isLast then 0x04 else 0)) =
      .ok (LittleEndian.bytes 1 (headerType isFirst isLast)) := packB_eq_ok.mpr ⟨headerType_lt isFirst isLast, rfl⟩
  have packedSerial := packI_eq_ok.mpr ⟨hserial, rfl⟩
  have packedZero : packI 0 = .ok (LittleEndian.bytes 4 0) := rfl
  cases hwritten : w.writePage packet isFirst isLast granule with
  | ok w' =>
    obtain ⟨hclosed, hgranule, -, hseq, hcount, rfl⟩ := writePage_eq_ok.mp hwritten
    rw [pageCheck, packQ_eq_ok.mpr ⟨hgranule, rfl⟩, packI_eq_ok.mpr ⟨hseq, rfl⟩,
      packB_eq_ok.mpr ⟨(length_segs packet.length).symm ▸ hcount, rfl⟩, hclosed]
    rfl
  | error e =>
    unfold writePage at hwritten
    dsimp only at hwritten
    rw [packedHeader, ok_bind, packedSerial, packedZero] at hwritten
    rw [pageCheck]
    cases hgranule : packQ granule with
    | error e' =>
      rw [hgranule] at hwritten
      cases hwritten
      rfl
    | ok _ =>
      cases hseq : packI w.pageSeq with
      | error e' =>
        rw [hgranule, hseq] at hwritten
        cases hwritten
        rfl
      | ok _ =>
        cases hcount : packB (segs packet.length).length with
        | error e' =>
          rw [hgranule, hseq, hcount] at hwritten
          cases hwritten
          rfl
        | ok _ =>
          rw [hgranule, hseq, hcount] at hwritten
          simp only [ok_bind] at hwritten
          rw [packI_eq_ok.mpr ⟨crc32Ogg_lt _, rfl⟩, ok_bind, write] at hwritten
          cases hclosed : w.closed with
          | true =>
            rw [hclosed] at hwritten
            cases hwritten
            rfl
          | false =>
            rw [hclosed] at hwritten
            cases hwritten

/-- The pages do not depend on the state of the file or on the granule position. -/
theorem Written.moved {entries : List Entry} (h : w.Written entries) (granule : Nat) :
    Written { w with closed := false, granule } entries :=
  ⟨rfl, h.serial, h.pageSeq, h.written, h.fits, h.whole⟩

theorem Twins.numbers (h : w.Twins w') : w.serial < 2 ^ 32 ∧ w'.serial < 2 ^ 32 ∧ w'.pageSeq = w.pageSeq := by
  obtain ⟨entries, hw, hw'⟩ := h.pages
  exact ⟨hw.serial, hw'.serial, hw'.pageSeq.trans hw.pageSeq.symm⟩

theorem Twins.writePage (h : w.Twins w') (packet : Bytes) (isFirst isLast : Bool) (granule : Nat) :
    (∃ w₁ w₁', w.writePage packet isFirst isLast granule = .ok w₁ ∧ w'.writePage packet isFirst isLast granule = .ok w₁' ∧
      w₁.Twins w₁') ∨
    ∃ e, w.writePage packet isFirst isLast granule = .error e ∧ w'.writePage packet isFirst isLast granule = .error e := by
  obtain ⟨hserial, hserial', hseq⟩ := h.numbers
  have hpage := writePage_eq_check packet isFirst isLast granule hserial
  have hpage' := writePage_eq_check packet isFirst isLast granule hserial'
  rw [h.closed, hseq] at hpage'
  cases hcheck : pageCheck w.closed w.pageSeq packet.length granule with
  | error e =>
    rw [hcheck] at hpage hpage'
    exact .inr ⟨e, hpage, hpage'⟩
  | ok _ =>
    rw [hcheck] at hpage hpage'
    have hopen := (writePage_eq_ok.mp hpage).1
    obtain ⟨entries, hw, hw'⟩ := h.pages
    have hsame : { w with closed := false } = w := by rw [← hopen]
    have hsame' : { w' with closed := false } = w' := by rw [← hopen, ← h.closed]
    rw [hsame] at hw
    rw [hsame'] at hw'
    obtain ⟨hwritten, -, hgranule⟩ := hw.writePage hpage
    obtain ⟨hwritten', -, hgranule'⟩ := hw'.writePage hpage'
    exact .inl ⟨_, _, hpage, hpage', hwritten'.isOpen.trans hwritten.isOpen.symm, hgranule'.trans (h.granule.trans hgranule.symm), _,
      hwritten.moved _, hwritten'.moved _⟩

theorem Twins.addPacket (h : w.Twins w') (packet : Bytes) :
    (w.addPacket packet).1.Twins (w'.addPacket packet).1 ∧ (w'.addPacket packet).2 = (w.addPacket packet).2 := by
  rw [OggOpusWriter.addPacket, OggOpusWriter.addPacket]
  split
  · exact ⟨h, rfl⟩
  · dsimp only
    have hmoved : Twins { w with granule := w.granule + samplesPerFrame } { w' with granule := w'.granule + samplesPerFrame } := by
      obtain ⟨entries, hw, hw'⟩ := h.pages
      exact ⟨h.closed, congrArg (· + samplesPerFrame) h.granule, entries, hw.moved _, hw'.moved _⟩
    rw [h.granule]
    rw [h.granule] at hmoved
    rcases hmoved.writePage packet false false (w.granule + samplesPerFrame) with ⟨w₁, w₁', hw, hw', htwins⟩ | ⟨e, hw, hw'⟩
    · rw [hw, hw']
      exact ⟨htwins, rfl⟩
    · rw [hw, hw']
      exact ⟨hmoved, rfl⟩

theorem Twins.close (h : w.Twins w') : w.close.Twins w'.close := by
  have hend {w₁ w₁' : OggOpusWriter} (h₁ : w₁.Twins w₁') : Twins { w₁ with closed := true } { w₁' with closed := true } :=
    ⟨rfl, h₁.granule, h₁.pages⟩
  rw [OggOpusWriter.close, OggOpusWriter.close, h.granule]
  by_cases hpos : 0 < w.granule
  · rw [if_pos hpos, if_pos hpos]
    rcases h.writePage [] false true w.granule with ⟨w₁, w₁', hw, hw', htwins⟩ | ⟨e, hw, hw'⟩
    · rw [hw, hw']
      exact hend htwins
    · rw [hw, hw']
      exact h
  · rw [if_neg hpos, if_neg hpos]
    exact hend h

theorem twins_init (urandom urandom' : Fin 4 → UInt8) : ∃ w w', init urandom = .ok w ∧ init urandom' = .ok w' ∧ w.Twins w' := by
  obtain ⟨w, head, tags, hinit, hhead, htags, h⟩ := init_recording urandom
  obtain ⟨w', head', tags', hinit', hhead', htags', h'⟩ := init_recording urandom'
  cases hhead.symm.trans hhead'
  cases htags.symm.trans htags'
  exact ⟨w, w', hinit, hinit', h'.written.isOpen.trans h.written.isOpen.symm, h'.granule.trans h.granule.symm, _,
    h.written.moved _, h'.written.moved _⟩

end OggOpusWriter

/-! ### Chunks -/

/-- Two chunks that the decoder does not tell apart. -/
structure AudioChunk.Same (c c' : AudioChunk) : Prop where
  hasAudio : hasAudio c' = hasAudio c
  isRecordingStart : isRecordingStart c' = isRecordingStart c
  isRecordingStop : isRecordingStop c' = isRecordingStop c
  opus : c'.opus = c.opus
  event : eventFor c' = eventFor c
  note : ∀ w : RecordingWriter, w.note c' = w.note c

theorem AudioChunk.Same.refl (c : AudioChunk) : c.Same c := ⟨rfl, rfl, rfl, rfl, rfl, fun _ => rfl⟩

theorem AudioChunk.same_refl (chunks : List AudioChunk) : List.Forall₂ AudioChunk.Same chunks chunks :=
  List.forall₂_same.mpr fun c _ => .refl c

/-- Two calls of one kind on one writer, with chunks that are the same to it. -/
inductive WriterCall.Same : WriterCall AudioChunk → WriterCall AudioChunk → Prop
  | openWriter (index : Nat) (c c' : AudioChunk) : WriterCall.Same (.openWriter index c) (.openWriter index c')
  | setOpenedWithStartMarker (index : Nat) : WriterCall.Same (.setOpenedWithStartMarker index) (.setOpenedWithStartMarker index)
  | add (index : Nat) {c c' : AudioChunk} (h : c.Same c') : WriterCall.Same (.add index c) (.add index c')
  | setClosedWithStopMarker (index : Nat) : WriterCall.Same (.setClosedWithStopMarker index) (.setClosedWithStopMarker index)
  | close (index : Nat) : WriterCall.Same (.close index) (.close index)

/-- Two splitters that have been fed such chunks. -/
structure Splitter.Same (s s' : Splitter AudioChunk) : Prop where
  current : s'.current = s.current
  explicit : s'.currentHasExplicitStart = s.currentHasExplicitStart
  nextIndex : s'.nextIndex = s.nextIndex
  pending : s'.pendingStartMarker = s.pendingStartMarker
  calls : List.Forall₂ WriterCall.Same s.calls s'.calls

section
variable {s s' : Splitter AudioChunk} {c c' : AudioChunk}

theorem Splitter.Same.call (h : s.Same s') {call call' : WriterCall AudioChunk} (hcall : call.Same call') :
    (s.call call).Same (s'.call call') :=
  ⟨h.current, h.explicit, h.nextIndex, h.pending, h.calls.snoc hcall⟩

theorem Splitter.Same.close (h : s.Same s') (withStopMarker : Bool) : (s.close withStopMarker).Same (s'.close withStopMarker) := by
  rw [Splitter.close, Splitter.close, h.current]
  cases s.current with
  | none => exact h
  | some index =>
    cases withStopMarker with
    | false => exact ⟨rfl, rfl, h.nextIndex, h.pending, h.calls.snoc (.close index)⟩
    | true =>
      exact ⟨rfl, rfl, h.nextIndex, h.pending, (h.call (.setClosedWithStopMarker index)).calls.snoc (.close index)⟩

theorem Splitter.Same.finalize (h : s.Same s') : s.finalize.Same s'.finalize := by
  rw [Splitter.finalize, Splitter.finalize, h.current]
  cases s.current with
  | none => exact h
  | some index => exact ⟨rfl, rfl, h.nextIndex, h.pending, h.calls.snoc (.close index)⟩

theorem Splitter.Same.feedStop (h : s.Same s') (hc : c.Same c') : (s.feedStop c).Same (s'.feedStop c') := by
  rw [Splitter.feedStop, Splitter.feedStop, h.current, hc.isRecordingStop]
  split
  · exact h.close true
  · exact h

theorem Splitter.Same.openWriter (h : s.Same s') (c c' : AudioChunk) (hasExplicitStart : Bool) :
    (s.openWriter c hasExplicitStart).1.Same (s'.openWriter c' hasExplicitStart).1 ∧
      (s'.openWriter c' hasExplicitStart).2 = (s.openWriter c hasExplicitStart).2 := by
  have hopened := h.calls.snoc (.openWriter s.nextIndex c c')
  rw [Splitter.openWriter, Splitter.openWriter, h.nextIndex]
  cases hasExplicitStart with
  | false => exact ⟨⟨rfl, rfl, rfl, h.pending, hopened⟩, rfl⟩
  | true => exact ⟨⟨rfl, rfl, rfl, h.pending, hopened.snoc (.setOpenedWithStartMarker s.nextIndex)⟩, rfl⟩

theorem Splitter.Same.feedAudio (h : s.Same s') (hc : c.Same c') (addRaises : Option PyError) :
    (s.feedAudio c addRaises).1.Same (s'.feedAudio c' addRaises).1 := by
  rw [Splitter.feedAudio, Splitter.feedAudio, hc.hasAudio]
  split
  · rw [h.current, h.pending]
    cases s.current with
    | some index =>
      have hadded := h.call (.add index hc)
      cases addRaises with
      | some e => exact hadded
      | none => exact hadded.feedStop hc
    | none =>
      obtain ⟨hopened, hindex⟩ := h.openWriter c c' s.pendingStartMarker
      have hnoted : (if s.pendingStartMarker then
            { (s.openWriter c s.pendingStartMarker).1 with pendingStartMarker := false }
          else (s.openWriter c s.pendingStartMarker).1).Same
          (if s.pendingStartMarker then { (s'.openWriter c' s.pendingStartMarker).1 with pendingStartMarker := false }
          else (s'.openWriter c' s.pendingStartMarker).1) := by
        split
        · exact ⟨hopened.current, hopened.explicit, hopened.nextIndex, rfl, hopened.calls⟩
        · exact hopened
      have hadded := hnoted.call (.add (s.openWriter c s.pendingStartMarker).2 hc)
      dsimp only
      rw [hindex]
      cases addRaises with
      | some e => exact hadded
      | none => exact hadded.feedStop hc
  · exact h.feedStop hc

theorem Splitter.Same.feed (h : s.Same s') (hc : c.Same c') (addRaises : Option PyError) :
    (s.feed c addRaises).1.Same (s'.feed c' addRaises).1 := by
  rw [Splitter.feed, Splitter.feed, hc.isRecordingStart]
  split
  · rw [h.current, h.explicit]
    have hbroken : (if s.current.isSome && s.currentHasExplicitStart then s.close false else s).Same
        (if s.current.isSome && s.currentHasExplicitStart then s'.close false else s') := by
      split
      · exact h.close false
      · exact h
    generalize (if s.current.isSome && s.currentHasExplicitStart then s.close false else s) = t at hbroken
    generalize (if s.current.isSome && s.currentHasExplicitStart then s'.close false else s') = t' at hbroken
    dsimp only
    rw [hbroken.current]
    cases t.current with
    | none => exact ⟨rfl, hbroken.explicit, hbroken.nextIndex, rfl, hbroken.calls⟩
    | some index =>
      have hpromoted : Splitter.Same { t with current := some index, currentHasExplicitStart := true }
          { t' with current := some index, currentHasExplicitStart := true } :=
        ⟨rfl, rfl, hbroken.nextIndex, hbroken.pending, hbroken.calls⟩
      exact (hpromoted.call (.setOpenedWithStartMarker index)).feedAudio hc addRaises
  · exact h.feedAudio hc addRaises

end

/-! ### Recordings -/

/-- A recording's file in two runs: the same, or the same pages of an Ogg stream under another serial number. -/
def SameFile (file file' : Option Bytes) : Prop :=
  file' = file ∨ ∃ data data' serial pages, file = some data ∧ file' = some data' ∧ OggPage.readFile data = some pages ∧
    OggPage.readFile data' = some (pages.map fun p => { p with serial })

/-- Two files that only differ in the serial number of an Ogg stream. -/
inductive Sink.Twins : Sink → Sink → Prop
  | ogg {w w' : OggOpusWriter} (h : w.Twins w') : Sink.Twins (.ogg w) (.ogg w')
  | raw (written : Bytes) (closed : Bool) : Sink.Twins (.raw written closed) (.raw written closed)

/-- Two recordings that only differ in the serial number of their files. -/
def RecordingWriter.Twins (w w' : RecordingWriter) : Prop := ∃ sink, w' = { w with sink } ∧ w.sink.Twins sink

section
variable {sink sink' : Sink} {w w' : RecordingWriter} {c c' : AudioChunk}

theorem Sink.Twins.sameFile (h : sink.Twins sink') : SameFile (some sink.written) (some sink'.written) := by
  cases h with
  | raw written closed => exact .inl rfl
  | @ogg w w' h =>
    obtain ⟨entries, hw, hw'⟩ := h.pages
    have hread : OggPage.readFile w.written = some (OggOpusWriter.pagesOf w.serial entries) :=
      hw.written ▸ OggPage.readFile_flatMap hw.fits
    have hread' : OggPage.readFile w'.written = some (OggOpusWriter.pagesOf w'.serial entries) :=
      hw'.written ▸ OggPage.readFile_flatMap hw'.fits
    refine .inr ⟨_, _, w'.serial, _, rfl, rfl, hread, hread'.trans (congrArg some ?_)⟩
    exact List.ext_getElem (by simp [OggOpusWriter.pagesOf]) fun i _ _ => by simp [OggOpusWriter.pagesOf, OggOpusWriter.Entry.page]

theorem Sink.Twins.add (h : sink.Twins sink') (opus : Bytes) :
    (sink.add opus).1.Twins (sink'.add opus).1 ∧ (sink'.add opus).2 = (sink.add opus).2 := by
  cases h with
  | ogg h =>
    obtain ⟨htwins, hraised⟩ := h.addPacket opus
    exact ⟨.ogg htwins, hraised⟩
  | raw written closed =>
    refine ⟨?_, rfl⟩
    rw [Sink.add]
    cases packI opus.length with
    | error e => exact .raw written closed
    | ok length => cases closed <;> exact .raw _ _

theorem Sink.Twins.close (h : sink.Twins sink') : sink.close.Twins sink'.close := by
  cases h with
  | ogg h => exact .ogg h.close
  | raw written closed => exact .raw written true

theorem note_sink (w : RecordingWriter) (sink : Sink) (chunk : AudioChunk) :
    ({ w with sink } : RecordingWriter).note chunk = { w.note chunk with sink } := by
  simp only [RecordingWriter.note]
  split <;> rfl

theorem RecordingWriter.Twins.note (h : w.Twins w') (hc : c.Same c') : (w.note c).Twins (w'.note c') := by
  obtain ⟨sink, rfl, hsink⟩ := h
  rw [hc.note]
  exact ⟨sink, note_sink w sink c, (note_keeps w c).2.2.symm ▸ hsink⟩

theorem RecordingWriter.Twins.add (h : w.Twins w') (hc : c.Same c') :
    (w.add c).1.Twins (w'.add c').1 ∧ (w'.add c').2 = (w.add c).2 := by
  obtain ⟨sink, rfl, hsink⟩ := h
  obtain ⟨htwins, hraised⟩ := hsink.add c.opus
  rw [RecordingWriter.add, RecordingWriter.add, hc.opus]
  split
  · exact ⟨⟨sink, rfl, hsink⟩, rfl⟩
  · dsimp only
    generalize w.sink.add c.opus = added at htwins hraised
    generalize sink.add c.opus = added' at htwins hraised
    obtain ⟨sink₁, raised⟩ := added
    obtain ⟨sink₁', raised'⟩ := added'
    cases hraised
    cases raised with
    | some e => exact ⟨⟨sink₁', rfl, htwins⟩, rfl⟩
    | none =>
      have hwritten : RecordingWriter.Twins { w with sink := sink₁ } { w with sink := sink₁' } := ⟨sink₁', rfl, htwins⟩
      exact ⟨hwritten.note hc, rfl⟩

theorem RecordingWriter.Twins.close (h : w.Twins w') : w.close.Twins w'.close := by
  obtain ⟨sink, rfl, hsink⟩ := h
  exact ⟨sink.close, rfl, hsink.close⟩

theorem twins_init (base : AudioBase) (index : Nat) (urandom urandom' : Fin 4 → UInt8) :
    ∃ w w', RecordingWriter.init base index urandom = .ok w ∧ RecordingWriter.init base index urandom' = .ok w' ∧ w.Twins w' := by
  rw [RecordingWriter.init, RecordingWriter.init]
  cases base.isOgg with
  | true =>
    obtain ⟨w, w', hw, hw', h⟩ := OggOpusWriter.twins_init urandom urandom'
    rw [hw, hw']
    exact ⟨_, _, rfl, rfl, .ogg w', rfl, .ogg h⟩
  | false => exact ⟨_, _, rfl, rfl, .raw [] false, rfl, .raw [] false⟩

end

/-! ### Two runs -/

/-- The recordings of two runs and what they have made of the files they found. -/
structure Outputs.Twins (files files' : Files) (o o' : Outputs) : Prop where
  recordings : List.Forall₂ RecordingWriter.Twins o.recordings o'.recordings
  files : ∀ path, SameFile (o.files path) (o'.files path) ∨ o.files path = files path ∧ o'.files path = files' path

section
variable {base : AudioBase} {urandom urandom' : Nat → Fin 4 → UInt8} {files files' : Files} {o o' : Outputs}
  {w w' : RecordingWriter}

theorem Outputs.Twins.start (files files' : Files) : Outputs.Twins files files' { files } { files := files' } :=
  ⟨.nil, fun _ => .inr ⟨rfl, rfl⟩⟩

theorem files_update {fs fs' : Files} (h : ∀ path, SameFile (fs path) (fs' path) ∨ fs path = files path ∧ fs' path = files' path)
    {file file' : Option Bytes} (hsame : SameFile file file') (p : Path) : ∀ path,
      SameFile (Function.update fs p file path) (Function.update fs' p file' path) ∨
        Function.update fs p file path = files path ∧ Function.update fs' p file' path = files' path := by
  intro path
  by_cases hpath : path = p
  · subst hpath
    rw [Function.update_self, Function.update_self]
    exact .inl hsame
  · rw [Function.update_of_ne hpath, Function.update_of_ne hpath]
    exact h path

/-- Files that are written or deleted for the recordings of both runs. -/
theorem files_foldl (content : RecordingWriter → Option Bytes) (hcontent : ∀ w w', w.Twins w' → SameFile (content w) (content w'))
    {ws ws' : List RecordingWriter} (hws : List.Forall₂ RecordingWriter.Twins ws ws') : ∀ {fs fs' : Files},
      (∀ path, SameFile (fs path) (fs' path) ∨ fs path = files path ∧ fs' path = files' path) →
      let update (fs : Files) (w : RecordingWriter) : Files := Function.update fs w.path (content w)
      ∀ path, SameFile (ws.foldl update fs path) (ws'.foldl update fs' path) ∨
        ws.foldl update fs path = files path ∧ ws'.foldl update fs' path = files' path := by
  induction hws with
  | nil => exact fun h => h
  | cons htwins _ ih =>
    intro fs fs' h
    refine ih ?_
    have hcontents := hcontent _ _ htwins
    obtain ⟨sink, rfl, -⟩ := htwins
    exact files_update h hcontents _

/-- The same sidecars, written by both runs. -/
theorem files_sidecars (sidecars : List (Path × Sidecar)) : ∀ {fs fs' : Files},
    (∀ path, SameFile (fs path) (fs' path) ∨ fs path = files path ∧ fs' path = files' path) →
      ∀ path, SameFile (writeSidecarFiles fs sidecars path) (writeSidecarFiles fs' sidecars path) ∨
        writeSidecarFiles fs sidecars path = files path ∧ writeSidecarFiles fs' sidecars path = files' path := by
  induction sidecars with
  | nil => exact fun h => h
  | cons sidecar sidecars ih => exact fun h => ih (files_update h (.inl rfl) sidecar.1)

theorem RecordingWriter.Twins.sameFile (h : w.Twins w') : SameFile (some w.sink.written) (some w'.sink.written) := by
  obtain ⟨sink, rfl, hsink⟩ := h
  exact hsink.sameFile

theorem RecordingWriter.Twins.chunkCount (h : w.Twins w') : w'.chunkCount = w.chunkCount := by
  obtain ⟨sink, rfl, -⟩ := h
  rfl

theorem Outputs.Twins.store (h : Outputs.Twins files files' o o') (index : Nat) (hw : w.Twins w') :
    Outputs.Twins files files' (o.store index w) (o'.store index w') where
  recordings := h.recordings.set hw index
  files := by
    have hsame := hw.sameFile
    obtain ⟨sink, rfl, -⟩ := hw
    exact files_update h.files hsame w.path

theorem Outputs.Twins.modify (h : Outputs.Twins files files' o o') (index : Nat) {f : RecordingWriter → RecordingWriter}
    (hf : ∀ w w', w.Twins w' → (f w).Twins (f w')) : Outputs.Twins files files' (o.modify index f) (o'.modify index f) := by
  have hwriters := h.recordings.rel_getElem? index
  rw [Outputs.modify, Outputs.modify]
  generalize o.recordings[index]? = writer at hwriters
  generalize o'.recordings[index]? = writer' at hwriters
  cases hwriters with
  | none => exact h
  | some hw => exact h.store index (hf _ _ hw)

variable (base urandom urandom') in
theorem Outputs.Twins.perform (h : Outputs.Twins files files' o o') {call call' : WriterCall AudioChunk} (hcall : call.Same call') :
    Outputs.Twins files files' (o.perform base urandom call).1 (o'.perform base urandom' call').1 ∧
      (o'.perform base urandom' call').2 = (o.perform base urandom call).2 := by
  cases hcall with
  | openWriter index c c' =>
    obtain ⟨w, w', hw, hw', htwins⟩ := twins_init base index (urandom index) (urandom' index)
    have hsame := htwins.sameFile
    rw [Outputs.perform, Outputs.perform, hw, hw']
    refine ⟨⟨h.recordings.snoc htwins, ?_⟩, rfl⟩
    obtain ⟨sink, rfl, -⟩ := htwins
    exact files_update h.files hsame w.path
  | setOpenedWithStartMarker index =>
    refine ⟨h.modify index ?_, rfl⟩
    rintro w _ ⟨sink, rfl, hsink⟩
    exact ⟨sink, rfl, hsink⟩
  | add index hc =>
    have hwriters := h.recordings.rel_getElem? index
    rw [Outputs.perform, Outputs.perform]
    generalize o.recordings[index]? = writer at hwriters
    generalize o'.recordings[index]? = writer' at hwriters
    cases hwriters with
    | none => exact ⟨h, rfl⟩
    | some hw =>
      obtain ⟨htwins, hraised⟩ := hw.add hc
      exact ⟨h.store index htwins, hraised⟩
  | setClosedWithStopMarker index =>
    refine ⟨h.modify index ?_, rfl⟩
    rintro w _ ⟨sink, rfl, hsink⟩
    exact ⟨sink, rfl, hsink⟩
  | close index => exact ⟨h.modify index fun _ _ hw => hw.close, rfl⟩

variable (base urandom urandom') in
theorem Outputs.Twins.performAll {calls calls' : List (WriterCall AudioChunk)} (hcalls : List.Forall₂ WriterCall.Same calls calls') :
    ∀ {o o' : Outputs}, Outputs.Twins files files' o o' →
      Outputs.Twins files files' (o.performAll base urandom calls).1 (o'.performAll base urandom' calls').1 ∧
        (o'.performAll base urandom' calls').2 = (o.performAll base urandom calls).2 := by
  induction hcalls with
  | nil => exact fun h => ⟨h, rfl⟩
  | @cons call call' calls calls' hcall _ ih =>
    intro o o' h
    obtain ⟨htwins, hraised⟩ := h.perform base urandom urandom' hcall
    rw [Outputs.performAll, Outputs.performAll]
    generalize o.perform base urandom call = done at htwins hraised
    generalize o'.perform base urandom' call' = done' at htwins hraised
    obtain ⟨o₁, raised⟩ := done
    obtain ⟨o₁', raised'⟩ := done'
    cases hraised
    cases raised with
    | some e => exact ⟨htwins, rfl⟩
    | none => exact ih htwins

theorem Outputs.Twins.closeAll (h : Outputs.Twins files files' o o') : Outputs.Twins files files' o.closeAll o'.closeAll where
  recordings := by
    show List.Forall₂ _ (o.recordings.map _) (o'.recordings.map _)
    rw [List.forall₂_map_left_iff, List.forall₂_map_right_iff]
    exact h.recordings.imp fun _ _ hw => hw.close
  files := files_foldl (fun w => some w.close.sink.written) (fun _ _ hw => hw.close.sameFile) h.recordings h.files

theorem Outputs.Twins.prune (h : Outputs.Twins files files' o o') : Outputs.Twins files files' o.prune o'.prune where
  recordings := h.recordings.filter fun _ _ hw => by rw [hw.chunkCount]
  files := files_foldl (fun _ => none) (fun _ _ _ => .inl rfl)
    (h.recordings.filter fun _ _ hw => by rw [hw.chunkCount]) h.files

end

/-- Two runs that have been fed such chunks. -/
structure Decoding.Twins (files files' : Files) (d d' : Decoding) : Prop where
  splitter : d.splitter.Same d'.splitter
  outputs : Outputs.Twins files files' d.outputs d'.outputs
  events : d'.events = d.events
  nAudio : d'.nAudio = d.nAudio
  nEvents : d'.nEvents = d.nEvents

section
variable {base : AudioBase} {urandom urandom' : Nat → Fin 4 → UInt8} {files files' : Files} {d d' : Decoding} {c c' : AudioChunk}

theorem Decoding.Twins.log (h : Decoding.Twins files files' d d') (hc : c.Same c') :
    Decoding.Twins files files' (d.log c) (d'.log c') := by
  rw [Decoding.log, Decoding.log, hc.event]
  split
  · exact ⟨h.splitter, h.outputs, congrArg (· ++ _) h.events, h.nAudio, congrArg (· + 1) h.nEvents⟩
  · exact h

theorem Decoding.Twins.count (h : Decoding.Twins files files' d d') (hc : c.Same c') :
    Decoding.Twins files files' (d.count c) (d'.count c') := by
  rw [Decoding.count, Decoding.count, hc.hasAudio]
  split
  · exact ⟨h.splitter, h.outputs, h.events, congrArg (· + 1) h.nAudio, h.nEvents⟩
  · exact h

variable (base urandom urandom') in
theorem Decoding.Twins.feed (h : Decoding.Twins files files' d d') (hc : c.Same c') :
    Decoding.Twins files files' (d.feed base urandom c).1 (d'.feed base urandom' c').1 ∧
      (d'.feed base urandom' c').2 = (d.feed base urandom c).2 := by
  have hcalls := List.forall₂_drop d.splitter.calls.length (h.splitter.feed hc none).calls
  obtain ⟨htwins, hraised⟩ := h.outputs.performAll base urandom urandom' hcalls
  rw [Decoding.feed, Decoding.feed, ← h.splitter.calls.length_eq]
  generalize d.outputs.performAll base urandom _ = done at htwins hraised
  generalize d'.outputs.performAll base urandom' _ = done' at htwins hraised
  obtain ⟨o, raised⟩ := done
  obtain ⟨o', raised'⟩ := done'
  cases hraised
  cases raised with
  | some e => exact ⟨⟨h.splitter.feed hc (some e), htwins, h.events, h.nAudio, h.nEvents⟩, rfl⟩
  | none => exact ⟨⟨h.splitter.feed hc none, htwins, h.events, h.nAudio, h.nEvents⟩, rfl⟩

variable (base urandom urandom') in
theorem Decoding.Twins.loop {ε : Type} (ending : Option ε) {chunks chunks' : List AudioChunk}
    (hchunks : List.Forall₂ AudioChunk.Same chunks chunks') : ∀ {d d' : Decoding}, Decoding.Twins files files' d d' →
      Decoding.Twins files files' (d.loop base urandom ending chunks).1 (d'.loop base urandom' ending chunks').1 ∧
        (d'.loop base urandom' ending chunks').2 = (d.loop base urandom ending chunks).2 := by
  induction hchunks with
  | nil => exact fun h => ⟨h, rfl⟩
  | @cons c c' chunks chunks' hc _ ih =>
    intro d d' h
    obtain ⟨htwins, hraised⟩ := (h.log hc).feed base urandom urandom' hc
    rw [Decoding.loop, Decoding.loop]
    generalize (d.log c).feed base urandom c = done at htwins hraised
    generalize (d'.log c').feed base urandom' c' = done' at htwins hraised
    obtain ⟨d₁, raised⟩ := done
    obtain ⟨d₁', raised'⟩ := done'
    cases hraised
    cases raised with
    | some e => exact ⟨htwins, rfl⟩
    | none => exact ih (htwins.count hc)

variable (base urandom urandom') in
theorem Decoding.Twins.closeWriters (h : Decoding.Twins files files' d d') :
    Decoding.Twins files files' (d.closeWriters base urandom) (d'.closeWriters base urandom') where
  splitter := h.splitter.finalize
  outputs := by
    have hcalls := List.forall₂_drop d.splitter.calls.length h.splitter.finalize.calls
    rw [Decoding.closeWriters, Decoding.closeWriters, ← h.splitter.calls.length_eq]
    exact (h.outputs.performAll base urandom urandom' hcalls).1.closeAll
  events := h.events
  nAudio := h.nAudio
  nEvents := h.nEvents

/-- Two runs come to their manifests alike. -/
theorem twins_atManifest {ε : Type} (base : AudioBase) (urandom urandom' : Nat → Fin 4 → UInt8) (files files' : Files)
    {chunks chunks' : List AudioChunk} (hchunks : List.Forall₂ AudioChunk.Same chunks chunks') (ending : Option ε) :
    let run := Decoding.atManifest base urandom files chunks ending
    let run' := Decoding.atManifest base urandom' files' chunks' ending
    Decoding.Twins files files' run.1 run'.1 ∧ run'.2 = run.2 := by
  have hstart : Decoding.Twins files files' { outputs := { files } } { outputs := { files := files' } } :=
    ⟨⟨rfl, rfl, rfl, rfl, .nil⟩, .start files files', rfl, rfl, rfl⟩
  obtain ⟨htwins, hraised⟩ := hstart.loop base urandom urandom' ending hchunks
  have hclosed := htwins.closeWriters base urandom urandom'
  exact ⟨⟨hclosed.splitter, hclosed.outputs.prune, hclosed.events, hclosed.nAudio, hclosed.nEvents⟩, hraised⟩

end

/-! ### What they leave behind -/

section
variable {base : AudioBase} {clock clock' : Clock} {info : SyncInfo} {ws ws' : List RecordingWriter} {files files' : Files}
  {d d' : Decoding}

theorem manifestRecordings_twins (h : List.Forall₂ RecordingWriter.Twins ws ws') :
    ws'.mapM (manifestRecording clock base) = ws.mapM (manifestRecording clock base) := by
  induction h with
  | nil => rfl
  | cons hw _ ih =>
    rw [List.mapM_cons, List.mapM_cons, ih]
    obtain ⟨sink, rfl, -⟩ := hw
    rfl

variable (clock base info) in
theorem Decoding.Twins.writeSidecars (h : Decoding.Twins files files' d d') :
    d'.writeSidecars clock base info = d.writeSidecars clock base info := by
  rw [Decoding.writeSidecars, Decoding.writeSidecars, writeSyncManifest, writeSyncManifest, syncManifest, syncManifest,
    manifestRecordings_twins h.outputs.recordings, h.outputs.recordings.length_eq, h.events, h.nAudio, h.nEvents]

/-- What two runs of `_decode_chunks_into_files` leave behind. -/
structure Decoded.Twins (files files' : Files) (o o' : Decoded PyError) : Prop where
  ending : (o'.run []).ending = (o.run []).ending
  sidecars : o'.sidecars = o.sidecars
  files : ∀ path, SameFile (o.files path) (o'.files path) ∨ o.files path = files path ∧ o'.files path = files' path

theorem twins_decodeChunksIntoFiles (base : AudioBase) (clock : Clock) (urandom urandom' : Nat → Fin 4 → UInt8) (info : SyncInfo)
    (files files' : Files) {chunks chunks' : List AudioChunk} (hchunks : List.Forall₂ AudioChunk.Same chunks chunks')
    (ending : Option PyError) :
    Decoded.Twins files files' (decodeChunksIntoFiles base urandom clock info files chunks ending)
      (decodeChunksIntoFiles base urandom' clock info files' chunks' ending) := by
  obtain ⟨htwins, hended⟩ := twins_atManifest base urandom urandom' files files' hchunks ending
  have hsidecars := htwins.writeSidecars base clock info
  rw [decodeChunksIntoFiles, decodeChunksIntoFiles]
  generalize Decoding.atManifest base urandom files chunks ending = run at htwins hended hsidecars
  generalize Decoding.atManifest base urandom' files' chunks' ending = run' at htwins hended hsidecars
  obtain ⟨d, ended⟩ := run
  obtain ⟨d', ended'⟩ := run'
  cases hended
  dsimp only
  rw [hsidecars]
  cases d.writeSidecars clock base info with
  | error e => exact ⟨rfl, rfl, htwins.outputs.files⟩
  | ok sidecars =>
    refine ⟨?_, rfl, files_sidecars sidecars htwins.outputs.files⟩
    cases ended <;> rfl

end

end PendantClient
