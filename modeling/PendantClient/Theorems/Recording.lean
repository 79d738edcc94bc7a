import PendantClient.Outputs
import PendantClient.Theorems.Ogg

/-! One recording's writer: the file it writes to, what it notes of the packets it gets, and its file when it is
    closed, however often. -/

namespace PendantClient

/-! ### Paths -/

namespace AudioBase
variable (base : AudioBase)

/-- No two recordings of a run share a file. -/
theorem recordingPath_injective : Function.Injective base.recordingPath := by
  intro i j h
  simp only [recordingPath, recordingName, String.append_right_inj, String.append_left_inj] at h
  exact Decimal.padded_injective 4 h

/-- No recording is written to a sidecar file. -/
theorem recordingPath_ne_sidecarPath (index : Nat) (extension : String) :
    base.recordingPath index ≠ base.sidecarPath ("." ++ extension) := by
  intro h
  simp only [recordingPath, recordingName, sidecarPath, String.append_assoc, String.append_right_inj] at h
  rcases base.suffix_cases with hnone | ⟨rest, hrest⟩
  · rw [hnone] at h
    have := congrArg String.toList h
    simp at this
  · rw [hrest] at h
    have := congrArg String.toList h
    simp at this

/-- Where the sidecars are written. -/
def sidecarPaths : List Path := [base.sidecarPath ".manifest.json", base.sidecarPath ".events.json"]

theorem sidecarPaths_nodup : base.sidecarPaths.Nodup := by
  simp [sidecarPaths, sidecarPath]

theorem recordingPath_not_mem_sidecarPaths (index : Nat) : base.recordingPath index ∉ base.sidecarPaths := by
  intro hmem
  rcases List.mem_cons.mp hmem with hmanifest | hevents
  · exact base.recordingPath_ne_sidecarPath index "manifest.json" hmanifest
  · exact base.recordingPath_ne_sidecarPath index "events.json" (List.mem_singleton.mp hevents)

end AudioBase

/-! ### What a writer notes -/

/-- Whether the chunk has a packet to write. -/
def AudioChunk.hasPacket (c : AudioChunk) : Bool := !c.opus.isEmpty

/-- The time a chunk is listed with. -/
def AudioChunk.time (c : AudioChunk) : Int := stampTime c.absoluteChunkTimestampMs c.receivedAtUnixMs

/-- The packet that a recording lists as its first: the first with a time of the device, or else the last. -/
def firstListed (packets : List AudioChunk) : Option AudioChunk :=
  (packets.find? fun c => c.absoluteChunkTimestampMs ≠ 0).or packets.getLast?

/-- The writer has noted these packets, and no others. -/
structure Noted (w : RecordingWriter) (packets : List AudioChunk) : Prop where
  chunkCount : w.chunkCount = packets.length
  firstAbsolute : w.firstAbsoluteTimestampMs = ((firstListed packets).map (·.absoluteChunkTimestampMs)).getD 0
  firstReceived : w.firstReceivedUnixMs = ((firstListed packets).map (·.receivedAtUnixMs)).getD 0
  lastAbsolute : w.lastAbsoluteTimestampMs = (packets.getLast?.map (·.absoluteChunkTimestampMs)).getD 0
  lastReceived : w.lastReceivedUnixMs = (packets.getLast?.map (·.receivedAtUnixMs)).getD 0

section
variable {w : RecordingWriter} {packets : List AudioChunk} {chunk : AudioChunk}

theorem find?_eq_none_of_first (h : ((firstListed packets).map (·.absoluteChunkTimestampMs)).getD 0 = 0) :
    packets.find? (fun c => c.absoluteChunkTimestampMs ≠ 0) = none := by
  cases hfind : packets.find? (fun c => c.absoluteChunkTimestampMs ≠ 0) with
  | none => rfl
  | some p =>
    have hp := List.find?_some hfind
    rw [firstListed, hfind, Option.some_or, Option.map_some, Option.getD_some] at h
    simp [h] at hp

theorem firstListed_snoc :
    firstListed (packets ++ [chunk]) =
      if ((firstListed packets).map (·.absoluteChunkTimestampMs)).getD 0 = 0 then some chunk else firstListed packets := by
  split
  · rename_i h
    rw [firstListed, List.find?_append, find?_eq_none_of_first h, Option.none_or, List.getLast?_concat, List.find?_singleton]
    split <;> rfl
  · rename_i h
    cases hfind : packets.find? (fun c => c.absoluteChunkTimestampMs ≠ 0) with
    | some p => rw [firstListed, firstListed, List.find?_append, hfind, Option.some_or, Option.some_or, Option.some_or]
    | none =>
      exfalso
      apply h
      rw [firstListed, hfind, Option.none_or]
      cases hlast : packets.getLast? with
      | none => rfl
      | some p => simpa using List.find?_eq_none.mp hfind p (List.mem_of_getLast? hlast)

theorem note_first : (w.note chunk).firstAbsoluteTimestampMs =
      (if w.firstAbsoluteTimestampMs = 0 then chunk.absoluteChunkTimestampMs else w.firstAbsoluteTimestampMs) ∧
    (w.note chunk).firstReceivedUnixMs =
      if w.firstAbsoluteTimestampMs = 0 then chunk.receivedAtUnixMs else w.firstReceivedUnixMs := by
  unfold RecordingWriter.note
  dsimp only
  split <;> exact ⟨rfl, rfl⟩

theorem note_count : (w.note chunk).chunkCount = w.chunkCount + 1 := by
  unfold RecordingWriter.note
  dsimp only
  split <;> rfl

theorem note_keeps (w : RecordingWriter) (chunk : AudioChunk) :
    (w.note chunk).recordingIndex = w.recordingIndex ∧ (w.note chunk).path = w.path ∧
    (w.note chunk).sink = w.sink := by
  unfold RecordingWriter.note
  dsimp only
  split <;> exact ⟨rfl, rfl, rfl⟩

theorem Noted.note (h : Noted w packets) (chunk : AudioChunk) : Noted (w.note chunk) (packets ++ [chunk]) where
  chunkCount := by rw [note_count, h.chunkCount, List.length_append, List.length_singleton]
  firstAbsolute := by
    rw [note_first.1, firstListed_snoc, h.firstAbsolute]
    split <;> rfl
  firstReceived := by
    rw [note_first.2, firstListed_snoc, h.firstAbsolute, h.firstReceived]
    split <;> rfl
  lastAbsolute := by
    rw [List.getLast?_concat]
    rfl
  lastReceived := by
    rw [List.getLast?_concat]
    rfl

/-- The times of a recording with packets are those of its first and its last listed chunk. -/
theorem Noted.times (h : Noted w packets) (hne : packets ≠ []) : ∃ first last, firstListed packets = some first ∧
    packets.getLast? = some last ∧ stampTime w.firstAbsoluteTimestampMs w.firstReceivedUnixMs = first.time ∧
      stampTime w.lastAbsoluteTimestampMs w.lastReceivedUnixMs = last.time := by
  have hlast : packets.getLast? = some (packets.getLast hne) := List.getLast?_eq_some_getLast hne
  obtain ⟨first, hfirst⟩ : ∃ first, firstListed packets = some first := by
    rw [firstListed, hlast]
    cases packets.find? (fun c => c.absoluteChunkTimestampMs ≠ 0) with
    | none => exact ⟨_, rfl⟩
    | some p => exact ⟨p, rfl⟩
  refine ⟨first, _, hfirst, hlast, ?_, ?_⟩
  · rw [h.firstAbsolute, h.firstReceived, hfirst]
    rfl
  · rw [h.lastAbsolute, h.lastReceived, hlast]
    rfl

end

/-! ### An Ogg file when it is closed -/

/-- The packets on the data pages of an Ogg Opus file: behind the two headers, before the end of the stream. -/
def dataPackets (pages : List OggPage.Page) : List Bytes := ((pages.drop 2).filter fun p => !p.eos).map OggPage.Page.body

namespace OggOpusWriter

/-- A writer that `close` has been called on, with these packets in its file. The last page of a stream is written if
    sequence numbers last. -/
structure Ended (w : OggOpusWriter) (packets : List Bytes) : Prop where
  pages : ∃ pages, OggPage.readFile w.written = some pages ∧ dataPackets pages = packets ∧
    (packets ≠ [] → packets.length + 2 < 2 ^ 32 → w.closed = true ∧
      pages.map OggPage.Page.eos = List.replicate (packets.length + 2) false ++ [true])
  unclosed : packets ≠ [] → 2 ^ 32 ≤ packets.length + 2 → w.closed = false
  again : w.close = w

section
variable {w : OggOpusWriter} {serial : Nat} {head tags : Bytes} {packets : List Bytes}

theorem dataPackets_pagesOf (entries : List Entry) : dataPackets (pagesOf serial entries) =
    ((entries.drop 2).filter fun e => !e.headerType.testBit 2).map Entry.packet := by
  have hmap : (pagesOf serial entries).map (fun p => (p.eos, p.body)) =
      entries.map fun e => (e.headerType.testBit 2, e.packet) := map_pagesOf fun _ _ => rfl
  have hview {α : Type} (xs : List α) (f : α → Bool × Bytes) :
      (((xs.map f).drop 2).filter fun x => !x.1).map Prod.snd = ((xs.drop 2).filter fun a => !(f a).1).map fun a => (f a).2 := by
    rw [← List.map_drop, List.filter_map, List.map_map]
    rfl
  have hleft := hview (pagesOf serial entries) fun p => (p.eos, p.body)
  rw [hmap, hview] at hleft
  exact hleft.symm

theorem eos_audioEntries {e : Entry} (he : e ∈ audioEntries packets) : e.headerType.testBit 2 = false := by
  obtain ⟨i, hi, rfl⟩ := List.mem_mapIdx.mp he
  exact headerType_eos false false

theorem eos_recordingEntries : (recordingEntries head tags packets).map (fun e => e.headerType.testBit 2) =
    List.replicate (packets.length + 2) false := by
  rw [List.eq_replicate_iff, List.length_map, length_recordingEntries]
  refine ⟨rfl, fun b hb => ?_⟩
  obtain ⟨e, he, rfl⟩ := List.mem_map.mp hb
  rw [recordingEntries, List.mem_cons, List.mem_cons] at he
  rcases he with rfl | rfl | he
  · exact headerType_eos true false
  · exact headerType_eos false false
  · exact eos_audioEntries he

/-- The data pages of a recording are those of its packets, with or without a last page behind them. -/
theorem dataPackets_recording (serial : Nat) (head tags : Bytes) (packets : List Bytes) {ends : List Entry}
    (hends : ∀ e ∈ ends, e.headerType.testBit 2 = true) :
    dataPackets (pagesOf serial (recordingEntries head tags packets ++ ends)) = packets := by
  have haudio : ((audioEntries packets).filter fun e => !e.headerType.testBit 2) = audioEntries packets := by
    rw [List.filter_eq_self]
    intro e he
    rw [eos_audioEntries he]
    rfl
  have hnone : (ends.filter fun e => !e.headerType.testBit 2) = [] := by
    rw [List.filter_eq_nil_iff]
    intro e he
    simp [hends e he]
  rw [dataPackets_pagesOf]
  show ((audioEntries packets ++ ends).filter _).map _ = _
  rw [List.filter_append, haudio, hnone, List.append_nil, packet_audioEntries]

/-- An open writer with the headers and these packets in its file. A packet that it has refused has moved its
    granule position. -/
structure Holding (w : OggOpusWriter) (refused : Bool) (packets : List Bytes) : Prop where
  written : ∃ head tags, opusHead = .ok head ∧ opusTags = .ok tags ∧ w.Written (recordingEntries head tags packets)
  granule : w.granule = samplesPerFrame * (packets.length + refused.toNat)

variable {refused : Bool} {packet : Bytes}

theorem Written.length_le {entries : List Entry} (h : w.Written entries) : entries.length ≤ 2 ^ 32 := by
  rcases Nat.eq_zero_or_pos entries.length with hzero | hpos
  · rw [hzero]
    exact Nat.zero_le _
  · have hmem : entries.length - 1 ∈ (pagesOf w.serial entries).map OggPage.Page.sequence := by
      rw [sequence_pagesOf, List.mem_range]
      omega
    obtain ⟨p, hp, hsequence⟩ := List.mem_map.mp hmem
    have := (h.fits p hp).sequence
    omega

theorem Holding.length_le (h : w.Holding refused packets) : packets.length + 2 ≤ 2 ^ 32 := by
  obtain ⟨head, tags, -, -, hwritten⟩ := h.written
  have := hwritten.length_le
  rwa [length_recordingEntries] at this

theorem Holding.granule_lt (h : w.Holding refused packets) : w.granule < 2 ^ 63 := by
  have hlen := h.length_le
  have hone := Bool.toNat_le refused
  rw [h.granule, samplesPerFrame]
  omega

theorem writePage_closed (packet : Bytes) (isFirst isLast : Bool) (granule : Nat) (h : w.closed = true ∨ 2 ^ 32 ≤ w.pageSeq) :
    ∃ e, w.writePage packet isFirst isLast granule = .error e := by
  cases hpage : w.writePage packet isFirst isLast granule with
  | error e => exact ⟨e, rfl⟩
  | ok w' =>
    obtain ⟨hopen, -, -, hseq, -⟩ := writePage_eq_ok.mp hpage
    rcases h with h | h
    · rw [hopen] at h
      cases h
    · omega

/-- A closed file stays as it is: there is no second last page. -/
theorem close_closed (h : w.closed = true) : w.close = w := by
  obtain ⟨e, he⟩ := writePage_closed [] false true w.granule (.inl h)
  rw [close, he]
  split
  · rename_i w' hw
    split at hw
    · cases hw
    · cases hw
      rw [← h]
  · rfl

theorem Holding.addPacket (h : w.Holding false packets) (hpacket : packet ≠ []) :
    (packets.length + 2 < 2 ^ 32 ∧ packet.length < 255 * 255 →
      ∃ w', w.addPacket packet = (w', none) ∧ w'.Holding false (packets ++ [packet])) ∧
    (¬(packets.length + 2 < 2 ^ 32 ∧ packet.length < 255 * 255) →
      ∃ w' e, w.addPacket packet = (w', some e) ∧ w'.Holding true packets) := by
  obtain ⟨head, tags, hhead, htags, hwritten⟩ := h.written
  have hgranule : w.granule = samplesPerFrame * packets.length := h.granule
  have hne : packet.isEmpty = false := by simpa using hpacket
  have hmoved : Written { w with granule := w.granule + samplesPerFrame } (recordingEntries head tags packets) :=
    ⟨hwritten.isOpen, hwritten.serial, hwritten.pageSeq, hwritten.written, hwritten.fits, hwritten.whole⟩
  have hseq : w.pageSeq = packets.length + 2 := by rw [hwritten.pageSeq, length_recordingEntries]
  have hlt : w.granule + samplesPerFrame < 2 ^ 63 := by
    have := h.length_le
    rw [hgranule, samplesPerFrame]
    omega
  rw [OggOpusWriter.addPacket, hne]
  dsimp only
  rw [if_neg (by simp)]
  constructor
  · rintro ⟨hcount, hlength⟩
    obtain ⟨w', hpage, hwritten', -, hgranule'⟩ := hmoved.exists_writePage packet false false (w.granule + samplesPerFrame)
      (by rwa [length_recordingEntries]) hlt (by omega)
    rw [hpage]
    refine ⟨w', rfl, ⟨head, tags, hhead, htags, ?_⟩, ?_⟩
    · rw [recordingEntries_concat, Nat.mul_succ, ← hgranule]
      exact hwritten'
    · rw [hgranule', List.length_append]
      show w.granule + samplesPerFrame = samplesPerFrame * (packets.length + 1)
      rw [hgranule, Nat.mul_succ]
  · intro hrefused
    split
    · rename_i w' hpage
      obtain ⟨-, -, -, hcount, hlength, -⟩ := writePage_eq_ok.mp hpage
      refine absurd ⟨?_, ?_⟩ hrefused
      · rw [← hseq]
        exact hcount
      · omega
    · rename_i e hpage
      refine ⟨_, e, rfl, ⟨head, tags, hhead, htags, hmoved⟩, ?_⟩
      show w.granule + samplesPerFrame = samplesPerFrame * (packets.length + 1)
      rw [hgranule, Nat.mul_succ]

/-- What `close` does to the file: without packets nothing is written; else the last page is, unless the stream is full.
    Then the page is refused, the file is not closed, and `close` does not tell. -/
theorem Holding.close_written (h : w.Holding refused packets) : ∃ head tags ends, opusHead = .ok head ∧
    opusTags = .ok tags ∧
    OggPage.readFile w.close.written = some (pagesOf w.serial (recordingEntries head tags packets ++ ends)) ∧
    ((w.granule = 0 ∧ ends = [] ∧ w.close.closed = true) ∨
      (0 < w.granule ∧ packets.length + 2 < 2 ^ 32 ∧ ends = [⟨headerType false true, w.granule, []⟩] ∧ w.close.closed = true) ∨
      0 < w.granule ∧ 2 ^ 32 ≤ packets.length + 2 ∧ ends = [] ∧ w.close = w) := by
  obtain ⟨head, tags, hhead, htags, hwritten⟩ := h.written
  have hread {entries : List Entry} {w' : OggOpusWriter} (hw : w'.Written entries) :
      OggPage.readFile w'.written = some (pagesOf w'.serial entries) := by
    rw [hw.written]
    exact OggPage.readFile_flatMap hw.fits
  rcases Nat.eq_zero_or_pos w.granule with hzero | hpos
  · have hclose : w.close = { w with closed := true } := by
      rw [OggOpusWriter.close, if_neg (by omega)]
    have hpages := hread hwritten
    refine ⟨head, tags, [], hhead, htags, ?_, .inl ⟨hzero, rfl, by rw [hclose]⟩⟩
    rw [hclose, List.append_nil]
    exact hpages
  · rcases Nat.lt_or_ge (packets.length + 2) (2 ^ 32) with hlt | hge
    · obtain ⟨w', hpage, hwritten', hserial, -⟩ := hwritten.exists_writePage [] false true w.granule
        (by rwa [length_recordingEntries]) h.granule_lt (by decide)
      have hclose : w.close = { w' with closed := true } := by
        rw [OggOpusWriter.close, if_pos hpos, hpage]
      have hpages := hread hwritten'
      refine ⟨head, tags, _, hhead, htags, ?_, .inr (.inl ⟨hpos, hlt, rfl, by rw [hclose]⟩)⟩
      rw [hclose, ← hserial]
      exact hpages
    · obtain ⟨e, he⟩ := writePage_closed [] false true w.granule (.inr (by rwa [hwritten.pageSeq, length_recordingEntries]))
      have hclose : w.close = w := by
        rw [OggOpusWriter.close, if_pos hpos, he]
      refine ⟨head, tags, [], hhead, htags, ?_, .inr (.inr ⟨hpos, hge, rfl, hclose⟩)⟩
      rw [hclose, List.append_nil]
      exact hread hwritten

theorem Holding.close (h : w.Holding refused packets) : w.close.Ended packets := by
  obtain ⟨head, tags, ends, -, -, hread, hcases⟩ := h.close_written
  have heos (e : Entry) (he : e ∈ ends) : e.headerType.testBit 2 = true := by
    rcases hcases with ⟨-, rfl, -⟩ | ⟨-, -, rfl, -⟩ | ⟨-, -, rfl, -⟩
    · cases he
    · rw [List.mem_singleton.mp he]
      exact headerType_eos false true
    · cases he
  have hdata := dataPackets_recording w.serial head tags packets heos
  rcases hcases with ⟨hzero, rfl, hclosed⟩ | ⟨-, hlt, rfl, hclosed⟩ | ⟨-, hge, rfl, hclose⟩
  · have hnone : packets = [] := by
      rw [h.granule, samplesPerFrame] at hzero
      exact List.length_eq_zero_iff.mp (by omega)
    exact ⟨⟨_, hread, hdata, fun hne => absurd hnone hne⟩, fun hne => absurd hnone hne, close_closed hclosed⟩
  · refine ⟨⟨_, hread, hdata, fun _ _ => ⟨hclosed, ?_⟩⟩, fun _ hge => by omega, close_closed hclosed⟩
    rw [map_pagesOf (g := fun e => e.headerType.testBit 2) fun _ _ => rfl, List.map_append, eos_recordingEntries,
      List.map_singleton, headerType_eos]
  · refine ⟨⟨_, hread, hdata, fun _ hlt => by omega⟩, fun _ _ => ?_, by rw [hclose, hclose]⟩
    rw [hclose]
    obtain ⟨_, _, -, -, hwritten⟩ := h.written
    exact hwritten.isOpen

theorem exists_init (urandom : Fin 4 → UInt8) : ∃ w, init urandom = .ok w ∧ w.Holding false [] := by
  obtain ⟨w, head, tags, hinit, hhead, htags, hrecording⟩ := init_recording urandom
  exact ⟨w, hinit, ⟨head, tags, hhead, htags, hrecording.written⟩, hrecording.granule⟩

end

end OggOpusWriter

/-! ### The file of a recording -/

/-- Whether a file that holds `count` packets takes one of `length` bytes. Ogg pages have numbers of 32 bits and at
    most 255 segments; in a raw file a packet has a length of 32 bits. -/
def takesPacket (isOgg : Bool) (count length : Nat) : Prop :=
  if isOgg then count + 2 < 2 ^ 32 ∧ length < 255 * 255 else length < 2 ^ 32

instance (isOgg : Bool) (count length : Nat) : Decidable (takesPacket isOgg count length) :=
  inferInstanceAs (Decidable (if isOgg then _ else _))

/-- An open file with these packets. -/
inductive Sink.Holding (refused : Bool) (packets : List Bytes) : Bool → Sink → Prop
  | ogg {writer : OggOpusWriter} (h : writer.Holding refused packets) : Sink.Holding refused packets true (.ogg writer)
  | raw (written : Bytes) : Sink.Holding refused packets false (.raw written false)

/-- A file with these packets that has been closed. -/
inductive Sink.Ended (packets : List Bytes) : Bool → Sink → Prop
  | ogg {writer : OggOpusWriter} (h : writer.Ended packets) : Sink.Ended packets true (.ogg writer)
  | raw (written : Bytes) : Sink.Ended packets false (.raw written true)

section
variable {sink : Sink} {isOgg refused : Bool} {packets : List Bytes} {packet : Bytes}

theorem Sink.Holding.add (h : sink.Holding false packets isOgg) (hpacket : packet ≠ []) :
    (takesPacket isOgg packets.length packet.length →
      ∃ sink', sink.add packet = (sink', none) ∧ sink'.Holding false (packets ++ [packet]) isOgg) ∧
    (¬takesPacket isOgg packets.length packet.length →
      ∃ sink' e, sink.add packet = (sink', some e) ∧ sink'.Holding true packets isOgg) := by
  cases h with
  | ogg h =>
    obtain ⟨htaken, hrefused⟩ := h.addPacket hpacket
    constructor
    · intro htakes
      obtain ⟨w', hadd, hw'⟩ := htaken htakes
      exact ⟨.ogg w', by rw [Sink.add, hadd], .ogg hw'⟩
    · intro htakes
      obtain ⟨w', e, hadd, hw'⟩ := hrefused htakes
      exact ⟨.ogg w', e, by rw [Sink.add, hadd], .ogg hw'⟩
  | raw written =>
    rw [Sink.add, packI]
    constructor
    · intro htakes
      rw [if_pos (show packet.length < 2 ^ 32 from htakes)]
      exact ⟨_, rfl, .raw _⟩
    · intro htakes
      rw [if_neg (show ¬packet.length < 2 ^ 32 from htakes)]
      exact ⟨_, _, rfl, .raw _⟩

theorem Sink.Holding.close (h : sink.Holding refused packets isOgg) : sink.close.Ended packets isOgg := by
  cases h with
  | ogg h => exact .ogg h.close
  | raw written => exact .raw written

theorem Sink.Ended.close (h : sink.Ended packets isOgg) : sink.close = sink := by
  cases h with
  | ogg h => exact congrArg Sink.ogg h.again
  | raw written => rfl

end

/-- A new recording has an open file that holds no packets, and has noted nothing. -/
theorem RecordingWriter.init_eq_ok (base : AudioBase) (index : Nat) (urandom : Fin 4 → UInt8) :
    ∃ sink : Sink, RecordingWriter.init base index urandom =
      .ok { recordingIndex := index, path := base.recordingPath index, sink } ∧ sink.Holding false [] base.isOgg := by
  cases hogg : base.isOgg with
  | true =>
    obtain ⟨writer, hinit, hholding⟩ := OggOpusWriter.exists_init urandom
    refine ⟨.ogg writer, ?_, .ogg hholding⟩
    rw [RecordingWriter.init, hogg, if_pos rfl, hinit]
    rfl
  | false =>
    refine ⟨.raw [] false, ?_, .raw []⟩
    rw [RecordingWriter.init, hogg, if_neg Bool.false_ne_true]
    rfl

end PendantClient
