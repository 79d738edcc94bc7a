import PendantClient.Theorems.Crc

/-! The Ogg Opus output read back page by page. A page that the writer writes is the encoding of a page of one
    packet; what a writer has written is followed from page to page. -/

namespace PendantClient

/-! ### `struct` -/

section
variable {n : Nat} {bytes : Bytes}

theorem packB_eq_ok : packB n = .ok bytes ↔ n < 2 ^ 8 ∧ bytes = LittleEndian.bytes 1 n := by
  unfold packB
  split <;> simp_all [eq_comm]

theorem packI_eq_ok : packI n = .ok bytes ↔ n < 2 ^ 32 ∧ bytes = LittleEndian.bytes 4 n := by
  unfold packI
  split <;> simp_all [eq_comm]

theorem packQ_eq_ok : packQ n = .ok bytes ↔ n < 2 ^ 63 ∧ bytes = LittleEndian.bytes 8 n := by
  unfold packQ
  split <;> simp_all [eq_comm]

end

namespace OggOpusWriter

/-! ### One page -/

theorem segs_eq (n : Nat) : (segs n).map UInt8.ofNat = OggPage.lacingOf n := by
  induction n using segs.induct with
  | case1 n h ih =>
    have hdiv : n / 255 = (n - 255) / 255 + 1 := by omega
    have hmod : n % 255 = (n - 255) % 255 := by omega
    rw [segs, if_pos h, List.map_cons, ih, OggPage.lacingOf, OggPage.lacingOf, hdiv, hmod, List.replicate_succ]
    rfl
  | case2 n h =>
    rw [segs, if_neg h, OggPage.lacingOf, Nat.div_eq_of_lt (by omega), Nat.mod_eq_of_lt (by omega)]
    rfl

/-- What a page says, its place in the stream apart. -/
structure Entry where
  headerType : Nat
  granule : Nat
  packet : Bytes

/-- The page of an entry at its place in the stream. -/
def Entry.page (e : Entry) (serial sequence : Nat) : OggPage.Page where
  headerType := e.headerType
  granule := e.granule
  serial := serial
  sequence := sequence
  lacing := OggPage.lacingOf e.packet.length
  body := e.packet

/-- The header type of a page that is not continued. -/
def headerType (isFirst isLast : Bool) : Nat := (if isFirst then 0x02 else 0) ||| (if isLast then 0x04 else 0)

theorem headerType_lt (isFirst isLast : Bool) : headerType isFirst isLast < 2 ^ 8 := by
  cases isFirst <;> cases isLast <;> decide

theorem headerType_continued (isFirst isLast : Bool) : (headerType isFirst isLast).testBit 0 = false := by
  cases isFirst <;> cases isLast <;> decide

theorem headerType_bos (isFirst isLast : Bool) : (headerType isFirst isLast).testBit 1 = isFirst := by
  cases isFirst <;> cases isLast <;> decide

theorem headerType_eos (isFirst isLast : Bool) : (headerType isFirst isLast).testBit 2 = isLast := by
  cases isFirst <;> cases isLast <;> decide

theorem Entry.fits {e : Entry} {serial sequence : Nat} (hheader : e.headerType < 2 ^ 8) (hgranule : e.granule < 2 ^ 63)
    (hserial : serial < 2 ^ 32) (hseq : sequence < 2 ^ 32) (hcount : e.packet.length / 255 + 1 < 2 ^ 8) :
    (e.page serial sequence).Fits where
  headerType := hheader
  granule := Int.natCast_nonneg _
  granule_lt := by
    show (e.granule : Int) < 2 ^ 63
    omega
  serial := hserial
  sequence := hseq
  lacing := by
    show (OggPage.lacingOf e.packet.length).length < 256
    rwa [OggPage.lacingOf, List.length_append, List.length_replicate]
  body := (OggPage.bodyLength_lacingOf _).symm

theorem Entry.whole {e : Entry} (h : e.headerType.testBit 0 = false) (serial sequence : Nat) :
    (e.page serial sequence).Whole where
  fresh := h
  lacing := rfl

variable {w w' : OggOpusWriter} {packet : Bytes} {isFirst isLast : Bool} {granule : Nat}

/-- The bytes that `_write_page` puts together before the check is known. -/
theorem layout_entry (e : Entry) (serial sequence : Nat) (count : Nat) (hcount : count = e.packet.length / 255 + 1) :
    oggCapturePattern ++ [0] ++ LittleEndian.bytes 1 e.headerType ++ LittleEndian.bytes 8 e.granule ++
      LittleEndian.bytes 4 serial ++ LittleEndian.bytes 4 sequence ++ LittleEndian.bytes 4 0 ++
      LittleEndian.bytes 1 count ++ (segs e.packet.length).map UInt8.ofNat ++ e.packet =
        (e.page serial sequence).layout [0, 0, 0, 0] := by
  have hlen : (OggPage.lacingOf e.packet.length).length = count := by
    rw [OggPage.lacingOf, List.length_append, List.length_replicate, hcount]
    rfl
  simp only [OggPage.Page.layout, Entry.page, List.append_assoc, segs_eq, hlen, Int.toNat_natCast]
  rfl

theorem length_segs (n : Nat) : (segs n).length = n / 255 + 1 := by
  rw [← List.length_map (f := UInt8.ofNat), segs_eq, OggPage.lacingOf, List.length_append, List.length_replicate]
  rfl

theorem patch_layout (p : OggPage.Page) :
    (p.layout [0, 0, 0, 0]).take 22 ++ LittleEndian.bytes 4 (crc32Ogg (p.layout [0, 0, 0, 0])) ++
      (p.layout [0, 0, 0, 0]).drop 26 = p.encode := by
  rw [OggPage.Page.layout_patch _ _ rfl, crc32Ogg_eq]
  rfl

theorem crc32Ogg_lt (data : Bytes) : crc32Ogg data < 2 ^ 32 := by
  rw [crc32Ogg_eq]
  exact BitVec.isLt _

/-- The writer once a page of the entry is written. -/
def wrote (w : OggOpusWriter) (e : Entry) : OggOpusWriter :=
  { w with written := w.written ++ (e.page w.serial w.pageSeq).encode, pageSeq := w.pageSeq + 1 }

theorem writePage_eq_ok : w.writePage packet isFirst isLast granule = .ok w' ↔
    w.closed = false ∧ granule < 2 ^ 63 ∧ w.serial < 2 ^ 32 ∧ w.pageSeq < 2 ^ 32 ∧ packet.length / 255 + 1 < 2 ^ 8 ∧
      w' = w.wrote ⟨headerType isFirst isLast, granule, packet⟩ := by
  have hbody := layout_entry ⟨headerType isFirst isLast, granule, packet⟩ w.serial w.pageSeq _ (length_segs _)
  have hpatch := patch_layout ((⟨headerType isFirst isLast, granule, packet⟩ : Entry).page w.serial w.pageSeq)
  constructor
  · intro h
    unfold writePage at h
    obtain ⟨_, packedHeader, h⟩ := bind_eq_ok.mp h
    obtain ⟨_, packedGranule, h⟩ := bind_eq_ok.mp h
    obtain ⟨_, packedSerial, h⟩ := bind_eq_ok.mp h
    obtain ⟨_, packedSeq, h⟩ := bind_eq_ok.mp h
    obtain ⟨_, packedZero, h⟩ := bind_eq_ok.mp h
    obtain ⟨_, packedCount, h⟩ := bind_eq_ok.mp h
    obtain ⟨_, packedCheck, h⟩ := bind_eq_ok.mp h
    obtain ⟨w₁, hwrite, h⟩ := bind_eq_ok.mp h
    obtain ⟨-, rfl⟩ := packB_eq_ok.mp packedHeader
    obtain ⟨hgranule, rfl⟩ := packQ_eq_ok.mp packedGranule
    obtain ⟨hserial, rfl⟩ := packI_eq_ok.mp packedSerial
    obtain ⟨hseq, rfl⟩ := packI_eq_ok.mp packedSeq
    obtain ⟨-, rfl⟩ := packI_eq_ok.mp packedZero
    obtain ⟨hcount, rfl⟩ := packB_eq_ok.mp packedCount
    obtain ⟨-, rfl⟩ := packI_eq_ok.mp packedCheck
    rw [length_segs] at hcount
    unfold write at hwrite
    split at hwrite
    · cases hwrite
    · rename_i hclosed
      cases hwrite
      cases h
      refine ⟨by simpa using hclosed, hgranule, hserial, hseq, hcount, ?_⟩
      rw [wrote, ← hpatch, ← hbody]
      rfl
  · rintro ⟨hclosed, hgranule, hserial, hseq, hcount, rfl⟩
    have packedHeader : packB ((if isFirst then 0x02 else 0) ||| (if isLast then 0x04 else 0)) =
        .ok (LittleEndian.bytes 1 (headerType isFirst isLast)) := packB_eq_ok.mpr ⟨headerType_lt isFirst isLast, rfl⟩
    have packedZero : packI 0 = .ok (LittleEndian.bytes 4 0) := rfl
    have packedCount := packB_eq_ok.mpr ⟨hcount, rfl⟩
    rw [← length_segs] at packedCount
    unfold writePage
    dsimp only
    rw [packedHeader, ok_bind, packQ_eq_ok.mpr ⟨hgranule, rfl⟩, ok_bind, packI_eq_ok.mpr ⟨hserial, rfl⟩, ok_bind,
      packI_eq_ok.mpr ⟨hseq, rfl⟩, ok_bind, packedZero, ok_bind, packedCount, ok_bind]
    rw [packI_eq_ok.mpr ⟨crc32Ogg_lt _, rfl⟩, ok_bind, write, if_neg (by simp [hclosed]), ok_bind, wrote, ← hpatch, ← hbody]

/-! ### The pages of a stream -/

/-- The pages of some entries, numbered from zero. -/
def pagesOf (serial : Nat) (entries : List Entry) : List OggPage.Page := entries.mapIdx fun i e => e.page serial i

section
variable {serial : Nat} {entries : List Entry}

theorem pagesOf_concat (e : Entry) :
    pagesOf serial (entries ++ [e]) = pagesOf serial entries ++ [e.page serial entries.length] := List.mapIdx_concat

theorem length_pagesOf : (pagesOf serial entries).length = entries.length := List.length_mapIdx

theorem map_pagesOf {α : Type} {f : OggPage.Page → α} {g : Entry → α} (h : ∀ e i, f (e.page serial i) = g e) :
    (pagesOf serial entries).map f = entries.map g := by
  apply List.ext_getElem
  · rw [List.length_map, List.length_map, length_pagesOf]
  · intro i h₁ h₂
    rw [List.getElem_map, List.getElem_map]
    simp only [pagesOf, List.getElem_mapIdx]
    exact h _ i

theorem sequence_pagesOf : (pagesOf serial entries).map OggPage.Page.sequence = List.range entries.length := by
  apply List.ext_getElem
  · rw [List.length_map, length_pagesOf, List.length_range]
  · intro i h₁ h₂
    rw [List.getElem_map, List.getElem_range]
    simp only [pagesOf, List.getElem_mapIdx]
    rfl

theorem serial_pagesOf {p : OggPage.Page} (h : p ∈ pagesOf serial entries) : p.serial = serial := by
  obtain ⟨i, hi, rfl⟩ := List.mem_mapIdx.mp h
  rfl

end

/-- The writer has written the pages of these entries to an open file. -/
structure Written (w : OggOpusWriter) (entries : List Entry) : Prop where
  isOpen : w.closed = false
  serial : w.serial < 2 ^ 32
  pageSeq : w.pageSeq = entries.length
  written : w.written = (pagesOf w.serial entries).flatMap OggPage.Page.encode
  fits : ∀ p ∈ pagesOf w.serial entries, p.Fits
  whole : ∀ p ∈ pagesOf w.serial entries, p.Whole

theorem Written.writePage {entries : List Entry} (h : w.Written entries)
    (hpage : w.writePage packet isFirst isLast granule = .ok w') :
    w'.Written (entries ++ [⟨headerType isFirst isLast, granule, packet⟩]) ∧ w'.serial = w.serial ∧ w'.granule = w.granule := by
  obtain ⟨hclosed, hgranule, hserial, hseq, hcount, rfl⟩ := writePage_eq_ok.mp hpage
  have hlast : ∀ {P : OggPage.Page → Prop} {e : Entry}, (∀ p ∈ pagesOf w.serial entries, P p) →
      P (e.page w.serial w.pageSeq) → ∀ p ∈ pagesOf w.serial (entries ++ [e]), P p := by
    intro P e hold hnew p hp
    rw [pagesOf_concat, List.mem_append, List.mem_singleton, ← h.pageSeq] at hp
    rcases hp with hp | rfl
    · exact hold p hp
    · exact hnew
  have hfits := hlast (e := ⟨headerType isFirst isLast, granule, packet⟩) h.fits
    (Entry.fits (headerType_lt isFirst isLast) hgranule hserial hseq hcount)
  have hwhole := hlast (e := ⟨headerType isFirst isLast, granule, packet⟩) h.whole
    (Entry.whole (headerType_continued isFirst isLast) _ _)
  refine ⟨⟨hclosed, hserial, ?_, ?_, hfits, hwhole⟩, rfl, rfl⟩
  · show w.pageSeq + 1 = _
    rw [h.pageSeq, List.length_append, List.length_singleton]
  · show w.written ++ _ = (pagesOf w.serial _).flatMap _
    rw [h.written, pagesOf_concat, List.flatMap_append, List.flatMap_singleton, h.pageSeq]

/-- While sequence numbers last, a packet of at most 255 segments gets its page. -/
theorem Written.exists_writePage {entries : List Entry} (h : w.Written entries) (packet : Bytes) (isFirst isLast : Bool)
    (granule : Nat) (hentries : entries.length < 2 ^ 32) (hgranule : granule < 2 ^ 63)
    (hcount : packet.length / 255 + 1 < 2 ^ 8) :
    ∃ w', w.writePage packet isFirst isLast granule = .ok w' ∧
      w'.Written (entries ++ [⟨headerType isFirst isLast, granule, packet⟩]) ∧ w'.serial = w.serial ∧
        w'.granule = w.granule := by
  have hpage : w.writePage packet isFirst isLast granule = .ok _ :=
    writePage_eq_ok.mpr ⟨h.isOpen, hgranule, h.serial, h.pageSeq ▸ hentries, hcount, rfl⟩
  exact ⟨_, hpage, h.writePage hpage⟩

/-! ### A whole recording -/

/-- The pages of some packets, each with the samples up to its end. -/
def audioEntries (packets : List Bytes) : List Entry :=
  packets.mapIdx fun i packet => ⟨headerType false false, samplesPerFrame * (i + 1), packet⟩

/-- The pages of a recording before it is closed. -/
def recordingEntries (head tags : Bytes) (packets : List Bytes) : List Entry :=
  ⟨headerType true false, 0, head⟩ :: ⟨headerType false false, 0, tags⟩ :: audioEntries packets

/-- The pages of a recording that is closed. -/
def closedEntries (head tags : Bytes) (packets : List Bytes) : List Entry :=
  recordingEntries head tags packets ++ [⟨headerType false true, samplesPerFrame * packets.length, []⟩]

theorem recordingEntries_concat (head tags packet : Bytes) (packets : List Bytes) :
    recordingEntries head tags (packets ++ [packet]) = recordingEntries head tags packets ++
      [⟨headerType false false, samplesPerFrame * (packets.length + 1), packet⟩] := by
  rw [recordingEntries, recordingEntries, audioEntries, audioEntries, List.mapIdx_concat]
  rfl

theorem length_recordingEntries (head tags : Bytes) (packets : List Bytes) :
    (recordingEntries head tags packets).length = packets.length + 2 := by
  rw [recordingEntries, audioEntries, List.length_cons, List.length_cons, List.length_mapIdx]

/-- An open writer with the headers and these packets in its file. -/
structure Recording (w : OggOpusWriter) (serial : Nat) (head tags : Bytes) (packets : List Bytes) : Prop where
  written : w.Written (recordingEntries head tags packets)
  serial : w.serial = serial
  granule : w.granule = samplesPerFrame * packets.length

theorem opusHead_ok : ∃ head, opusHead = .ok head ∧ head.length = 19 := ⟨_, rfl, rfl⟩

theorem opusTags_ok : ∃ tags, opusTags = .ok tags ∧ tags.length = 40 := ⟨_, rfl, rfl⟩

/-- A new writer has written the two headers, whatever serial it draws. -/
theorem init_recording (urandom : Fin 4 → UInt8) : ∃ w head tags, init urandom = .ok w ∧ opusHead = .ok head ∧
    opusTags = .ok tags ∧ w.Recording w.serial head tags [] := by
  obtain ⟨head, hhead, headLength⟩ := opusHead_ok
  obtain ⟨tags, htags, tagsLength⟩ := opusTags_ok
  have hserial : LittleEndian.value (List.ofFn urandom) ||| 1 < 2 ^ 32 := by
    have := LittleEndian.value_lt (List.ofFn urandom)
    rw [List.length_ofFn] at this
    exact Nat.or_lt_two_pow this (by decide)
  have hempty : Written { serial := LittleEndian.value (List.ofFn urandom) ||| 1 } [] :=
    ⟨rfl, hserial, rfl, rfl, fun _ hp => (by cases hp), fun _ hp => (by cases hp)⟩
  obtain ⟨w₁, hfirst, hone, -, hgranule₁⟩ := hempty.exists_writePage head true false 0 (by decide) (by decide)
    (by rw [headLength]; decide)
  obtain ⟨w₂, hsecond, htwo, -, hgranule₂⟩ := hone.exists_writePage tags false false 0 (show 1 < 2 ^ 32 by decide)
    (by decide) (by rw [tagsLength]; decide)
  refine ⟨_, head, tags, ?_, hhead, htags, htwo, rfl, hgranule₂.trans hgranule₁⟩
  rw [init, writeHeaders, hhead, ok_bind, hfirst, ok_bind, htags, ok_bind, hsecond]

/-- The packets that have bytes. -/
def nonEmpty (packets : List Bytes) : List Bytes := packets.filter fun packet => !packet.isEmpty

section
variable {serial : Nat} {head tags : Bytes} {done : List Bytes}

theorem Recording.addPacket (h : w.Recording serial head tags done) (hadd : w.addPacket packet = (w', none)) :
    w'.Recording serial head tags (done ++ nonEmpty [packet]) := by
  unfold OggOpusWriter.addPacket at hadd
  split at hadd
  · rename_i hempty
    cases hadd
    rw [nonEmpty, List.filter_cons_of_neg (by simp [hempty]), List.filter_nil, List.append_nil]
    exact h
  · rename_i hne
    dsimp only at hadd
    split at hadd
    · rename_i w₁ hpage
      cases hadd
      have hmoved : Written { w with granule := w.granule + samplesPerFrame } (recordingEntries head tags done) :=
        ⟨h.written.isOpen, h.written.serial, h.written.pageSeq, h.written.written, h.written.fits, h.written.whole⟩
      obtain ⟨hwritten, hserial, hgranule⟩ := hmoved.writePage hpage
      have hnext : w.granule + samplesPerFrame = samplesPerFrame * (done.length + 1) := by
        rw [h.granule, Nat.mul_succ]
      rw [nonEmpty, List.filter_cons_of_pos (by simp [hne]), List.filter_nil]
      refine ⟨?_, hserial.trans h.serial, ?_⟩
      · rw [recordingEntries_concat, ← hnext]
        exact hwritten
      · rw [hgranule, List.length_append, List.length_singleton]
        exact hnext
    · cases hadd

theorem Recording.addPackets {packets : List Bytes} : ∀ {w : OggOpusWriter} {done : List Bytes},
    w.Recording serial head tags done → w.addPackets packets = some w' →
      w'.Recording serial head tags (done ++ nonEmpty packets) := by
  induction packets with
  | nil =>
    intro w done h hadd
    cases hadd
    rw [nonEmpty, List.filter_nil, List.append_nil]
    exact h
  | cons packet packets ih =>
    intro w done h hadd
    unfold OggOpusWriter.addPackets at hadd
    split at hadd
    · rename_i w₁ hone
      have := ih (h.addPacket hone) hadd
      rw [List.append_assoc, nonEmpty, nonEmpty, ← List.filter_append] at this
      exact this
    · cases hadd

theorem Recording.close (h : w.Recording serial head tags done) (hsome : done ≠ []) (hpages : done.length + 3 < 2 ^ 32) :
    ∃ w' : OggOpusWriter, w'.Written (closedEntries head tags done) ∧ w'.serial = serial ∧
      w.close = { w' with closed := true } := by
  have hpos : 0 < w.granule := by
    rw [h.granule]
    exact Nat.mul_pos (by decide) (List.length_pos_iff.mpr hsome)
  have hgranule : w.granule < 2 ^ 63 := by
    rw [h.granule, samplesPerFrame]
    omega
  have hentries : (recordingEntries head tags done).length < 2 ^ 32 := by
    rw [length_recordingEntries]
    omega
  obtain ⟨w', hpage, hwritten, hserial, -⟩ := h.written.exists_writePage [] false true _ hentries hgranule (by decide)
  rw [closedEntries, ← h.granule]
  refine ⟨w', hwritten, hserial.trans h.serial, ?_⟩
  rw [OggOpusWriter.close, if_pos hpos, hpage]

end

/-! ### The stream read back -/

/-- The pages of a whole recording, as its reader must find them. -/
structure OpusStream (pages : List OggPage.Page) (serial : Nat) (packets : List Bytes) : Prop where
  carried : ∃ head tags, opusHead = .ok head ∧ opusTags = .ok tags ∧
    OggPage.packets pages none = some (head :: tags :: packets ++ [[]])
  serial : ∀ p ∈ pages, p.serial = serial
  sequence : pages.map OggPage.Page.sequence = List.range pages.length
  bos : pages.map OggPage.Page.bos = true :: List.replicate (packets.length + 2) false
  eos : pages.map OggPage.Page.eos = List.replicate (packets.length + 2) false ++ [true]
  granule : pages.map OggPage.Page.granule =
    0 :: 0 :: (List.range packets.length).map (fun i : Nat => 960 * ((i : Int) + 1)) ++ [960 * (packets.length : Int)]

section
variable {head tags : Bytes} {packets : List Bytes}

theorem map_closedEntries {α : Type} {f : Entry → α} {g : Nat → α}
    (h : ∀ i packet, f ⟨headerType false false, samplesPerFrame * (i + 1), packet⟩ = g i) :
    (closedEntries head tags packets).map f = f ⟨headerType true false, 0, head⟩ :: f ⟨headerType false false, 0, tags⟩ ::
      (List.range packets.length).map g ++ [f ⟨headerType false true, samplesPerFrame * packets.length, []⟩] := by
  have haudio : (audioEntries packets).map f = (List.range packets.length).map g := by
    apply List.ext_getElem
    · simp [audioEntries]
    · intro i h₁ h₂
      simp only [audioEntries, List.getElem_map, List.getElem_mapIdx, List.getElem_range]
      exact h i _
  rw [closedEntries, recordingEntries, List.map_append, List.map_cons, List.map_cons, haudio]
  rfl

theorem packet_audioEntries (packets : List Bytes) : (audioEntries packets).map Entry.packet = packets := by
  apply List.ext_getElem
  · simp [audioEntries]
  · intro i h₁ h₂
    simp only [audioEntries, List.getElem_map, List.getElem_mapIdx]

theorem packet_closedEntries : (closedEntries head tags packets).map Entry.packet = head :: tags :: packets ++ [[]] := by
  rw [closedEntries, recordingEntries, List.map_append, List.map_cons, List.map_cons, packet_audioEntries]
  rfl

theorem map_range_const {α : Type} (a : α) (n : Nat) : (List.range n).map (fun _ => a) = List.replicate n a := by
  rw [List.map_const', List.length_range]

theorem opusStream_pagesOf {serial : Nat} (hhead : opusHead = .ok head) (htags : opusTags = .ok tags)
    (whole : ∀ p ∈ pagesOf serial (closedEntries head tags packets), p.Whole) :
    OpusStream (pagesOf serial (closedEntries head tags packets)) serial packets where
  carried := by
    refine ⟨head, tags, hhead, htags, ?_⟩
    rw [OggPage.packets_whole whole, map_pagesOf (g := Entry.packet) fun _ _ => rfl, packet_closedEntries]
  serial p hp := serial_pagesOf hp
  sequence := by rw [sequence_pagesOf, length_pagesOf]
  bos := by
    rw [map_pagesOf (g := fun e => e.headerType.testBit 1) fun _ _ => rfl,
      map_closedEntries (g := fun _ => false) fun _ _ => headerType_bos false false, map_range_const]
    simp only [headerType_bos]
    rw [List.cons_append, List.cons_append, ← List.replicate_succ', ← List.replicate_succ]
  eos := by
    rw [map_pagesOf (g := fun e => e.headerType.testBit 2) fun _ _ => rfl,
      map_closedEntries (g := fun _ => false) fun _ _ => headerType_eos false false, map_range_const]
    simp only [headerType_eos]
    rw [← List.replicate_succ, ← List.replicate_succ]
  granule := by
    rw [map_pagesOf (g := fun e => (e.granule : Int)) fun _ _ => rfl,
      map_closedEntries (g := fun i : Nat => 960 * ((i : Int) + 1)) fun i _ => by simp [samplesPerFrame]]
    simp [samplesPerFrame]

end

/-- A closed recording is read back, to its end, as the Opus stream of its packets. -/
theorem close_writes_stream (urandom : Fin 4 → UInt8) (packets : List Bytes) (hsome : ∃ p ∈ packets, p ≠ [])
    (hpages : (nonEmpty packets).length + 3 < 2 ^ 32) :
    ∃ w₀, init urandom = .ok w₀ ∧ ∀ w, w₀.addPackets packets = some w →
      w.close.closed = true ∧ ∃ pages, OggPage.readFile w.close.written = some pages ∧
        OpusStream pages w₀.serial (nonEmpty packets) := by
  obtain ⟨w₀, head, tags, hinit, hhead, htags, hstart⟩ := init_recording urandom
  refine ⟨w₀, hinit, fun w hadd => ?_⟩
  have hdone := hstart.addPackets hadd
  rw [List.nil_append] at hdone
  have hne : nonEmpty packets ≠ [] := by
    obtain ⟨p, hp, hpne⟩ := hsome
    exact List.ne_nil_of_mem (List.mem_filter.mpr ⟨hp, by simpa using hpne⟩)
  obtain ⟨w', hwritten, hserial, hclose⟩ := hdone.close hne hpages
  rw [hclose]
  refine ⟨rfl, _, ?_, opusStream_pagesOf hhead htags (hserial ▸ hwritten.whole)⟩
  rw [← hserial, hwritten.written]
  exact OggPage.readFile_flatMap hwritten.fits

/-- A recording of a packet that fills one segment exactly, an empty packet and a short one. -/
theorem close_writes_stream_sample : ∃ w₀ w, init (fun _ => 7) = .ok w₀ ∧
    w₀.addPackets [List.replicate 255 1, [], [2]] = some w ∧ w.close.closed = true ∧
      ∃ pages, OggPage.readFile w.close.written = some pages ∧
        OpusStream pages w₀.serial [List.replicate 255 1, [2]] := by
  obtain ⟨w₀, hinit, hstream⟩ := close_writes_stream (fun _ => 7) [List.replicate 255 1, [], [2]]
    ⟨[2], by decide +kernel, by decide⟩ (by decide +kernel)
  have hadd : ((init fun _ => 7).toOption.bind (·.addPackets [List.replicate 255 1, [], [2]])).isSome = true := by
    decide +kernel
  rw [hinit, Except.toOption, Option.bind_some] at hadd
  obtain ⟨w, hw⟩ := Option.isSome_iff_exists.mp hadd
  exact ⟨w₀, w, hinit, hw, hstream w hw⟩

end OggOpusWriter

end PendantClient
