import PendantClient.Decode
import PendantClient.Recording
import PendantClient.Theorems.Recording
import PendantClient.Theorems.Rejected

/-! The packets of an encrypted chunk. The chunk says where each begins, but its plaintext goes into the recording as it is,
    as one packet. -/

namespace PendantClient

/-- Where packets begin that take up `length` bytes in all. -/
structure PacketOffsets (offsets : List Int) (length : Nat) : Prop where
  first : offsets.head? = some 0
  increasing : offsets.Pairwise (· < ·)
  inside : ∀ o ∈ offsets, o < length

/-- The packets that begin at the offsets: each ends where the next begins. -/
def packetsAt (plaintext : Bytes) : List Int → List Bytes
  | [] => []
  | [o] => [plaintext.drop o.toNat]
  | o :: o' :: offsets => slice plaintext o.toNat o'.toNat :: packetsAt plaintext (o' :: offsets)

theorem length_packetsAt (plaintext : Bytes) (offsets : List Int) : (packetsAt plaintext offsets).length = offsets.length := by
  induction offsets using packetsAt.induct with
  | case1 => rfl
  | case2 o => rfl
  | case3 o o' offsets ih => rw [packetsAt, List.length_cons, ih, List.length_cons, List.length_cons, List.length_cons]

section
variable {offsets : List Int} {length : Nat} {plaintext : Bytes}

theorem PacketOffsets.exists_eq (h : PacketOffsets offsets length) : ∃ rest, offsets = 0 :: rest :=
  List.head?_eq_some_iff.mp h.first

theorem PacketOffsets.plaintext_ne_nil (h : PacketOffsets offsets plaintext.length) : plaintext ≠ [] := by
  obtain ⟨rest, rfl⟩ := h.exists_eq
  rintro rfl
  exact absurd (h.inside 0 List.mem_cons_self) (by decide)

/-- The plaintext is the only packet exactly if only one offset is given. -/
theorem PacketOffsets.packetsAt_eq_singleton_iff (h : PacketOffsets offsets length) :
    packetsAt plaintext offsets = [plaintext] ↔ offsets.length = 1 := by
  obtain ⟨rest, rfl⟩ := h.exists_eq
  constructor
  · intro heq
    rw [← length_packetsAt plaintext, heq]
    rfl
  · intro hone
    obtain rfl : rest = [] := List.length_eq_zero_iff.mp (Nat.succ.inj hone)
    rfl

end

/-! ### What a packet adds to the file -/

namespace OggOpusWriter

/-- From one state of a writer to the next its file has grown by pages with these packets, and the granule position has moved
    past them. -/
structure Emits (w w' : OggOpusWriter) (packets : List Bytes) : Prop where
  file : ∃ added pages, w'.written = w.written ++ added ∧ OggPage.readFile added = some pages ∧
    OggPage.packets pages none = some packets
  granule : w'.granule = w.granule + samplesPerFrame * packets.length

variable {w : OggOpusWriter} {packet : Bytes} {packets : List Bytes}

/-- A packet is emitted as it is, if it fits in a page and a page can be written. -/
theorem emits_addPacket_iff (hne : packet ≠ []) :
    w.Emits (w.addPacket packet).1 packets ↔ packets = [packet] ∧ packet.length < 255 * 255 ∧ w.moved.TakesPage := by
  have hempty : ¬packet.isEmpty = true := by simpa using hne
  rw [addPacket, if_neg hempty]
  dsimp only
  split
  · rename_i w' hpage
    obtain ⟨hopen, hgranule, hserial, hseq, hcount, rfl⟩ := writePage_eq_ok.mp hpage
    generalize hentry : (⟨headerType false false, w.granule + samplesPerFrame, packet⟩ : Entry) = e
    have hfits : (e.page w.serial w.pageSeq).Fits := by
      subst hentry
      exact Entry.fits (headerType_lt false false) hgranule hserial hseq hcount
    have hwhole : (e.page w.serial w.pageSeq).Whole := by
      subst hentry
      exact Entry.whole (headerType_continued false false) w.serial w.pageSeq
    have hread := OggPage.readFile_encode hfits
    have hpackets : OggPage.packets [e.page w.serial w.pageSeq] none = some [packet] := by
      rw [OggPage.packets_singleton hwhole, ← hentry]
      rfl
    constructor
    · intro h
      obtain ⟨added, pages, hadded, hpages, hemitted⟩ := h.file
      obtain rfl : added = (e.page w.serial w.pageSeq).encode := (List.append_cancel_left hadded).symm
      rw [hread] at hpages
      obtain rfl := Option.some_inj.mp hpages
      rw [hpackets] at hemitted
      exact ⟨(Option.some_inj.mp hemitted).symm, by omega, hopen, hserial, hseq, hgranule⟩
    · rintro ⟨rfl, -, -⟩
      exact ⟨⟨_, _, rfl, hread, hpackets⟩, rfl⟩
  · rename_i e hpage
    refine iff_of_false (fun h => ?_) ?_
    · -- nothing is written, but the position has moved
      obtain ⟨added, pages, hadded, hpages, hemitted⟩ := h.file
      obtain rfl : added = [] := List.append_right_eq_self.mp hadded.symm
      obtain rfl : pages = [] := (Option.some_inj.mp hpages).symm
      obtain rfl : packets = [] := (Option.some_inj.mp hemitted).symm
      have hgranule : w.granule + samplesPerFrame = w.granule := h.granule
      rw [samplesPerFrame] at hgranule
      omega
    · rintro ⟨-, hlength, hopen, hserial, hseq, hgranule⟩
      have hok : w.moved.writePage packet false false (w.granule + samplesPerFrame) = .ok _ :=
        writePage_eq_ok.mpr ⟨hopen, hgranule, hserial, hseq, by omega, rfl⟩
      cases hok.symm.trans hpage

/-- An open file takes another packet until its sequence numbers are used up. -/
theorem Holding.moved_takesPage {refused : Bool} (h : w.Holding refused packets) (hcount : packets.length + 2 < 2 ^ 32) :
    w.moved.TakesPage := by
  obtain ⟨head, tags, -, -, hwritten⟩ := h.written
  refine ⟨hwritten.isOpen, hwritten.serial, ?_, ?_⟩
  · show w.pageSeq < 2 ^ 32
    rwa [hwritten.pageSeq, length_recordingEntries]
  · have hrefused := Bool.toNat_le refused
    show w.granule + samplesPerFrame < 2 ^ 63
    rw [h.granule, samplesPerFrame]
    omega

end OggOpusWriter

/-! ### From the message to the recording -/

/-- In the message, at position `i` of its flash page, the decoder finds a chunk with this encrypted audio. -/
structure EncryptedChunkAt (codecs : Codecs) (acceptTypes : List Int) (payload : Bytes) (i : Nat)
    (audio : FlashPagePb2.PendantAudioData) (encrypted : FlashPagePb2.EncryptedBytes) : Prop where
  message : ∃ msg sb page chunk, codecs.parsePendantAll payload = some msg ∧ msg.content = some (.storageBuffer sb) ∧
    sb.ingestType ∈ acceptTypes ∧ sb.flashPage ≠ [] ∧ codecs.parseFlashPage sb.flashPage = some page ∧
    page.chunks[i]? = some chunk ∧ chunk.audioData = some audio
  encrypted : audio.encryptedCodecBeamformingData = some encrypted

/-- The chunk's packets go into the recording one by one. -/
def KeepsBoundaries (w : RecordingWriter) (writer : OggOpusWriter) (c : AudioChunk) (plaintext : Bytes) (offsets : List Int) :
    Prop :=
  ∃ writer', (w.add c).1.sink = .ogg writer' ∧ writer.Emits writer' (packetsAt plaintext offsets)

section
variable {codecs : Codecs} {acceptTypes : List Int} {payload : Bytes} {i : Nat} {audio : FlashPagePb2.PendantAudioData}
  {encrypted : FlashPagePb2.EncryptedBytes} {keys : AudioKeySet} {plaintext : Bytes}

theorem getElem?_pageChunks {sb : StorageBufferMsg} {page : FlashPage} (keys : Option AudioKeySet) (chunks : List Chunk) :
    ∀ {i : Nat} {chunk : Chunk}, chunks[i]? = some chunk →
      ∃ c, (pageChunks codecs keys sb page chunks)[i]? = some c ∧ c.chunk = decryptChunk codecs keys chunk := by
  induction chunks with
  | nil =>
    intro i chunk h
    cases h
  | cons head chunks ih =>
    intro i chunk h
    cases i with
    | zero =>
      obtain rfl := Option.some_inj.mp h
      exact ⟨_, rfl, rfl⟩
    | succ i => exact ih h

/-- A chunk that is decrypted has its plaintext for its packet. -/
theorem opus_decryptChunk {c : AudioChunk} {chunk : Chunk} {audio : AudioPayload} (hc : c.chunk = decryptChunk codecs (some keys) chunk)
    (haudio : chunk.audio = some audio) (hencrypted : audio.encrypted.isSome)
    (hdecrypt : decryptAudio codecs audio keys.aesKey = .ok plaintext) : c.opus = plaintext := by
  simp [AudioChunk.opus, hc, decryptChunk, haudio, hencrypted, hdecrypt]

theorem EncryptedChunkAt.decoded (h : EncryptedChunkAt codecs acceptTypes payload i audio encrypted)
    (hdecrypt : decryptAudio codecs (convertAudio audio) keys.aesKey = .ok plaintext) :
    ∃ c, (iterAudioChunksFromMessages codecs (some keys) acceptTypes [payload])[i]? = some c ∧ c.opus = plaintext := by
  obtain ⟨msg, sb, page, chunk, hmsg, hcontent, haccept, hne, hpage, hchunk, haudio⟩ := h.message
  obtain ⟨parsed, hparsed, hchunks⟩ : ∃ parsed, parseFlashPage codecs sb.flashPage = some parsed ∧
      parsed.chunks = page.chunks.map convertChunk := by
    rw [parseFlashPage, hpage]
    exact ⟨_, rfl, rfl⟩
  have hconverted : parsed.chunks[i]? = some (convertChunk chunk) := by
    rw [hchunks, List.getElem?_map, hchunk, Option.map_some]
  have hempty : ¬sb.flashPage.isEmpty = true := by simpa using hne
  obtain ⟨c, hc, hdecrypted⟩ := getElem?_pageChunks (some keys) parsed.chunks hconverted
  refine ⟨c, ?_, opus_decryptChunk hdecrypted (congrArg (Option.map convertAudio) haudio) ?_ hdecrypt⟩
  · rw [iterAudioChunksFromMessages, hmsg]
    dsimp only
    rw [hcontent]
    dsimp only
    rw [if_neg (not_not.mpr haccept), if_neg hempty, hparsed]
    dsimp only
    rw [iterAudioChunksFromMessages, List.append_nil]
    exact hc
  · show (audio.encryptedCodecBeamformingData.map _).isSome
    rw [h.encrypted]
    rfl

theorem keepsBoundaries_iff {w : RecordingWriter} {writer : OggOpusWriter} {c : AudioChunk} {offsets : List Int}
    (hwriter : w.sink = .ogg writer) (hopus : c.opus = plaintext) (hne : plaintext ≠ []) :
    KeepsBoundaries w writer c plaintext offsets ↔ writer.Emits (writer.addPacket plaintext).1 (packetsAt plaintext offsets) := by
  have hsink : (w.add c).1.sink = .ogg (writer.addPacket plaintext).1 := by
    rw [RecordingWriter.add, hopus, if_neg (by simpa using hne), hwriter, Sink.add]
    obtain ⟨writer', raised⟩ := writer.addPacket plaintext
    cases raised with
    | none => exact (note_keeps _ _).2.2
    | some e => rfl
  rw [KeepsBoundaries, hsink]
  constructor
  · rintro ⟨writer', hsame, h⟩
    obtain rfl := Sink.ogg.inj hsame
    exact h
  · exact fun h => ⟨_, rfl, h⟩

end

/-- The boundaries are kept where there are none: if the chunk has one packet, and the file takes it. -/
theorem boundaries_kept_iff (codecs : Codecs) (keys : AudioKeySet) (acceptTypes : List Int) (payload : Bytes) (i : Nat)
    (audio : FlashPagePb2.PendantAudioData) (encrypted : FlashPagePb2.EncryptedBytes)
    (hchunk : EncryptedChunkAt codecs acceptTypes payload i audio encrypted)
    (hoffsets : PacketOffsets encrypted.packetOffsets encrypted.ciphertext.length) (plaintext : Bytes)
    (hdecrypt : decryptAudio codecs (convertAudio audio) keys.aesKey = .ok plaintext)
    (hlength : plaintext.length = encrypted.ciphertext.length) (w : RecordingWriter) (writer : OggOpusWriter)
    (hwriter : w.sink = .ogg writer) :
    ∃ c, (iterAudioChunksFromMessages codecs (some keys) acceptTypes [payload])[i]? = some c ∧
      (KeepsBoundaries w writer c plaintext encrypted.packetOffsets ↔
        encrypted.packetOffsets.length = 1 ∧ encrypted.ciphertext.length < 255 * 255 ∧ writer.moved.TakesPage) := by
  rw [← hlength] at hoffsets ⊢
  have hne := hoffsets.plaintext_ne_nil
  obtain ⟨c, hc, hopus⟩ := hchunk.decoded hdecrypt
  refine ⟨c, hc, ?_⟩
  rw [keepsBoundaries_iff hwriter hopus hne, OggOpusWriter.emits_addPacket_iff hne, hoffsets.packetsAt_eq_singleton_iff]

/-- A field of fewer than 128 bytes on the wire. -/
def wireField (tag : UInt8) (body : Bytes) : Bytes := [tag, UInt8.ofNat body.length] ++ body

/-- Two packets of two bytes, one after the other. -/
def sealedPlaintext : Bytes := [0xB8, 0x01, 0xB8, 0x02]

/-- The plaintext under the key and the nonce of zeros, with the starts of its packets. -/
def sealedBytes (starts : Bytes) : FlashPagePb2.EncryptedBytes where
  nonce := List.replicate 12 0
  ciphertext := [0xBB, 0x89, 0x62, 0xCC]
  authenticationTag := [0x99, 0xC5, 0x88, 0x32, 0x4B, 0xD2, 0x56, 0xCA, 0x60, 0x15, 0x2B, 0xF6, 0x67, 0x03, 0xF3, 0x05]
  packetOffsets := starts.map fun b => (b.toNat : Int)

/-- A chunk's audio with the ciphertext. -/
def sealedAudio (starts : Bytes) : FlashPagePb2.PendantAudioData where
  encryptedCodecBeamformingData := some (sealedBytes starts)

/-- A flash page with the chunk, on the wire. -/
def sealedPage (starts : Bytes) : Bytes :=
  let sealed := sealedBytes starts
  let encrypted := wireField 0x0A sealed.nonce ++ wireField 0x12 sealed.ciphertext ++
    wireField 0x1A sealed.authenticationTag ++ wireField 0x22 starts
  wireField 0x1A (wireField 0x12 (wireField 0x6A encrypted))

/-- The page in a `storage_buffer` message with ingest type 2 and index 7. -/
def sealedMessage (starts : Bytes) : Bytes := wireField 0x12 ([0x08, 0x02, 0x28, 0x07] ++ wireField 0x32 (sealedPage starts))

/-- The parsers on that message, and AES-GCM on that ciphertext. -/
def sealedCodecs (starts : Bytes) : Codecs where
  parsePendantAll payload :=
    if payload = sealedMessage starts then
      some { content := some (.storageBuffer { ingestType := 2, index := 7, flashPage := sealedPage starts }) }
    else none
  parseFlashPage page := if page = sealedPage starts then some { chunks := [{ audioData := some (sealedAudio starts) }] } else none
  aesGcmDecrypt key nonce data :=
    if key = List.replicate 16 0 ∧ nonce = List.replicate 12 0 ∧
        data = (sealedBytes []).ciphertext ++ (sealedBytes []).authenticationTag then .ok sealedPlaintext
    else .error .invalidTag

/-- A key of zeros. -/
def zeroKeys : AudioKeySet := { aesKey := List.replicate 16 0 }

theorem sealed_at (starts : Bytes) :
    EncryptedChunkAt (sealedCodecs starts) [1, 2] (sealedMessage starts) 0 (sealedAudio starts) (sealedBytes starts) :=
  ⟨⟨_, _, _, _, if_pos rfl, rfl, List.mem_cons_of_mem 1 List.mem_cons_self, List.cons_ne_nil _ _, if_pos rfl, rfl, rfl⟩, rfl⟩

theorem sealed_decrypts (starts : Bytes) :
    decryptAudio (sealedCodecs starts) (convertAudio (sealedAudio starts)) zeroKeys.aesKey = .ok sealedPlaintext := rfl

theorem exists_newRecording : ∃ w writer, RecordingWriter.init { stem := "audio", suffix := ".opus" } 1 (fun _ => 7) = .ok w ∧
    w.sink = .ogg writer ∧ writer.moved.TakesPage := by
  obtain ⟨sink, hinit, hholding⟩ := RecordingWriter.init_eq_ok { stem := "audio", suffix := ".opus" } 1 fun _ => 7
  rw [show AudioBase.isOgg { stem := "audio", suffix := ".opus" } = true by decide +kernel] at hholding
  cases hholding with
  | ogg h => exact ⟨_, _, hinit, rfl, h.moved_takesPage (by decide)⟩

theorem boundaries_kept_sample : ∃ w writer c,
    RecordingWriter.init { stem := "audio", suffix := ".opus" } 1 (fun _ => 7) = .ok w ∧ w.sink = .ogg writer ∧
    (iterAudioChunksFromMessages (sealedCodecs [0]) (some zeroKeys) [1, 2] [sealedMessage [0]])[0]? = some c ∧
    KeepsBoundaries w writer c sealedPlaintext [0] := by
  obtain ⟨w, writer, hinit, hwriter, htakes⟩ := exists_newRecording
  obtain ⟨c, hc, hiff⟩ := boundaries_kept_iff (sealedCodecs [0]) zeroKeys [1, 2] (sealedMessage [0]) 0 (sealedAudio [0])
    (sealedBytes [0]) (sealed_at [0]) ⟨rfl, by decide, by decide⟩ sealedPlaintext (sealed_decrypts [0]) rfl w writer hwriter
  exact ⟨w, writer, c, hinit, hwriter, hc, hiff.mpr ⟨rfl, by decide, htakes⟩⟩

/-- Two packets in one chunk: the recording gets them as one. -/
theorem two_packets_become_one : ∃ w writer c,
    RecordingWriter.init { stem := "audio", suffix := ".opus" } 1 (fun _ => 7) = .ok w ∧ w.sink = .ogg writer ∧
    EncryptedChunkAt (sealedCodecs [0, 2]) [1, 2] (sealedMessage [0, 2]) 0 (sealedAudio [0, 2]) (sealedBytes [0, 2]) ∧
    PacketOffsets (sealedBytes [0, 2]).packetOffsets (sealedBytes [0, 2]).ciphertext.length ∧
    decryptAudio (sealedCodecs [0, 2]) (convertAudio (sealedAudio [0, 2])) zeroKeys.aesKey = .ok sealedPlaintext ∧
    (iterAudioChunksFromMessages (sealedCodecs [0, 2]) (some zeroKeys) [1, 2] [sealedMessage [0, 2]])[0]? = some c ∧
    packetsAt sealedPlaintext (sealedBytes [0, 2]).packetOffsets = [[0xB8, 0x01], [0xB8, 0x02]] ∧
    ¬KeepsBoundaries w writer c sealedPlaintext (sealedBytes [0, 2]).packetOffsets ∧
    ∃ writer', (w.add c).1.sink = .ogg writer' ∧ writer.Emits writer' [[0xB8, 0x01, 0xB8, 0x02]] := by
  obtain ⟨w, writer, hinit, hwriter, htakes⟩ := exists_newRecording
  obtain ⟨c, hc, hopus⟩ := (sealed_at [0, 2]).decoded (sealed_decrypts [0, 2])
  have hne : sealedPlaintext ≠ [] := by decide
  have hwhole : KeepsBoundaries w writer c sealedPlaintext [0] :=
    (keepsBoundaries_iff hwriter hopus hne).mpr ((OggOpusWriter.emits_addPacket_iff hne).mpr ⟨rfl, by decide, htakes⟩)
  refine ⟨w, writer, c, hinit, hwriter, sealed_at [0, 2], ⟨rfl, by decide, by decide⟩, sealed_decrypts [0, 2], hc, by decide,
    fun h => ?_, hwhole⟩
  have hone := ((OggOpusWriter.emits_addPacket_iff hne).mp ((keepsBoundaries_iff hwriter hopus hne).mp h)).1
  exact absurd hone (by decide)

end PendantClient
