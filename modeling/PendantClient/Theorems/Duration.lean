import Mathlib.Tactic.NormNum
import Mathlib.Tactic.Linarith
import PendantClient.Theorems.Sidecars

/-! How long a recording lasts: by its entry in the manifest, by the Ogg file itself and by `enroll_voice`. -/

namespace PendantClient

/-- The milliseconds that an Ogg Opus file declares: the granule position of its last page, counted at 48 kHz. The
    header of a recording has no samples skipped in front. -/
def declaredMs (file : Bytes) : Option ℚ :=
  (OggPage.readFile file).bind fun pages => pages.getLast?.map fun last => (last.granule : ℚ) * 1000 / 48000

/-- Chunks added one after another, up to the first that `add` raises for. -/
def RecordingWriter.addUntil (w : RecordingWriter) : List AudioChunk → RecordingWriter × Option PyError
  | [] => (w, none)
  | chunk :: chunks =>
    match w.add chunk with
    | (w, none) => addUntil w chunks
    | (w, some e) => (w, some e)

/-- The entry, the file and `enroll_voice` give the recording one duration. -/
structure DurationsAgree (w : RecordingWriter) (entry : ManifestRecording) : Prop where
  file : declaredMs w.sink.written = some (entry.approxDurationMs : ℚ)
  enrolled : 1000 * enrollDurationSec w = entry.approxDurationMs

/-! ### The file -/

namespace OggOpusWriter
variable {w : OggOpusWriter} {refused : Bool} {packets : List Bytes}

theorem getLast?_pagesOf {serial : Nat} (entries : List Entry) (e : Entry) :
    (pagesOf serial (entries ++ [e])).getLast? = some (e.page serial entries.length) := by
  rw [pagesOf_concat, List.getLast?_concat]

/-- A closed file declares 20 ms for each packet, also for one that it has refused. -/
theorem Holding.declaredMs (h : w.Holding refused packets) (hlt : packets.length + 2 < 2 ^ 32) :
    declaredMs w.close.written = some (20 * ((packets.length + refused.toNat : Nat) : ℚ)) := by
  have hgranule := h.granule
  have hms (n : Nat) : (((samplesPerFrame * n : Nat) : Int) : ℚ) * 1000 / 48000 = 20 * (n : ℚ) := by
    rw [samplesPerFrame]
    push_cast
    ring
  obtain ⟨head, tags, ends, -, -, hread, hcases⟩ := h.close_written
  rw [PendantClient.declaredMs, hread, Option.bind_some]
  rcases hcases with ⟨hzero, rfl, -⟩ | ⟨-, -, rfl, -⟩ | ⟨-, hge, -, -⟩
  · -- the last page is that of the tags
    have hnone : packets.length + refused.toNat = 0 := by
      rw [hgranule, samplesPerFrame] at hzero
      omega
    obtain rfl : packets = [] := List.length_eq_zero_iff.mp (by omega)
    have hentries : recordingEntries head tags [] =
        [⟨headerType true false, 0, head⟩] ++ [⟨headerType false false, 0, tags⟩] := rfl
    rw [hnone, List.append_nil, hentries, getLast?_pagesOf, ← hms]
    rfl
  · rw [getLast?_pagesOf, ← hms, ← hgranule]
    rfl
  · omega

end OggOpusWriter

/-! ### The recording -/

section
variable {w : RecordingWriter} {chunk : AudioChunk} {chunks : List AudioChunk}

theorem addUntil_ok {w' : RecordingWriter} (h : w.add chunk = (w', none)) : w.addUntil (chunk :: chunks) = w'.addUntil chunks := by
  rw [RecordingWriter.addUntil, h]

theorem addUntil_error {w' : RecordingWriter} {e : PyError} (h : w.add chunk = (w', some e)) :
    w.addUntil (chunk :: chunks) = (w', some e) := by
  rw [RecordingWriter.addUntil, h]

/-- A recording counts the packets in its Ogg file. No packet is there and none was refused only if no chunk has one. -/
theorem addUntil_spec (chunks : List AudioChunk) : ∀ (w : RecordingWriter) (packets : List Bytes),
    w.sink.Holding false packets true → w.chunkCount = packets.length →
    ∃ refused more, (w.addUntil chunks).1.sink.Holding refused (packets ++ more) true ∧
      (w.addUntil chunks).1.chunkCount = (packets ++ more).length ∧
      (refused = false ∧ more = [] ↔ ∀ c ∈ chunks, c.opus = []) := by
  induction chunks with
  | nil =>
    intro w packets hsink hcount
    refine ⟨false, [], ?_, ?_, fun _ _ hc => absurd hc List.not_mem_nil, fun _ => ⟨rfl, rfl⟩⟩
    · rwa [List.append_nil]
    · rwa [List.append_nil]
  | cons chunk chunks ih =>
    intro w packets hsink hcount
    by_cases hempty : chunk.opus = []
    · have hskip : w.add chunk = (w, none) := by rw [RecordingWriter.add, if_pos (by rw [hempty]; rfl)]
      rw [addUntil_ok hskip]
      obtain ⟨refused, more, hholding, hlength, hiff⟩ := ih w packets hsink hcount
      refine ⟨refused, more, hholding, hlength, hiff.trans ?_⟩
      rw [List.forall_mem_cons]
      exact (and_iff_right hempty).symm
    · have hnot : ¬∀ c ∈ chunk :: chunks, c.opus = [] := fun h => hempty (h chunk List.mem_cons_self)
      have hne : ¬chunk.opus.isEmpty = true := by simpa using hempty
      obtain ⟨htaken, hrefused⟩ := hsink.add hempty
      by_cases htakes : takesPacket true packets.length chunk.opus.length
      · obtain ⟨sink, hadd, hsink'⟩ := htaken htakes
        have hnext : w.add chunk = ({ w with sink }.note chunk, none) := by rw [RecordingWriter.add, if_neg hne, hadd]
        rw [addUntil_ok hnext]
        obtain ⟨refused, more, hholding, hlength, -⟩ := ih ({ w with sink }.note chunk) (packets ++ [chunk.opus])
          (by rw [(note_keeps _ _).2.2]; exact hsink')
          (by rw [note_count, List.length_append, List.length_singleton]; exact congrArg (· + 1) hcount)
        rw [← List.append_cons] at hholding hlength
        exact ⟨refused, chunk.opus :: more, hholding, hlength, iff_of_false (fun h => List.cons_ne_nil _ _ h.2) hnot⟩
      · obtain ⟨sink, e, hadd, hsink'⟩ := hrefused htakes
        have hnext : w.add chunk = ({ w with sink }, some e) := by rw [RecordingWriter.add, if_neg hne, hadd]
        rw [addUntil_error hnext]
        refine ⟨true, [], ?_, ?_, iff_of_false (fun h => Bool.noConfusion h.1) hnot⟩
        · rwa [List.append_nil]
        · rwa [List.append_nil]

theorem approxDurationMs_eq {clock : Clock} {base : AudioBase} {entry : ManifestRecording}
    (h : manifestRecording clock base w = .ok entry) : entry.approxDurationMs = 60 * w.chunkCount := by
  obtain ⟨_, -, h⟩ := bind_eq_ok.mp h
  obtain ⟨_, -, h⟩ := bind_eq_ok.mp h
  cases h
  show w.chunkCount * OggOpusWriter.samplesPerFrame * 1000 / OggOpusWriter.sampleRate = _
  rw [OggOpusWriter.samplesPerFrame, OggOpusWriter.sampleRate]
  omega

end

/-- The durations of an Ogg recording agree only if none of its chunks has a packet. -/
theorem durations_agree_iff (base : AudioBase) (hogg : base.isOgg = true) (index : Nat) (urandom : Fin 4 → UInt8)
    (clock : Clock) (chunks : List AudioChunk) (w : RecordingWriter) (hinit : RecordingWriter.init base index urandom = .ok w)
    (entry : ManifestRecording) (hentry : manifestRecording clock base (w.addUntil chunks).1.close = .ok entry) :
    DurationsAgree (w.addUntil chunks).1.close entry ↔ ∀ c ∈ chunks, c.opus = [] := by
  have hnew : w.sink.Holding false [] true ∧ w.chunkCount = 0 := by
    obtain ⟨sink, hok, hholding⟩ := RecordingWriter.init_eq_ok base index urandom
    rw [hok] at hinit
    cases hinit
    exact ⟨hogg ▸ hholding, rfl⟩
  obtain ⟨refused, packets, hend, hcount, hiff⟩ := addUntil_spec chunks w [] hnew.1 hnew.2
  rw [List.nil_append] at hend hcount
  rw [← hiff]
  have hms := approxDurationMs_eq hentry
  have hcount' : (w.addUntil chunks).1.close.chunkCount = packets.length := hcount
  rw [hcount'] at hms
  have hfile (hnone : packets = []) : declaredMs (w.addUntil chunks).1.close.sink.written = some (20 * (refused.toNat : ℚ)) := by
    show declaredMs (w.addUntil chunks).1.sink.close.written = _
    generalize (w.addUntil chunks).1.sink = sink at hend ⊢
    cases hend with
    | ogg h =>
      subst hnone
      have := h.declaredMs (by decide)
      rwa [List.length_nil, Nat.zero_add] at this
  constructor
  · intro h
    -- 60 ms a packet are 20 ms a packet only if there is none
    have hnone : packets = [] := by
      have henrolled := h.enrolled
      rw [enrollDurationSec, hcount', hms] at henrolled
      push_cast at henrolled
      have : (packets.length : ℚ) = 0 := by linarith
      exact List.length_eq_zero_iff.mp (by exact_mod_cast this)
    have hdeclared := h.file
    rw [hfile hnone, hms, hnone] at hdeclared
    refine ⟨?_, hnone⟩
    cases refused with
    | false => rfl
    | true => norm_num at hdeclared
  · rintro ⟨rfl, rfl⟩
    refine ⟨?_, ?_⟩
    · rw [hfile rfl, hms]
      norm_num
    · rw [enrollDurationSec, hcount', hms]
      norm_num

theorem exists_onePacket : ∃ w entry, RecordingWriter.init oggBase 1 (fun _ => 7) = .ok w ∧
    manifestRecording Utc.clock oggBase (w.addUntil [startChunk]).1.close = .ok entry ∧
    (entry.approxDurationMs, declaredMs (w.addUntil [startChunk]).1.close.sink.written,
      1000 * enrollDurationSec (w.addUntil [startChunk]).1.close) = (60, some 20, 20) := by
  have hvalue : (RecordingWriter.init oggBase 1 fun _ => 7).toOption.bind (fun w =>
      (manifestRecording Utc.clock oggBase (w.addUntil [startChunk]).1.close).toOption.map fun entry =>
        (entry.approxDurationMs, declaredMs (w.addUntil [startChunk]).1.close.sink.written,
          1000 * enrollDurationSec (w.addUntil [startChunk]).1.close)) = some (60, some 20, 20) := by decide +kernel
  obtain ⟨w, hinit, hvalue⟩ := Option.bind_eq_some_iff.mp hvalue
  obtain ⟨entry, hentry, hvalue⟩ := Option.map_eq_some_iff.mp hvalue
  exact ⟨w, entry, toOption_eq_some.mp hinit, toOption_eq_some.mp hentry, hvalue⟩

theorem durations_agree_iff_sample : ∃ w entry, RecordingWriter.init oggBase 1 (fun _ => 7) = .ok w ∧
    manifestRecording Utc.clock oggBase (w.addUntil [startChunk]).1.close = .ok entry ∧
    (DurationsAgree (w.addUntil [startChunk]).1.close entry ↔ ∀ c ∈ [startChunk], c.opus = []) := by
  obtain ⟨w, entry, hinit, hentry, -⟩ := exists_onePacket
  exact ⟨w, entry, hinit, hentry, durations_agree_iff oggBase (by decide +kernel) 1 (fun _ => 7) Utc.clock [startChunk] w hinit
    entry hentry⟩

/-- One packet lasts 60 ms by the manifest, 20 ms by the file and by `enroll_voice`. -/
theorem one_packet_durations : ∃ w entry, RecordingWriter.init oggBase 1 (fun _ => 7) = .ok w ∧
    manifestRecording Utc.clock oggBase (w.addUntil [startChunk]).1.close = .ok entry ∧
    (entry.approxDurationMs, declaredMs (w.addUntil [startChunk]).1.close.sink.written,
      1000 * enrollDurationSec (w.addUntil [startChunk]).1.close) = (60, some 20, 20) ∧
    ¬DurationsAgree (w.addUntil [startChunk]).1.close entry := by
  obtain ⟨w, entry, hinit, hentry, hvalue⟩ := exists_onePacket
  refine ⟨w, entry, hinit, hentry, hvalue, fun h => ?_⟩
  have henrolled := h.enrolled
  rw [(Prod.mk.inj (Prod.mk.inj hvalue).2).2, (Prod.mk.inj hvalue).1] at henrolled
  norm_num at henrolled

end PendantClient
