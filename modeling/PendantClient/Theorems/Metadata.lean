import Mathlib.Data.Finset.Dedup
import PendantClient.Theorems.Recording

/-! What a recording's writer has noted after any sequence of chunks, whether `add` returned or raised for them. -/

namespace PendantClient

/-- The state of a writer after these chunks. A chunk that `add` raises for is not the last one passed to it. -/
def RecordingWriter.addAll (w : RecordingWriter) (chunks : List AudioChunk) : RecordingWriter :=
  chunks.foldl (fun w chunk => (w.add chunk).1) w

/-- What the writer holds describes these packets. -/
structure RecordingWriter.Describes (w : RecordingWriter) (packets : List AudioChunk) : Prop where
  first : ∀ c, packets.head? = some c → w.firstAbsoluteTimestampMs = c.absoluteChunkTimestampMs ∧
    w.firstReceivedUnixMs = c.receivedAtUnixMs ∧ w.firstPageIndex = some c.pageIndex
  last : ∀ c, packets.getLast? = some c → w.lastAbsoluteTimestampMs = c.absoluteChunkTimestampMs ∧
    w.lastReceivedUnixMs = c.receivedAtUnixMs ∧ w.lastPageIndex = some c.pageIndex
  chunkCount : w.chunkCount = packets.length
  ingestTypes : ∀ t, t ∈ w.ingestTypes ↔ ∃ c ∈ packets, c.ingestType = t
  storageSessionIds : ∀ n, n ∈ w.storageSessionIds ↔ ∃ c ∈ packets, c.storageSession = n
  runs : ∀ n, n ∈ w.runs ↔ ∃ c ∈ packets, c.run = n

/-- A recording's file that holds `held` packets takes these, one after the other. -/
def TakesAll (isOgg : Bool) (held : Nat) : List AudioChunk → Prop
  | [] => True
  | c :: cs => takesPacket isOgg held c.opus.length ∧ TakesAll isOgg (held + 1) cs

/-- The first packet has a time of the device; or none has, and the last cannot be told from the first by what is
    noted of both. -/
def FirstStays (packets : List AudioChunk) : Prop :=
  ∀ first last, packets.head? = some first → packets.getLast? = some last → first.absoluteChunkTimestampMs ≠ 0 ∨
    (∀ c ∈ packets, c.absoluteChunkTimestampMs = 0) ∧ last.receivedAtUnixMs = first.receivedAtUnixMs ∧
      last.pageIndex = first.pageIndex

/-- The writer has noted these packets, with their pages and the kinds of chunks they came in. -/
structure NotedPages (w : RecordingWriter) (packets : List AudioChunk) : Prop extends Noted w packets where
  firstPage : w.firstPageIndex = (firstListed packets).map (·.pageIndex)
  lastPage : w.lastPageIndex = packets.getLast?.map (·.pageIndex)
  ingestTypes : w.ingestTypes = (packets.map (·.ingestType)).toFinset
  storageSessionIds : w.storageSessionIds = (packets.map (·.storageSession)).toFinset
  runs : w.runs = (packets.map (·.run)).toFinset

section
variable {w : RecordingWriter} {packets : List AudioChunk} {chunk : AudioChunk}

theorem note_firstPage : (w.note chunk).firstPageIndex =
    if w.firstAbsoluteTimestampMs = 0 then some chunk.pageIndex else w.firstPageIndex := by
  unfold RecordingWriter.note
  dsimp only
  split <;> rfl

theorem note_sets : (w.note chunk).ingestTypes = insert chunk.ingestType w.ingestTypes ∧
    (w.note chunk).storageSessionIds = insert chunk.storageSession w.storageSessionIds ∧
    (w.note chunk).runs = insert chunk.run w.runs := by
  unfold RecordingWriter.note
  dsimp only
  split <;> exact ⟨rfl, rfl, rfl⟩

theorem NotedPages.start {index : Nat} {path : String} {sink : Sink} :
    NotedPages { recordingIndex := index, path, sink } [] :=
  ⟨⟨rfl, rfl, rfl, rfl, rfl⟩, rfl, rfl, rfl, rfl, rfl⟩

theorem toFinset_map_snoc (f : AudioChunk → Int) :
    ((packets ++ [chunk]).map f).toFinset = insert (f chunk) (packets.map f).toFinset := by
  rw [List.map_append, List.toFinset_append, Finset.union_comm, List.map_singleton, List.toFinset_cons, List.toFinset_nil,
    LawfulSingleton.insert_empty_eq, Finset.insert_eq]

theorem NotedPages.note (h : NotedPages w packets) (chunk : AudioChunk) :
    NotedPages (w.note chunk) (packets ++ [chunk]) where
  toNoted := h.toNoted.note chunk
  firstPage := by
    rw [note_firstPage, firstListed_snoc, h.firstAbsolute, h.firstPage]
    split <;> rfl
  lastPage := by
    rw [List.getLast?_concat]
    rfl
  ingestTypes := by rw [note_sets.1, h.ingestTypes, toFinset_map_snoc]
  storageSessionIds := by rw [note_sets.2.1, h.storageSessionIds, toFinset_map_snoc]
  runs := by rw [note_sets.2.2, h.runs, toFinset_map_snoc]

theorem firstListed_of_time {first : AudioChunk} (h : first.absoluteChunkTimestampMs ≠ 0) (rest : List AudioChunk) :
    firstListed (first :: rest) = some first := by
  rw [firstListed, List.find?_cons_of_pos (by simpa using h), Option.some_or]

theorem firstListed_of_none (h : packets.find? (fun c => c.absoluteChunkTimestampMs ≠ 0) = none) :
    firstListed packets = packets.getLast? := by
  rw [firstListed, h, Option.none_or]

/-- A writer that has noted all packets describes them if its first packet is not noted anew by a later one. -/
theorem NotedPages.describes_iff (h : NotedPages w packets) (hne : packets ≠ []) :
    w.Describes packets ↔ FirstStays packets := by
  obtain ⟨first, rest, rfl⟩ := List.exists_cons_of_ne_nil hne
  constructor
  · intro hdescribes c last hfirst hlast
    obtain rfl : first = c := Option.some_inj.mp hfirst
    obtain ⟨habsolute, hreceived, hpage⟩ := hdescribes.first first rfl
    rcases Nat.eq_zero_or_pos first.absoluteChunkTimestampMs with hzero | hpos
    · -- the first is noted anew to the end, so nothing has a time
      rw [hzero, h.firstAbsolute] at habsolute
      have hnone := find?_eq_none_of_first habsolute
      rw [h.firstReceived, firstListed_of_none hnone, hlast] at hreceived
      rw [h.firstPage, firstListed_of_none hnone, hlast] at hpage
      refine .inr ⟨fun c hc => ?_, hreceived, Option.some_inj.mp hpage⟩
      simpa using List.find?_eq_none.mp hnone c hc
    · exact .inl (Nat.ne_of_gt hpos)
  · intro hstays
    have hlast : (first :: rest).getLast? = some ((first :: rest).getLast hne) := List.getLast?_eq_some_getLast hne
    refine ⟨fun c hc => ?_, fun c hc => ?_, h.chunkCount, fun t => ?_, fun n => ?_, fun n => ?_⟩
    · obtain rfl : first = c := Option.some_inj.mp hc
      rw [h.firstAbsolute, h.firstReceived, h.firstPage]
      rcases hstays first _ rfl hlast with htime | ⟨hzero, hreceived, hpage⟩
      · rw [firstListed_of_time htime]
        exact ⟨rfl, rfl, rfl⟩
      · have hnone : (first :: rest).find? (fun c => c.absoluteChunkTimestampMs ≠ 0) = none := by
          simpa using hzero
        rw [firstListed_of_none hnone, hlast, ← hreceived, ← hpage]
        refine ⟨?_, rfl, rfl⟩
        rw [hzero first List.mem_cons_self]
        exact hzero _ (List.getLast_mem hne)
    · rw [h.lastAbsolute, h.lastReceived, h.lastPage, hc]
      exact ⟨rfl, rfl, rfl⟩
    · rw [h.ingestTypes, List.mem_toFinset, List.mem_map]
    · rw [h.storageSessionIds, List.mem_toFinset, List.mem_map]
    · rw [h.runs, List.mem_toFinset, List.mem_map]

/-! ### A sequence of chunks -/

theorem addAll_cons (w : RecordingWriter) (chunk : AudioChunk) (chunks : List AudioChunk) :
    w.addAll (chunk :: chunks) = (w.add chunk).1.addAll chunks := rfl

/-- `add` counts a chunk at most once, and none without a packet. -/
theorem chunkCount_add_le (w : RecordingWriter) (chunk : AudioChunk) :
    (w.add chunk).1.chunkCount ≤ w.chunkCount + ([chunk].filter AudioChunk.hasPacket).length := by
  rw [RecordingWriter.add, List.filter_singleton, AudioChunk.hasPacket]
  cases chunk.opus.isEmpty with
  | true => exact Nat.le_refl _
  | false =>
    rw [if_neg (by decide)]
    split
    · exact Nat.le_succ _
    · exact Nat.le_of_eq note_count

theorem chunkCount_addAll_le (chunks : List AudioChunk) : ∀ w : RecordingWriter,
    (w.addAll chunks).chunkCount ≤ w.chunkCount + (chunks.filter AudioChunk.hasPacket).length := by
  induction chunks with
  | nil => exact fun w => Nat.le_refl _
  | cons chunk chunks ih =>
    intro w
    have hone := chunkCount_add_le w chunk
    have hrest := ih (w.add chunk).1
    have hsplit : (chunk :: chunks).filter AudioChunk.hasPacket =
        [chunk].filter AudioChunk.hasPacket ++ chunks.filter AudioChunk.hasPacket := List.filter_append [chunk] chunks
    rw [addAll_cons, hsplit, List.length_append]
    omega

/-- A writer notes all packets if its file takes them all, and counts too few otherwise. -/
theorem addAll_spec {isOgg : Bool} (chunks : List AudioChunk) : ∀ (w : RecordingWriter) (packets : List AudioChunk),
    w.sink.Holding false (packets.map AudioChunk.opus) isOgg → NotedPages w packets →
    (TakesAll isOgg packets.length (chunks.filter AudioChunk.hasPacket) →
      NotedPages (w.addAll chunks) (packets ++ chunks.filter AudioChunk.hasPacket)) ∧
    (¬TakesAll isOgg packets.length (chunks.filter AudioChunk.hasPacket) →
      (w.addAll chunks).chunkCount < packets.length + (chunks.filter AudioChunk.hasPacket).length) := by
  induction chunks with
  | nil =>
    intro w packets _ hnoted
    refine ⟨fun _ => ?_, fun h => absurd trivial h⟩
    rw [List.filter_nil, List.append_nil]
    exact hnoted
  | cons chunk chunks ih =>
    intro w packets hsink hnoted
    rw [addAll_cons]
    cases hempty : chunk.opus.isEmpty with
    | true =>
      have hskip : (w.add chunk).1 = w := by rw [RecordingWriter.add, hempty, if_pos rfl]
      rw [hskip, List.filter_cons_of_neg (by rw [AudioChunk.hasPacket, hempty]; decide)]
      exact ih w packets hsink hnoted
    | false =>
      rw [List.filter_cons_of_pos (by rw [AudioChunk.hasPacket, hempty]; rfl)]
      have hpacket : chunk.opus ≠ [] := by simpa using hempty
      obtain ⟨htaken, hrefused⟩ := hsink.add hpacket
      rw [List.length_map] at htaken hrefused
      by_cases htakes : takesPacket isOgg packets.length chunk.opus.length
      · obtain ⟨sink, hadd, hsink'⟩ := htaken htakes
        have hnext : (w.add chunk).1 = { w with sink }.note chunk := by
          rw [RecordingWriter.add, hempty, if_neg (by decide), hadd]
        have hnoted' : NotedPages { w with sink } packets :=
          ⟨⟨hnoted.chunkCount, hnoted.firstAbsolute, hnoted.firstReceived, hnoted.lastAbsolute, hnoted.lastReceived⟩,
            hnoted.firstPage, hnoted.lastPage, hnoted.ingestTypes, hnoted.storageSessionIds, hnoted.runs⟩
        obtain ⟨hall, hsome⟩ := ih ({ w with sink }.note chunk) (packets ++ [chunk])
          (by rw [(note_keeps _ _).2.2, List.map_append]; exact hsink') (hnoted'.note chunk)
        rw [List.length_append, List.length_singleton] at hall hsome
        rw [hnext, List.append_cons]
        refine ⟨fun h => hall h.2, fun h => ?_⟩
        have := hsome fun hrest => h ⟨htakes, hrest⟩
        rw [List.length_cons]
        omega
      · obtain ⟨sink, e, hadd, -⟩ := hrefused htakes
        have hnext : (w.add chunk).1 = { w with sink } := by
          rw [RecordingWriter.add, hempty, if_neg (by decide), hadd]
        refine ⟨fun h => absurd h.1 htakes, fun _ => ?_⟩
        -- the refused packet is never made up for
        have hrest := chunkCount_addAll_le chunks { w with sink }
        have hcount : ({ w with sink } : RecordingWriter).chunkCount = packets.length := hnoted.chunkCount
        rw [hnext, List.length_cons]
        omega

end

/-- Whatever chunks are passed to `add`, a writer describes those with packets exactly if its file takes them all and
    the first is not noted anew. -/
theorem metadata_describes_iff (base : AudioBase) (index : Nat) (urandom : Fin 4 → UInt8) (chunks : List AudioChunk) :
    ∃ w, RecordingWriter.init base index urandom = .ok w ∧
      ((chunks.filter AudioChunk.hasPacket ≠ [] → (w.addAll chunks).Describes (chunks.filter AudioChunk.hasPacket)) ↔
        TakesAll base.isOgg 0 (chunks.filter AudioChunk.hasPacket) ∧ FirstStays (chunks.filter AudioChunk.hasPacket)) := by
  obtain ⟨sink, hinit, hholding⟩ := RecordingWriter.init_eq_ok base index urandom
  refine ⟨_, hinit, ?_⟩
  obtain ⟨hall, hsome⟩ :=
    addAll_spec chunks { recordingIndex := index, path := base.recordingPath index, sink } [] hholding .start
  rw [List.nil_append] at hall
  by_cases htakes : TakesAll base.isOgg 0 (chunks.filter AudioChunk.hasPacket)
  · by_cases hempty : chunks.filter AudioChunk.hasPacket = []
    · refine iff_of_true (fun hne => absurd hempty hne) ⟨htakes, fun c _ hfirst => ?_⟩
      rw [hempty] at hfirst
      cases hfirst
    · rw [(hall htakes).describes_iff hempty]
      exact ⟨fun h => ⟨htakes, h hempty⟩, fun h _ => h.2⟩
  · refine iff_of_false (fun h => ?_) fun h => htakes h.1
    have hne : chunks.filter AudioChunk.hasPacket ≠ [] := by
      intro hempty
      rw [hempty] at htakes
      exact htakes trivial
    have hless := hsome htakes
    rw [(h hne).chunkCount, List.length_nil] at hless
    omega

/-- A chunk that is sent before the device's clock is set, and the next one. -/
def clockSetLater : List AudioChunk :=
  [{ chunk := { audio := some { opusPackets := [1] } }, pageIndex := 7, receivedAtUnixMs := 100 },
    { chunk := { audio := some { opusPackets := [2] } }, pageIndex := 8, receivedAtUnixMs := 200, absoluteTimestampMs := 5000 }]

/-- The recording of both starts with the second. -/
theorem first_is_noted_anew : ∃ w, RecordingWriter.init { stem := "audio", suffix := ".opus" } 1 (fun _ => 0) = .ok w ∧
    ((w.addAll clockSetLater).firstAbsoluteTimestampMs, (w.addAll clockSetLater).firstPageIndex) = (5000, some 8) ∧
    ¬(w.addAll clockSetLater).Describes (clockSetLater.filter AudioChunk.hasPacket) := by
  have hvalue : (RecordingWriter.init { stem := "audio", suffix := ".opus" } 1 fun _ => 0).toOption.map
      (fun w => ((w.addAll clockSetLater).firstAbsoluteTimestampMs, (w.addAll clockSetLater).firstPageIndex)) =
      some (5000, some 8) := by decide +kernel
  obtain ⟨w, hinit, hnoted⟩ := Option.map_eq_some_iff.mp hvalue
  refine ⟨w, toOption_eq_some.mp hinit, hnoted, fun h => ?_⟩
  have hfirst := (h.first _ rfl).2.2
  rw [(Prod.mk.inj hnoted).2] at hfirst
  exact absurd hfirst (by decide)

end PendantClient
