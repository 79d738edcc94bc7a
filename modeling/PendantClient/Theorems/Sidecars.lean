import PendantClient.Theorems.KeptFiles

/-! The sidecar files: when they are written, and when the manifest's total is the sum over its recordings. -/

namespace PendantClient

/-! ### Traversals that may fail -/

section
variable {α β γ ε : Type} {f : α → Except ε β} {xs : List α}

theorem mapM_congr {m : Type → Type} [Monad m] [LawfulMonad m] {f g : α → m β} (h : ∀ x ∈ xs, f x = g x) : xs.mapM f = xs.mapM g := by
  induction xs with
  | nil => rfl
  | cons x xs ih =>
    rw [List.mapM_cons, List.mapM_cons, h x List.mem_cons_self, ih fun y hy => h y (List.mem_cons_of_mem x hy)]

theorem exists_mapM_ok : (∃ ys, xs.mapM f = .ok ys) ↔ ∀ x ∈ xs, ∃ y, f x = .ok y := by
  induction xs with
  | nil => exact ⟨fun _ => nofun, fun _ => ⟨[], rfl⟩⟩
  | cons x xs ih =>
    rw [List.mapM_cons, List.forall_mem_cons, ← ih]
    constructor
    · rintro ⟨ys, h⟩
      obtain ⟨y, hy, h⟩ := bind_eq_ok.mp h
      obtain ⟨ys', hys, -⟩ := bind_eq_ok.mp h
      exact ⟨⟨y, hy⟩, ys', hys⟩
    · rintro ⟨⟨y, hy⟩, ys, hys⟩
      exact ⟨y :: ys, by rw [hy, ok_bind, hys]; rfl⟩

theorem map_of_mapM_ok {g : β → γ} {h : α → γ} (heq : ∀ x y, f x = .ok y → g y = h x) : ∀ {ys : List β},
    xs.mapM f = .ok ys → ys.map g = xs.map h := by
  induction xs with
  | nil =>
    intro ys hys
    cases hys
    rfl
  | cons x xs ih =>
    intro ys hys
    rw [List.mapM_cons] at hys
    obtain ⟨y, hy, hys⟩ := bind_eq_ok.mp hys
    obtain ⟨ys', hys', hys⟩ := bind_eq_ok.mp hys
    cases hys
    rw [List.map_cons, List.map_cons, heq x y hy, ih hys']

end

/-! ### When the sidecars are written -/

/-- A time that `datetime` can represent. -/
def Clock.InYears (clock : Clock) (ms : Int) : Prop := 1 ≤ clock.year ms ∧ clock.year ms ≤ 9999

/-- A recording with these packets can be listed: the times of its first and its last listed chunk are in range. -/
def Clock.CanList (clock : Clock) (packets : List AudioChunk) : Prop :=
  ∀ c, firstListed packets = some c ∨ packets.getLast? = some c → clock.InYears c.time

section
variable {clock : Clock} {base : AudioBase} {info : SyncInfo} {w : RecordingWriter} {ms : Int}

theorem exists_isoformat : (∃ text, clock.isoformat ms = .ok text) ↔ clock.InYears ms := by
  have hraises := clock.raises_iff ms
  cases h : clock.isoformat ms with
  | ok text => exact ⟨fun _ => by_contra fun hnot => by simpa [h] using hraises.mpr hnot, fun _ => ⟨text, rfl⟩⟩
  | error e => exact ⟨nofun, fun hin => absurd hin (hraises.mp ⟨e, h⟩)⟩

theorem exists_manifestRecording : (∃ entry, manifestRecording clock base w = .ok entry) ↔
    clock.InYears (stampTime w.firstAbsoluteTimestampMs w.firstReceivedUnixMs) ∧
      clock.InYears (stampTime w.lastAbsoluteTimestampMs w.lastReceivedUnixMs) := by
  rw [← exists_isoformat, ← exists_isoformat, manifestRecording]
  constructor
  · rintro ⟨entry, h⟩
    obtain ⟨first, hfirst, h⟩ := bind_eq_ok.mp h
    obtain ⟨last, hlast, -⟩ := bind_eq_ok.mp h
    exact ⟨⟨first, hfirst⟩, last, hlast⟩
  · rintro ⟨⟨first, hfirst⟩, last, hlast⟩
    exact ⟨_, by dsimp only; rw [hfirst, ok_bind, hlast, ok_bind]⟩

theorem manifestRecording_chunks {entry : ManifestRecording} (h : manifestRecording clock base w = .ok entry) :
    entry.chunks = w.chunkCount := by
  rw [manifestRecording] at h
  obtain ⟨first, -, h⟩ := bind_eq_ok.mp h
  obtain ⟨last, -, h⟩ := bind_eq_ok.mp h
  cases h
  rfl

variable {recordings : List RecordingWriter} {events : List Event} {nAudio nEvents : Nat}

theorem syncManifest_eq_ok {m : Manifest} (h : syncManifest clock base info recordings nAudio nEvents = .ok m) :
    m.totalAudioChunks = nAudio ∧ m.recordings.map ManifestRecording.chunks = recordings.map RecordingWriter.chunkCount := by
  obtain ⟨entries, hentries, h⟩ := bind_eq_ok.mp h
  obtain ⟨finished, -, h⟩ := bind_eq_ok.mp h
  cases h
  exact ⟨rfl, map_of_mapM_ok (fun _ _ => manifestRecording_chunks) hentries⟩

/-- The sidecars are written unless a listed time is out of range; the time of the sync itself is not. -/
theorem exists_writeSyncManifest : (∃ sidecars, writeSyncManifest clock base info recordings events nAudio nEvents = .ok sidecars) ↔
    ∀ w ∈ recordings, ∃ entry, manifestRecording clock base w = .ok entry := by
  rw [← exists_mapM_ok]
  constructor
  · rintro ⟨sidecars, h⟩
    obtain ⟨m, hm, -⟩ := bind_eq_ok.mp h
    obtain ⟨entries, hentries, -⟩ := bind_eq_ok.mp hm
    exact ⟨entries, hentries⟩
  · rintro ⟨entries, hentries⟩
    obtain ⟨finished, hfinished⟩ := exists_isoformat.mpr clock.now_ok
    exact ⟨_, by rw [writeSyncManifest, syncManifest, hentries, ok_bind, hfinished, ok_bind, ok_bind]⟩

end

/-! ### The sidecars on disk -/

section
variable {sidecars : List (Path × Sidecar)} {path : Path}

theorem writeSidecarFiles_other (h : path ∉ sidecars.map Prod.fst) {files : Files} :
    writeSidecarFiles files sidecars path = files path := by
  induction sidecars generalizing files with
  | nil => rfl
  | cons sidecar sidecars ih =>
    obtain ⟨hne, hrest⟩ := not_or.mp (mt List.mem_cons.mpr h)
    exact (ih hrest).trans (Function.update_of_ne hne _ _)

theorem writeSidecarFiles_mem (hnodup : (sidecars.map Prod.fst).Nodup) {sidecar : Path × Sidecar} (h : sidecar ∈ sidecars)
    {files : Files} : writeSidecarFiles files sidecars sidecar.1 = some sidecar.2.content := by
  induction sidecars generalizing files with
  | nil => exact absurd h List.not_mem_nil
  | cons first sidecars ih =>
    obtain ⟨hfirst, hnodup⟩ := List.nodup_cons.mp hnodup
    rcases List.mem_cons.mp h with rfl | h
    · exact (writeSidecarFiles_other hfirst).trans (Function.update_self _ _ _)
    · exact ih hnodup h

end

/-! ### When a run writes them -/

/-- Both sidecars have been written, and nothing else. -/
def SidecarsWritten {ε : Type} (base : AudioBase) (o : Decoded ε) : Prop :=
  ∃ m events, o.sidecars = [(base.sidecarPath ".manifest.json", .manifest m), (base.sidecarPath ".events.json", .events events)]

section
variable {clock : Clock} {base : AudioBase} {r : Recorder AudioChunk} {o : Outputs} {v : Writer AudioChunk}
  {w : RecordingWriter} {index : Nat}

theorem RecordsAt.exists_entry (h : RecordsAt base index v w) (hne : v.packets ≠ []) :
    (∃ entry, manifestRecording clock base w = .ok entry) ↔ clock.CanList v.packets := by
  obtain ⟨first, last, hfirst, hlast, hfirstTime, hlastTime⟩ := h.noted.times hne
  rw [exists_manifestRecording, hfirstTime, hlastTime, Clock.CanList, hfirst, hlast]
  constructor
  · rintro ⟨hin, hin'⟩ c (hc | hc)
    · exact Option.some.inj hc ▸ hin
    · exact Option.some.inj hc ▸ hin'
  · exact fun hall => ⟨hall first (.inl rfl), hall last (.inr rfl)⟩

theorem RecordsAt.chunkCount_eq_zero (h : RecordsAt base index v w) : w.chunkCount = 0 ↔ v.packets = [] := by
  rw [h.noted.chunkCount, List.length_eq_zero_iff]

/-- The recordings left after pruning can be listed just when those with packets can. -/
theorem Settled.exists_entries (h : Settled base r o) :
    (∀ w ∈ o.prune.recordings, ∃ entry, manifestRecording clock base w = .ok entry) ↔
      ∀ v ∈ r.writers, v.packets ≠ [] → clock.CanList v.packets := by
  constructor
  · intro hall v hv hne
    obtain ⟨i, hi⟩ := List.getElem?_of_mem hv
    obtain ⟨w, hw, hclosed⟩ := h.recordings.exists_right hi
    have hkept := mem_prune_recordings.mpr ⟨List.mem_of_getElem? hw, fun hzero => hne (hclosed.chunkCount_eq_zero.mp hzero)⟩
    exact (hclosed.exists_entry hne).mp (hall w hkept)
  · intro hall w hw
    obtain ⟨hmem, hcount⟩ := mem_prune_recordings.mp hw
    obtain ⟨i, v, hv, -, hclosed⟩ := h.recordings.exists_of_mem hmem
    have hne : v.packets ≠ [] := fun hnone => hcount (hclosed.chunkCount_eq_zero.mpr hnone)
    exact (hclosed.exists_entry hne).mpr (hall v (List.mem_of_getElem? hv) hne)

end

section
variable {ε : Type} {base : AudioBase} {urandom : Nat → Fin 4 → UInt8} {clock : Clock} {info : SyncInfo} {files : Files}
  {chunks : List AudioChunk} {ending : Option ε}

/-- What a run leaves behind when its sidecars can be written. -/
theorem decode_written {sidecars : List (Path × Sidecar)}
    (h : (Decoding.atManifest base urandom files chunks ending).1.writeSidecars clock base info = .ok sidecars) :
    (decodeChunksIntoFiles base urandom clock info files chunks ending).sidecars = sidecars ∧
      (decodeChunksIntoFiles base urandom clock info files chunks ending).raised =
        (Decoding.atManifest base urandom files chunks ending).2 := by
  rw [decodeChunksIntoFiles]
  dsimp only
  rw [h]
  refine ⟨rfl, ?_⟩
  rw [Decoded.raised]
  cases (Decoding.atManifest base urandom files chunks ending).2 <;> rfl

/-- An exception of the manifest takes the place of the run's own, and no sidecar is written. -/
theorem decode_masked {e : PyError}
    (h : (Decoding.atManifest base urandom files chunks ending).1.writeSidecars clock base info = .error e) :
    (decodeChunksIntoFiles base urandom clock info files chunks ending).sidecars = [] ∧
      (decodeChunksIntoFiles base urandom clock info files chunks ending).raised = some (.own e) := by
  rw [decodeChunksIntoFiles]
  dsimp only
  rw [h]
  exact ⟨rfl, rfl⟩

variable (base urandom clock info files chunks ending) in
/-- The paths of the sidecars that a run has written. -/
theorem sidecars_paths : (decodeChunksIntoFiles base urandom clock info files chunks ending).sidecars.map Prod.fst = [] ∨
    (decodeChunksIntoFiles base urandom clock info files chunks ending).sidecars.map Prod.fst = base.sidecarPaths := by
  cases hwrite : (Decoding.atManifest base urandom files chunks ending).1.writeSidecars clock base info with
  | error e => exact .inl (by rw [(decode_masked hwrite).1, List.map_nil])
  | ok sidecars =>
    obtain ⟨m, -, hwritten⟩ := bind_eq_ok.mp hwrite
    cases hwritten
    exact .inr (by rw [(decode_written hwrite).1]; rfl)

theorem sidecars_subset {path : Path}
    (h : path ∈ (decodeChunksIntoFiles base urandom clock info files chunks ending).sidecars.map Prod.fst) : path ∈ base.sidecarPaths := by
  rcases sidecars_paths base urandom clock info files chunks ending with hnone | hboth
  · rw [hnone] at h
    exact absurd h List.not_mem_nil
  · exact hboth ▸ h

/-- A run leaves the recordings as they were at its manifest, and every sidecar on disk. -/
theorem decodeChunksIntoFiles_files : (decodeChunksIntoFiles base urandom clock info files chunks ending).files =
    writeSidecarFiles (Decoding.atManifest base urandom files chunks ending).1.outputs.files
      (decodeChunksIntoFiles base urandom clock info files chunks ending).sidecars := by
  rw [decodeChunksIntoFiles]
  dsimp only
  split <;> rfl

theorem decodeChunksIntoFiles_sidecar {sidecar : Path × Sidecar}
    (h : sidecar ∈ (decodeChunksIntoFiles base urandom clock info files chunks ending).sidecars) :
    (decodeChunksIntoFiles base urandom clock info files chunks ending).files sidecar.1 = some sidecar.2.content := by
  rw [decodeChunksIntoFiles_files]
  refine writeSidecarFiles_mem ?_ h
  rcases sidecars_paths base urandom clock info files chunks ending with hnone | hboth
  · rw [hnone]
    exact List.nodup_nil
  · rw [hboth]
    exact base.sidecarPaths_nodup

theorem decodeChunksIntoFiles_recording (index : Nat) :
    (decodeChunksIntoFiles base urandom clock info files chunks ending).files (base.recordingPath index) =
      (Decoding.atManifest base urandom files chunks ending).1.outputs.files (base.recordingPath index) := by
  rw [decodeChunksIntoFiles_files]
  exact writeSidecarFiles_other fun hmem => base.recordingPath_not_mem_sidecarPaths index (sidecars_subset hmem)

theorem exists_writeSidecars : (∃ sidecars, (Decoding.atManifest base urandom files chunks ending).1.writeSidecars clock base info =
      .ok sidecars) ↔
    ∀ v ∈ (Recorder.feedAll {} (Recorder.untilRefused base.isOgg {} chunks)).writers, v.packets ≠ [] →
      clock.CanList v.packets := by
  obtain ⟨r, hstopped, hpackets⟩ := loop_stopped base urandom ending files chunks
  have hsettled := hstopped.closeWriters urandom
  rw [← hpackets clock.CanList, ← hsettled.exists_entries]
  exact exists_writeSyncManifest

end

/-- Both sidecars are written, and the caller gets the exception that ended the loop, if one did, exactly when every
    recording with packets lists its first and its last chunk with a time that `datetime` can represent. -/
theorem sidecars_written_iff {ε : Type} (base : AudioBase) (urandom : Nat → Fin 4 → UInt8) (clock : Clock) (info : SyncInfo)
    (files : Files) (chunks : List AudioChunk) (ending : Option ε) :
    let o := decodeChunksIntoFiles base urandom clock info files chunks ending
    SidecarsWritten base o ∧ o.raised = (Decoding.loop base urandom ending { outputs := { files } } chunks).2 ↔
      ∀ v ∈ (Recorder.feedAll {} (Recorder.untilRefused base.isOgg {} chunks)).writers, v.packets ≠ [] →
        clock.CanList v.packets := by
  intro o
  refine Iff.trans (?_ : _ ↔ ∃ sidecars, (Decoding.atManifest base urandom files chunks ending).1.writeSidecars clock base
    info = .ok sidecars) exists_writeSidecars
  constructor
  · rintro ⟨⟨m, events, hsidecars⟩, -⟩
    cases hwrite : (Decoding.atManifest base urandom files chunks ending).1.writeSidecars clock base info with
    | ok sidecars => exact ⟨sidecars, rfl⟩
    | error e =>
      have hempty := (decode_masked hwrite).1
      rw [hsidecars] at hempty
      cases hempty
  · rintro ⟨sidecars, hwrite⟩
    obtain ⟨hsidecars, hraised⟩ := decode_written hwrite
    obtain ⟨m, -, h⟩ := bind_eq_ok.mp hwrite
    cases h
    exact ⟨⟨m, _, hsidecars⟩, hraised⟩

/-! ### A clock set to UTC -/

namespace Utc

/-- The year, month and day of a day counted from 1970-01-01, in the Gregorian calendar. Years are counted from March,
    in eras of 400 years. -/
def date (days : Int) : Int × Int × Int :=
  let fromEra := days + 719468
  let dayOfEra := fromEra % 146097
  let yearOfEra := (dayOfEra - dayOfEra / 1460 + dayOfEra / 36524 - dayOfEra / 146096) / 365
  let dayOfYear := dayOfEra - (365 * yearOfEra + yearOfEra / 4 - yearOfEra / 100)
  let month := (5 * dayOfYear + 2) / 153
  let year := yearOfEra + fromEra / 146097 * 400 + if month < 10 then 0 else 1
  (year, if month < 10 then month + 3 else month - 9, dayOfYear - (153 * month + 2) / 5 + 1)

/-- The year of a time. -/
def year (ms : Int) : Int := (date (ms / 86400000)).1

/-- `n / d` rounded to an integer, a tie to the even one. -/
def roundHalfEven (n d : Nat) : Nat :=
  if 2 * (n % d) < d ∨ (2 * (n % d) = d ∧ n / d % 2 = 0) then n / d else n / d + 1

/-- The `float` nearest to `n / d`, below `2 ^ 53`: a numerator of 53 bits, and the power of two that divides it. -/
def nearestFloat (n d : Nat) : Nat × Nat :=
  let k := 53 + d.log2 - n.log2
  let k := if n * 2 ^ k / d < 2 ^ 53 then k else k - 1
  (roundHalfEven (n * 2 ^ k) d, k)

/-- The microseconds that `fromtimestamp(ms / 1000)` makes of the fraction of its argument. -/
def microseconds (ms : Int) : Nat :=
  let (timestamp, k) := nearestFloat ms.natAbs 1000
  let (product, l) := nearestFloat (timestamp % 2 ^ k * 1000000) (2 ^ k)
  let fraction := roundHalfEven product (2 ^ l)
  if 0 ≤ ms ∨ fraction = 0 then fraction else 1000000 - fraction

/-- A time in UTC. Its milliseconds are those of the microseconds, cut off. -/
def isoformat (ms : Int) : String :=
  let (year, month, day) := date (ms / 86400000)
  let ofDay := ms % 86400000
  let field (width : Nat) (n : Int) := Decimal.padded width n.toNat
  field 4 year ++ "-" ++ field 2 month ++ "-" ++ field 2 day ++ "T" ++ field 2 (ofDay / 3600000) ++ ":" ++
    field 2 (ofDay / 60000 % 60) ++ ":" ++ field 2 (ofDay / 1000 % 60) ++ "." ++ Decimal.padded 3 (microseconds ms / 1000)

example : isoformat 1700000000123 = "2023-11-14T22:13:20.123" := by decide +kernel

/-- A `float` of this size is up to 15 microseconds off. -/
example : isoformat 253402300799999 = "9999-12-31T23:59:59.998" := by decide +kernel

/-- The clock of a computer whose local time is UTC. -/
def clock : Clock where
  nowMs := 1700000000000
  year := year
  isoformat ms :=
    if 1 ≤ year ms ∧ year ms ≤ 9999 then .ok (isoformat ms)
    else .error (.valueError ("year " ++ toString (year ms) ++ " is out of range"))
  raises_iff ms := by
    split
    · rename_i h
      exact ⟨nofun, fun hnot => absurd h hnot⟩
    · rename_i h
      exact ⟨fun _ => h, fun _ => ⟨_, rfl⟩⟩
  now_ok := by decide +kernel

end Utc

/-- What a manifest tells of some sync. -/
def sampleSync : SyncInfo where
  di :=
    { deviceId := 1, serialNum := "0001", firmwareVer := "1.0", batteryPercent := 90, oldestFlashPage := 1, newestFlashPage := 2 }
  address := "00:00:00:00:00:00"
  includeLogs := false

/-- A chunk whose page has the largest time a page can have. -/
def futureChunk : AudioChunk where
  chunk := { audio := some { opusPackets := [0xB8] } }
  absoluteTimestampMs := 2 ^ 64 - 1

/-- One chunk with a time out of range: neither sidecar is written, and the caller does not see why the stream ended. -/
theorem bad_time_loses_sidecars :
    let o := decodeChunksIntoFiles oggBase (fun _ _ => 7) Utc.clock sampleSync (fun _ => none) [futureChunk] (some ())
    (Decoding.loop oggBase (fun _ _ => 7) (some ()) { outputs := { files := fun _ => none } } [futureChunk]).2 = some (.source ()) ∧
      o.sidecars = [] ∧ o.raised = some (.own (.valueError "year 584556019 is out of range")) ∧
      ¬(SidecarsWritten oggBase o ∧ o.raised = some (.source ())) := by
  intro o
  have hsidecars : o.sidecars = [] := by decide +kernel
  refine ⟨by decide +kernel, hsidecars, by decide +kernel, ?_⟩
  rintro ⟨⟨m, events, hwritten⟩, -⟩
  rw [hsidecars] at hwritten
  cases hwritten

/-! ### The manifest's totals -/

section
variable {base : AudioBase} {r : Recorder AudioChunk} {o : Outputs} {w : RecordingWriter}

theorem sum_filter_ne_zero (counts : List Nat) : (counts.filter fun n => n ≠ 0).sum = counts.sum := by
  induction counts with
  | nil => rfl
  | cons n counts ih =>
    rw [List.filter_cons, List.sum_cons]
    split
    · rw [List.sum_cons, ih]
    · rename_i hzero
      have : n = 0 := by simpa using hzero
      rw [ih, this, Nat.zero_add]

/-- The recordings count the packets of the chunks that were added. -/
theorem Settled.sum_chunkCount (h : Settled base r o) :
    (o.prune.recordings.map RecordingWriter.chunkCount).sum = (r.added.filter AudioChunk.hasPacket).length := by
  have hcounts : o.recordings.map RecordingWriter.chunkCount = r.writers.map fun v => v.packets.length :=
    (h.recordings.map_eq fun _ _ _ hclosed => hclosed.noted.chunkCount.symm).symm
  have hprune : o.prune.recordings.map RecordingWriter.chunkCount =
      (o.recordings.map RecordingWriter.chunkCount).filter fun n => n ≠ 0 := by
    rw [Outputs.prune, List.filter_map]
    rfl
  rw [hprune, sum_filter_ne_zero, hcounts, Recorder.added, List.filter_flatMap, List.length_flatMap]
  rfl

/-- Nothing is missing from the count: every chunk with audio is added, and has a packet. -/
theorem length_packets_eq_iff (chunks : List AudioChunk) :
    ((Recorder.feedAll {} chunks).added.filter AudioChunk.hasPacket).length = (chunks.filter hasAudio).length ↔
      ∀ before c after, chunks = before ++ c :: after → hasAudio c = true →
        c.opus ≠ [] ∧ (isRecordingStart c = true → (Splitter.feedAll {} before).InPreRoll) := by
  have hadded : (Recorder.feedAll {} chunks).added = Recorder.kept {} chunks :=
    (Recorder.added_feedAll chunks {}).trans (List.nil_append _)
  have hsublist := Recorder.kept_sublist chunks {}
  have hle := List.length_filter_le AudioChunk.hasPacket (Recorder.kept {} chunks)
  rw [hadded]
  constructor
  · intro hlen before c after heq ha
    have hkept : Recorder.kept {} chunks = chunks.filter hasAudio :=
      hsublist.eq_of_length (Nat.le_antisymm hsublist.length_le (hlen ▸ hle))
    rw [hkept] at hlen
    have hall := List.length_filter_eq_length_iff.mp hlen
    have hmem : c ∈ chunks.filter hasAudio :=
      List.mem_filter.mpr ⟨heq ▸ List.mem_append_right _ List.mem_cons_self, ha⟩
    refine ⟨by simpa [AudioChunk.hasPacket] using hall c hmem, fun hs => ?_⟩
    exact (represents_start.feedAll before).inPreRoll.mpr ((Recorder.kept_eq_iff chunks {}).mp hkept before c after heq hs ha)
  · intro hall
    have hkept : Recorder.kept {} chunks = chunks.filter hasAudio := by
      refine (Recorder.kept_eq_iff chunks {}).mpr fun before c after heq hs ha => ?_
      exact (represents_start.feedAll before).inPreRoll.mp ((hall before c after heq ha).2 hs)
    rw [hkept, List.length_filter_eq_length_iff]
    intro c hc
    obtain ⟨hmem, ha⟩ := List.mem_filter.mp hc
    obtain ⟨before, after, heq⟩ := List.append_of_mem hmem
    simpa [AudioChunk.hasPacket] using (hall before c after heq ha).1

end

/-- When a run completes, the manifest's total is the sum over its recordings exactly when every chunk with audio has a
    packet, and arrives while a pre-roll writer is open if it carries a start marker. -/
theorem manifest_totals_iff {ε : Type} (base : AudioBase) (urandom : Nat → Fin 4 → UInt8) (clock : Clock) (info : SyncInfo)
    (files : Files) (chunks : List AudioChunk) (ending : Option ε)
    (hcompletes : (decodeChunksIntoFiles base urandom clock info files chunks ending).raised = none) :
    ∃ m events, (decodeChunksIntoFiles base urandom clock info files chunks ending).sidecars =
        [(base.sidecarPath ".manifest.json", .manifest m), (base.sidecarPath ".events.json", .events events)] ∧
      (m.totalAudioChunks = (m.recordings.map ManifestRecording.chunks).sum ↔
        ∀ before c after, chunks = before ++ c :: after → hasAudio c = true →
          c.opus ≠ [] ∧ (isRecordingStart c = true → (Splitter.feedAll {} before).InPreRoll)) := by
  cases hwrite : (Decoding.atManifest base urandom files chunks ending).1.writeSidecars clock base info with
  | error e =>
    rw [(decode_masked hwrite).2] at hcompletes
    cases hcompletes
  | ok sidecars =>
    obtain ⟨hsidecars, hraised⟩ := decode_written hwrite
    obtain ⟨m, hm, h⟩ := bind_eq_ok.mp hwrite
    cases h
    obtain ⟨htotal, hrecordings⟩ := syncManifest_eq_ok hm
    refine ⟨m, _, hsidecars, ?_⟩
    rw [htotal, hrecordings, ← length_packets_eq_iff]
    have hstart : AtChunk base {} { outputs := { files } } := .start files
    rcases hstart.loop urandom ending chunks with ⟨-, d, hloop, hcount, hd⟩ | ⟨-, d, e, v, hloop, -⟩
    · have hsettled := hd.stopped.closeWriters urandom
      rw [Decoding.atManifest, hloop]
      show d.nAudio = ((d.closeWriters base urandom).outputs.prune.recordings.map _).sum ↔ _
      rw [hsettled.sum_chunkCount, hcount, Nat.zero_add, eq_comm]
    · rw [hraised, Decoding.atManifest, hloop] at hcompletes
      cases hcompletes

/-- A start marker with a packet. -/
def startChunk : AudioChunk := { chunk := { audio := some { opusPackets := [0xB8], didStartRecording := true } } }

/-- Some chunks decoded to the end. -/
def decodeSample (chunks : List AudioChunk) : Decoded Unit :=
  decodeChunksIntoFiles oggBase (fun _ _ => 7) Utc.clock sampleSync (fun _ => none) chunks none

/-- A recording with its pre-roll: both packets are counted. -/
theorem manifest_totals_sample : ∃ m events,
    (decodeSample [audioChunk, startChunk, stopChunk]).sidecars =
        [("sync.opus.manifest.json", .manifest m), ("sync.opus.events.json", .events events)] ∧
      m.totalAudioChunks = (m.recordings.map ManifestRecording.chunks).sum := by
  obtain ⟨m, events, hsidecars, hiff⟩ := manifest_totals_iff oggBase (fun _ _ => 7) Utc.clock sampleSync (fun _ => none)
    [audioChunk, startChunk, stopChunk] (none : Option Unit) (by decide +kernel)
  refine ⟨m, events, hsidecars, hiff.mpr fun before c after heq ha => ?_⟩
  rcases before with - | ⟨b₁, - | ⟨b₂, - | ⟨b₃, before⟩⟩⟩
  · cases heq
    exact ⟨by decide, fun hs => absurd hs (by decide)⟩
  · cases heq
    exact ⟨by decide, fun _ => ⟨rfl, rfl⟩⟩
  · cases heq
    cases ha
  · have := congrArg List.length heq
    simp at this

/-- The manifest's total among some sidecar files, and the sum over its recordings. -/
def manifestTotals (sidecars : List (Path × Sidecar)) : List (Nat × Nat) :=
  sidecars.filterMap fun (_, sidecar) =>
    match sidecar with
    | .manifest m => some (m.totalAudioChunks, (m.recordings.map ManifestRecording.chunks).sum)
    | .events _ => none

/-- An encrypted chunk without a key is counted in the total, and so is a chunk that the splitter drops with its start
    marker; no recording has them. -/
theorem total_counts_unwritten :
    ((decodeSample [encryptedChunk]).raised = none ∧ manifestTotals (decodeSample [encryptedChunk]).sidecars = [(1, 0)]) ∧
      (decodeSample [startChunk]).raised = none ∧ manifestTotals (decodeSample [startChunk]).sidecars = [(1, 0)] := by
  decide +kernel

end PendantClient
