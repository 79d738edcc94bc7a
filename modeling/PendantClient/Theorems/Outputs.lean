import PendantClient.Lib.Pointwise
import PendantClient.Theorems.Recording
import PendantClient.Theorems.Splitter

/-! The files of a run. Between two chunks the recordings are those of the splitter's writers, the closed ones ended and
    the open one ready for the next packet; a refused packet ends the run. What is left at the manifest follows. -/

namespace PendantClient

/-! ### The calls of the splitter -/

namespace Recorder
variable {χ : Type} [Flagged χ]

/-- The calls that a stop marker makes on its writer. -/
def stopCalls (index : Nat) (c : χ) : List (WriterCall χ) :=
  if isRecordingStop c then [.setClosedWithStopMarker index] ++ [.close index] else []

/-- The calls that a writer gets when it takes a chunk. -/
def takeCalls (index : Nat) (c : χ) : List (WriterCall χ) :=
  (if hasAudio c then [.add index c] else []) ++ stopCalls index c

/-- The calls that feeding a chunk makes on the writers. -/
def calls (r : Recorder χ) (c : χ) : List (WriterCall χ) :=
  match r.current, isRecordingStart c with
  | none, true => []
  | none, false =>
    if hasAudio c then
      [.openWriter r.closed.length c] ++
        ((if r.pending then [.setOpenedWithStartMarker r.closed.length] else []) ++ takeCalls r.closed.length c)
    else []
  | some w, true =>
    if w.openedWithStartMarker then [.close r.closed.length]
    else [.setOpenedWithStartMarker r.closed.length] ++ takeCalls r.closed.length c
  | some _, false => takeCalls r.closed.length c

end Recorder

section
variable {χ : Type} [Flagged χ] {s : Splitter χ} {r : Recorder χ} {w : Writer χ} {c : χ} {index : Nat}

theorem calls_feedStop (hcur : s.current = some index) :
    (s.feedStop c).calls = s.calls ++ Recorder.stopCalls index c := by
  rw [Splitter.feedStop, hcur, Option.isSome_some, Bool.and_true, Recorder.stopCalls]
  split
  · rw [Splitter.close, hcur]
    simp [Splitter.call]
  · rw [List.append_nil]

theorem calls_feedAudio (hcur : s.current = some index) :
    (s.feedAudio c none).1.calls = s.calls ++ Recorder.takeCalls index c := by
  rw [Splitter.feedAudio, Recorder.takeCalls]
  split
  · rw [hcur]
    dsimp only
    rw [calls_feedStop (s := s.call (.add index c)) hcur, Splitter.call, List.append_assoc]
  · rw [calls_feedStop hcur, List.nil_append]

theorem calls_feedAudio_none (hcur : s.current = none) (ha : hasAudio c = true) :
    (s.feedAudio c none).1.calls = s.calls ++ (.openWriter s.nextIndex c ::
      ((if s.pendingStartMarker then [.setOpenedWithStartMarker s.nextIndex] else []) ++
        Recorder.takeCalls s.nextIndex c)) := by
  rw [Splitter.feedAudio, if_pos ha, hcur]
  dsimp only
  rw [Recorder.takeCalls, if_pos ha]
  cases hp : s.pendingStartMarker with
  | true =>
    refine (calls_feedStop rfl).trans ?_
    simp [Splitter.openWriter, Splitter.call]
  | false =>
    refine (calls_feedStop rfl).trans ?_
    simp [Splitter.openWriter, Splitter.call]

theorem Represents.calls (h : Represents s r) : (s.feed c none).1.calls = s.calls ++ r.calls c := by
  have hexp := h.explicit
  cases hw : r.current with
  | none =>
    have hcur := h.current_none hw
    have hnext : s.nextIndex = r.closed.length := by
      rw [h.nextIndex, Recorder.writers, hw, Option.toList_none, List.append_nil]
    rw [Recorder.calls, hw]
    cases hs : isRecordingStart c with
    | true =>
      rw [feed_start_none hs hcur, List.append_nil]
    | false =>
      rw [feed_not_start hs]
      dsimp only
      by_cases ha : hasAudio c = true
      · rw [calls_feedAudio_none hcur ha, if_pos ha, hnext, h.pending]
        rfl
      · rw [if_neg ha, List.append_nil, Splitter.feedAudio, if_neg ha, Splitter.feedStop, hcur, Option.isSome_none,
          Bool.and_false]
        rfl
  | some w =>
    have hcur := h.current_some hw
    rw [hw, Option.any_some] at hexp
    rw [Recorder.calls, hw]
    cases hs : isRecordingStart c with
    | false =>
      rw [feed_not_start hs]
      exact calls_feedAudio hcur
    | true =>
      dsimp only
      cases ho : w.openedWithStartMarker with
      | true =>
        rw [feed_start_explicit hs (by rw [hcur]; rfl) (hexp.trans ho) (h.close hw false).current, if_pos rfl]
        show (s.close false).calls = _
        rw [Splitter.close, hcur]
        rfl
      | false =>
        have hfed := calls_feedAudio (c := c)
          (s := { s with currentHasExplicitStart := true }.call (.setOpenedWithStartMarker r.closed.length)) hcur
        rw [feed_start_preroll hs hcur (hexp.trans ho), hfed, if_neg (by simp), Splitter.call, List.append_assoc]

end

/-! ### Recordings and writers -/

/-- The chunks of a writer that have a packet to write. -/
def Writer.packets (v : Writer AudioChunk) : List AudioChunk := v.added.filter AudioChunk.hasPacket

/-- The recording at an index has noted the packets of the splitter's writer. -/
structure RecordsAt (base : AudioBase) (index : Nat) (v : Writer AudioChunk) (w : RecordingWriter) : Prop where
  recordingIndex : w.recordingIndex = index
  path : w.path = base.recordingPath index
  noted : Noted w v.packets

/-- Its file is open. -/
structure OpenAt (base : AudioBase) (refused : Bool) (index : Nat) (v : Writer AudioChunk) (w : RecordingWriter) : Prop
    extends RecordsAt base index v w where
  sink : w.sink.Holding refused (v.packets.map AudioChunk.opus) base.isOgg

/-- Its file has been closed. -/
structure ClosedAt (base : AudioBase) (index : Nat) (v : Writer AudioChunk) (w : RecordingWriter) : Prop
    extends RecordsAt base index v w where
  sink : w.sink.Ended (v.packets.map AudioChunk.opus) base.isOgg

/-- The recordings and their files are those of the recorder's writers. `refused` tells whether a packet of the open
    recording has been refused. -/
structure Mirrors (base : AudioBase) (refused : Bool) (r : Recorder AudioChunk) (o : Outputs) : Prop where
  recordings : ∃ ws cur, o.recordings = ws ++ cur.toList ∧ Pointwise (ClosedAt base) r.closed ws ∧
    Option.Rel (OpenAt base refused r.closed.length) r.current cur
  files : ∀ w ∈ o.recordings, o.files w.path = some w.sink.written

section
variable {base : AudioBase} {urandom : Nat → Fin 4 → UInt8} {refused refused' : Bool} {r : Recorder AudioChunk}
  {o o' : Outputs} {v v' : Writer AudioChunk} {w w' : RecordingWriter} {ws : List RecordingWriter} {c : AudioChunk}
  {index : Nat}

/-- Markers and the file are no part of what is noted. -/
theorem RecordsAt.update (h : RecordsAt base index v w) (hv : v'.packets = v.packets) (sink : Sink)
    (openedWithStartMarker closedWithStopMarker : Bool) :
    RecordsAt base index v' { w with sink, openedWithStartMarker, closedWithStopMarker } where
  recordingIndex := h.recordingIndex
  path := h.path
  noted := hv ▸
    ⟨h.noted.chunkCount, h.noted.firstAbsolute, h.noted.firstReceived, h.noted.lastAbsolute, h.noted.lastReceived⟩

theorem path_ne (h : Pointwise (ClosedAt base) r.closed ws) (hw : w ∈ ws) :
    w.path ≠ base.recordingPath r.closed.length := by
  intro hpath
  obtain ⟨i, v, hv, -, hrecords⟩ := h.exists_of_mem hw
  have hi := base.recordingPath_injective (hrecords.path.symm.trans hpath)
  have hlt := (List.getElem?_eq_some_iff.mp hv).1
  omega

/-- A run with its open recording at hand. -/
structure Current (base : AudioBase) (refused : Bool) (r : Recorder AudioChunk) (v : Writer AudioChunk) (o : Outputs)
    (ws : List RecordingWriter) (w : RecordingWriter) : Prop where
  recordings : o.recordings = ws ++ [w]
  closed : Pointwise (ClosedAt base) r.closed ws
  isOpen : OpenAt base refused r.closed.length v w
  files : ∀ u ∈ o.recordings, o.files u.path = some u.sink.written

theorem Mirrors.current (h : Mirrors base refused r o) (hv : r.current = some v) :
    ∃ ws w, Current base refused r v o ws w := by
  obtain ⟨ws, cur, hrecordings, hclosed, hcurrent⟩ := h.recordings
  rw [hv] at hcurrent
  cases hcurrent with
  | some hopen => exact ⟨ws, _, hrecordings, hclosed, hopen, h.files⟩

theorem Mirrors.atRest (h : Mirrors base refused r o) (hv : r.current = none) :
    Pointwise (ClosedAt base) r.closed o.recordings := by
  obtain ⟨ws, cur, hrecordings, hclosed, hcurrent⟩ := h.recordings
  rw [hv] at hcurrent
  cases hcurrent with
  | none =>
    rw [hrecordings, Option.toList_none, List.append_nil]
    exact hclosed

theorem Mirrors.setPending (h : Mirrors base refused r o) (pending : Bool) : Mirrors base refused { r with pending } o :=
  ⟨h.recordings, h.files⟩

namespace Current

theorem getElem? (h : Current base refused r v o ws w) : o.recordings[r.closed.length]? = some w := by
  rw [h.recordings, h.closed.length, List.getElem?_concat_length]

theorem store_recordings (h : Current base refused r v o ws w) (w' : RecordingWriter) :
    (o.store r.closed.length w').recordings = ws ++ [w'] := by
  rw [Outputs.store, h.recordings, h.closed.length]
  exact List.set_append_right _ _ (Nat.le_refl _) |>.trans (by simp)

theorem store_files (h : Current base refused r v o ws w) (hpath : w'.path = base.recordingPath r.closed.length) :
    ∀ u ∈ (o.store r.closed.length w').recordings, (o.store r.closed.length w').files u.path = some u.sink.written := by
  intro u hu
  rw [h.store_recordings, List.mem_append, List.mem_singleton] at hu
  rw [Outputs.store]
  dsimp only
  rcases hu with hu | rfl
  · rw [Function.update_of_ne (by rw [hpath]; exact path_ne h.closed hu)]
    exact h.files u (by rw [h.recordings]; exact List.mem_append_left _ hu)
  · rw [Function.update_self]

theorem store (h : Current base refused r v o ws w) (hw' : OpenAt base refused' r.closed.length v' w') :
    Mirrors base refused' { r with current := some v' } (o.store r.closed.length w') where
  recordings := ⟨ws, some w', h.store_recordings w', h.closed, .some hw'⟩
  files := h.store_files hw'.path

theorem storeClosed (h : Current base refused r v o ws w) (hw' : ClosedAt base r.closed.length v' w') (pending : Bool) :
    Mirrors base refused' { closed := r.closed ++ [v'], current := none, pending } (o.store r.closed.length w') where
  recordings :=
    ⟨ws ++ [w'], none, by rw [h.store_recordings, Option.toList_none, List.append_nil], h.closed.snoc hw', .none⟩
  files := h.store_files hw'.path

theorem modify (h : Current base refused r v o ws w) (f : RecordingWriter → RecordingWriter) :
    o.modify r.closed.length f = o.store r.closed.length (f w) := by
  rw [Outputs.modify, h.getElem?]

end Current

/-! ### What a call does to the recordings -/

theorem performAll_append {calls : List (WriterCall AudioChunk)} : ∀ {o : Outputs},
    o.performAll base urandom calls = (o', none) → ∀ more : List (WriterCall AudioChunk),
      o.performAll base urandom (calls ++ more) = o'.performAll base urandom more := by
  induction calls with
  | nil =>
    intro o h more
    cases h
    rfl
  | cons call calls ih =>
    intro o h more
    rw [Outputs.performAll] at h
    rw [List.cons_append, Outputs.performAll]
    split at h
    · cases h
    · exact ih h more

/-- The calls succeed, and the recordings are then those of the recorder. -/
def LeadsTo (base : AudioBase) (urandom : Nat → Fin 4 → UInt8) (o : Outputs) (calls : List (WriterCall AudioChunk))
    (r : Recorder AudioChunk) : Prop :=
  ∃ o', o.performAll base urandom calls = (o', none) ∧ Mirrors base false r o'

/-- A packet is refused: the calls stop there, with nothing noted of it. -/
def BreaksOff (base : AudioBase) (urandom : Nat → Fin 4 → UInt8) (o : Outputs) (calls : List (WriterCall AudioChunk))
    (r : Recorder AudioChunk) : Prop :=
  ∃ o' e, o.performAll base urandom calls = (o', some e) ∧ Mirrors base true r o'

section
variable {calls more : List (WriterCall AudioChunk)} {r' : Recorder AudioChunk}

theorem LeadsTo.trans (h : LeadsTo base urandom o calls r)
    (hmore : ∀ o', Mirrors base false r o' → LeadsTo base urandom o' more r') :
    LeadsTo base urandom o (calls ++ more) r' := by
  obtain ⟨o₁, hcalls, h₁⟩ := h
  obtain ⟨o₂, hmore, h₂⟩ := hmore o₁ h₁
  exact ⟨o₂, (performAll_append hcalls more).trans hmore, h₂⟩

theorem LeadsTo.breaksOff (h : LeadsTo base urandom o calls r)
    (hmore : ∀ o', Mirrors base false r o' → BreaksOff base urandom o' more r') :
    BreaksOff base urandom o (calls ++ more) r' := by
  obtain ⟨o₁, hcalls, h₁⟩ := h
  obtain ⟨o₂, e, hmore, h₂⟩ := hmore o₁ h₁
  exact ⟨o₂, e, (performAll_append hcalls more).trans hmore, h₂⟩

theorem LeadsTo.of_perform {call : WriterCall AudioChunk} (h : o.perform base urandom call = (o', none))
    (hmirrors : Mirrors base false r o') : LeadsTo base urandom o [call] r :=
  ⟨o', by rw [Outputs.performAll, h]; rfl, hmirrors⟩

theorem BreaksOff.of_perform {call : WriterCall AudioChunk} {e : PyError} (h : o.perform base urandom call = (o', some e))
    (hmirrors : Mirrors base true r o') (more : List (WriterCall AudioChunk)) : BreaksOff base urandom o (call :: more) r :=
  ⟨o', e, by rw [Outputs.performAll, h], hmirrors⟩

end

theorem RecordingWriter.exists_init (base : AudioBase) (index : Nat) (urandom : Fin 4 → UInt8) :
    ∃ w, RecordingWriter.init base index urandom = .ok w ∧ OpenAt base false index {} w := by
  obtain ⟨sink, hinit, hholding⟩ := RecordingWriter.init_eq_ok base index urandom
  exact ⟨_, hinit, ⟨rfl, rfl, ⟨rfl, rfl, rfl, rfl, rfl⟩⟩, hholding⟩

theorem Mirrors.openWriter (h : Mirrors base refused r o) (hv : r.current = none) (c : AudioChunk) :
    LeadsTo base urandom o [.openWriter r.closed.length c] { r with current := some {} } := by
  have hclosed := h.atRest hv
  obtain ⟨w, hinit, hopen⟩ := RecordingWriter.exists_init base r.closed.length (urandom r.closed.length)
  refine LeadsTo.of_perform (by rw [Outputs.perform, hinit]) ⟨⟨o.recordings, some w, rfl, hclosed, .some hopen⟩, ?_⟩
  intro u hu
  dsimp only
  rcases List.mem_append.mp hu with hu | hu
  · rw [Function.update_of_ne (by rw [hopen.path]; exact path_ne hclosed hu)]
    exact h.files u hu
  · rw [List.mem_singleton.mp hu]
    exact Function.update_self ..

/-- A change to the open recording that leaves it open. -/
theorem Mirrors.modify (h : Mirrors base refused r o) (hv : r.current = some v) {f : RecordingWriter → RecordingWriter}
    (hf : ∀ w, OpenAt base refused r.closed.length v w → OpenAt base refused r.closed.length v' (f w)) :
    Mirrors base refused { r with current := some v' } (o.modify r.closed.length f) := by
  obtain ⟨ws, w, hcurrent⟩ := h.current hv
  rw [hcurrent.modify]
  exact hcurrent.store (hf w hcurrent.isOpen)

theorem Mirrors.setOpened (h : Mirrors base false r o) (hv : r.current = some v) :
    LeadsTo base urandom o [.setOpenedWithStartMarker r.closed.length]
      { r with current := some { v with openedWithStartMarker := true } } :=
  .of_perform rfl (h.modify hv fun _ hopen => ⟨hopen.toRecordsAt.update (by rfl) _ _ _, hopen.sink⟩)

theorem Mirrors.setClosed (h : Mirrors base false r o) (hv : r.current = some v) :
    LeadsTo base urandom o [.setClosedWithStopMarker r.closed.length]
      { r with current := some { v with closedWithStopMarker := true } } :=
  .of_perform rfl (h.modify hv fun _ hopen => ⟨hopen.toRecordsAt.update (by rfl) _ _ _, hopen.sink⟩)

variable (urandom) in
theorem Mirrors.close (h : Mirrors base refused r o) (hv : r.current = some v) (pending : Bool) :
    LeadsTo base urandom o [.close r.closed.length] { closed := r.closed ++ [v], current := none, pending } := by
  obtain ⟨ws, w, hcurrent⟩ := h.current hv
  refine LeadsTo.of_perform rfl ?_
  rw [hcurrent.modify]
  exact hcurrent.storeClosed ⟨hcurrent.isOpen.toRecordsAt.update rfl _ _ _, hcurrent.isOpen.sink.close⟩ pending

theorem Mirrors.stop (h : Mirrors base false r o) (hv : r.current = some v) (c : AudioChunk) :
    LeadsTo base urandom o (Recorder.stopCalls r.closed.length c)
      (if isRecordingStop c then
        { r with closed := r.closed ++ [{ v with closedWithStopMarker := true }], current := none } else r) := by
  rw [Recorder.stopCalls]
  split
  · exact (h.setClosed hv).trans fun o₁ h₁ => h₁.close urandom rfl r.pending
  · exact ⟨o, rfl, h⟩

/-- A packet that the open recording does not take. -/
def Writer.refuses (isOgg : Bool) (v : Writer AudioChunk) (c : AudioChunk) : Prop :=
  c.hasPacket = true ∧ ¬takesPacket isOgg v.packets.length c.opus.length

instance (isOgg : Bool) (v : Writer AudioChunk) (c : AudioChunk) : Decidable (v.refuses isOgg c) :=
  inferInstanceAs (Decidable (_ ∧ ¬_))

theorem packets_snoc_of_hasPacket (hc : c.hasPacket = true) :
    { v with added := v.added ++ [c] }.packets = v.packets ++ [c] := by
  rw [Writer.packets, List.filter_append, List.filter_cons_of_pos hc]
  rfl

theorem packets_snoc_of_not (hc : c.hasPacket = false) : { v with added := v.added ++ [c] }.packets = v.packets := by
  rw [Writer.packets, List.filter_append, List.filter_cons_of_neg (by simp [hc]), List.filter_nil, List.append_nil]
  rfl

variable (urandom) in
theorem Mirrors.add (h : Mirrors base false r o) (hv : r.current = some v) (c : AudioChunk) :
    (¬v.refuses base.isOgg c → LeadsTo base urandom o [.add r.closed.length c]
      { r with current := some { v with added := v.added ++ [c] } }) ∧
    (v.refuses base.isOgg c → ∀ more, BreaksOff base urandom o (.add r.closed.length c :: more) r) := by
  obtain ⟨ws, w, hcurrent⟩ := h.current hv
  have hopen := hcurrent.isOpen
  have hperform : o.perform base urandom (.add r.closed.length c) =
      (o.store r.closed.length (w.add c).1, (w.add c).2) := by
    rw [Outputs.perform, hcurrent.getElem?]
  cases hc : c.hasPacket with
  | false =>
    have hempty : c.opus.isEmpty = true := by simpa [AudioChunk.hasPacket] using hc
    have hpackets := packets_snoc_of_not (v := v) hc
    rw [RecordingWriter.add, if_pos hempty] at hperform
    refine ⟨fun _ => .of_perform hperform (hcurrent.store ⟨hopen.toRecordsAt.update hpackets _ _ _, ?_⟩),
      fun hrefuses => absurd hrefuses.1 (by simp [hc])⟩
    rw [hpackets]
    exact hopen.sink
  | true =>
    have hne : c.opus ≠ [] := by simpa [AudioChunk.hasPacket] using hc
    obtain ⟨htaken, hrefused⟩ := hopen.sink.add hne
    rw [List.length_map] at htaken hrefused
    rw [RecordingWriter.add, if_neg (by simpa using hne)] at hperform
    constructor
    · intro hnot
      obtain ⟨sink, hadd, hsink⟩ := htaken (Decidable.of_not_not fun htakes => hnot ⟨hc, htakes⟩)
      have hpackets := packets_snoc_of_hasPacket (v := v) hc
      have hnoted : Noted { w with sink } v.packets := (hopen.toRecordsAt.update rfl sink _ _).noted
      obtain ⟨hindex, hpath, hkept⟩ := note_keeps { w with sink } c
      rw [hadd] at hperform
      refine .of_perform hperform (hcurrent.store ⟨⟨hindex.trans hopen.recordingIndex, hpath.trans hopen.path, ?_⟩, ?_⟩)
      · rw [hpackets]
        exact hnoted.note c
      · rw [hpackets, List.map_append, List.map_singleton]
        show ({ w with sink }.note c).sink.Holding false _ base.isOgg
        rw [hkept]
        exact hsink
    · rintro ⟨-, htakes⟩ more
      obtain ⟨sink, e, hadd, hsink⟩ := hrefused htakes
      have hr : { r with current := some v } = r := by rw [← hv]
      rw [hadd] at hperform
      exact .of_perform hperform (hr ▸ hcurrent.store ⟨hopen.toRecordsAt.update rfl _ _ _, hsink⟩) more

variable (urandom) in
theorem Mirrors.take (h : Mirrors base false r o) (hv : r.current = some v) (c : AudioChunk) :
    (¬(hasAudio c = true ∧ v.refuses base.isOgg c) →
      LeadsTo base urandom o (Recorder.takeCalls r.closed.length c) (r.take v c)) ∧
    (hasAudio c = true ∧ v.refuses base.isOgg c → BreaksOff base urandom o (Recorder.takeCalls r.closed.length c) r) := by
  have hr : { r with current := some v } = r := by rw [← hv]
  rw [Recorder.takeCalls, Recorder.take, Writer.takeAudio]
  by_cases ha : hasAudio c = true
  · obtain ⟨htaken, hrefused⟩ := h.add urandom hv c
    rw [if_pos ha, if_pos ha]
    exact ⟨fun hnot => (htaken fun hrefuses => hnot ⟨ha, hrefuses⟩).trans fun o₁ h₁ => h₁.stop rfl c,
      fun hrefuses => hrefused hrefuses.2 _⟩
  · rw [if_neg ha, if_neg ha, List.nil_append, hr]
    exact ⟨fun _ => h.stop hv c, fun hrefuses => absurd hrefuses.1 ha⟩

end

/-- A chunk that would be added, but whose packet its recording does not take. -/
def Recorder.refuses (isOgg : Bool) (r : Recorder AudioChunk) (c : AudioChunk) : Bool :=
  r.keeps c && decide ((r.current.getD {}).refuses isOgg c)

/-- The chunks of a stream up to the first whose packet is refused. -/
def Recorder.untilRefused (isOgg : Bool) (r : Recorder AudioChunk) : List AudioChunk → List AudioChunk
  | [] => []
  | c :: rest => if r.refuses isOgg c then [] else c :: (r.feed c).untilRefused isOgg rest

section
variable {base : AudioBase} {urandom : Nat → Fin 4 → UInt8} {r : Recorder AudioChunk} {o : Outputs} {c : AudioChunk}
  {v : Writer AudioChunk}

theorem refuses_eq_true {isOgg : Bool} :
    r.refuses isOgg c = true ↔ r.keeps c = true ∧ (r.current.getD {}).refuses isOgg c := by
  rw [Recorder.refuses, Bool.and_eq_true, decide_eq_true_eq]

/-- What feeding a chunk makes of the recordings: they follow the recorder, unless the packet is refused. -/
def Feeds (base : AudioBase) (urandom : Nat → Fin 4 → UInt8) (o : Outputs) (r : Recorder AudioChunk) (c : AudioChunk) :
    Prop :=
  (¬(r.keeps c = true ∧ (r.current.getD {}).refuses base.isOgg c) → LeadsTo base urandom o (r.calls c) (r.feed c)) ∧
    (r.keeps c = true ∧ (r.current.getD {}).refuses base.isOgg c → ∃ v : Writer AudioChunk,
      v.packets = (r.current.getD {}).packets ∧ BreaksOff base urandom o (r.calls c) { r with current := some v })

variable (urandom) in
theorem Mirrors.feed_none (h : Mirrors base false r o) (hv : r.current = none) (c : AudioChunk) :
    Feeds base urandom o r c := by
  rw [Feeds, Recorder.calls, hv]
  cases hs : isRecordingStart c with
  | true =>
    have hkeep : r.keeps c = false := by simp [Recorder.keeps, Recorder.preRoll, hs, hv]
    rw [Recorder.feed_note hv hs, hkeep]
    exact ⟨fun _ => ⟨o, rfl, h.setPending true⟩, fun hrefuses => absurd hrefuses.1 Bool.false_ne_true⟩
  | false =>
    have hkeep : r.keeps c = hasAudio c := by simp [Recorder.keeps, hs]
    rw [Recorder.feed_none hv hs, hkeep]
    dsimp only
    by_cases ha : hasAudio c = true
    · rw [if_pos ha, if_pos ha]
      have hopened : LeadsTo base urandom o ([.openWriter r.closed.length c] ++
          (if r.pending then [.setOpenedWithStartMarker r.closed.length] else []))
            { r with pending := false, current := some { openedWithStartMarker := r.pending } } := by
        refine (h.openWriter hv c).trans fun o₁ h₁ => ?_
        cases r.pending with
        | true => exact (h₁.setPending false).setOpened rfl
        | false => exact ⟨o₁, rfl, h₁.setPending false⟩
      rw [← List.append_assoc]
      refine ⟨fun hnot => hopened.trans fun o₁ h₁ => (h₁.take urandom rfl c).1 hnot,
        fun hrefuses => ⟨{ openedWithStartMarker := r.pending }, rfl, ?_⟩⟩
      obtain ⟨o₂, e, hperform, h₂⟩ := hopened.breaksOff fun o₁ h₁ => (h₁.take urandom rfl c).2 hrefuses
      exact ⟨o₂, e, hperform, h₂.setPending r.pending⟩
    · rw [if_neg ha, if_neg ha]
      exact ⟨fun _ => ⟨o, rfl, h⟩, fun hrefuses => absurd hrefuses.1 ha⟩

variable (urandom) in
theorem Mirrors.feed_some (h : Mirrors base false r o) (hv : r.current = some v) (c : AudioChunk) :
    Feeds base urandom o r c := by
  have hr : { r with current := some v } = r := by rw [← hv]
  rw [Feeds, Recorder.calls, hv, Option.getD_some]
  cases hs : isRecordingStart c with
  | false =>
    have hkeep : r.keeps c = hasAudio c := by simp [Recorder.keeps, hs]
    rw [Recorder.feed_body hv hs, hkeep]
    obtain ⟨htaken, hrefused⟩ := h.take urandom hv c
    refine ⟨htaken, fun hrefuses => ⟨v, rfl, ?_⟩⟩
    rw [hr]
    exact hrefused hrefuses
  | true =>
    dsimp only
    cases ho : v.openedWithStartMarker with
    | true =>
      have hkeep : r.keeps c = false := by simp [Recorder.keeps, Recorder.preRoll, hs, hv, ho]
      rw [Recorder.feed_restart hv hs ho, hkeep, if_pos rfl]
      exact ⟨fun _ => h.close urandom hv true, fun hrefuses => absurd hrefuses.1 Bool.false_ne_true⟩
    | false =>
      have hkeep : r.keeps c = hasAudio c := by simp [Recorder.keeps, Recorder.preRoll, hv, ho]
      rw [Recorder.feed_promote hv hs ho, hkeep, if_neg (by simp)]
      refine ⟨fun hnot => (h.setOpened hv).trans fun o₁ h₁ => (h₁.take urandom rfl c).1 hnot,
        fun hrefuses => ⟨{ v with openedWithStartMarker := true }, rfl, ?_⟩⟩
      exact (h.setOpened hv).breaksOff fun o₁ h₁ => (h₁.take urandom rfl c).2 hrefuses

variable (urandom) in
theorem Mirrors.feed (h : Mirrors base false r o) (c : AudioChunk) : Feeds base urandom o r c := by
  cases hv : r.current with
  | none => exact h.feed_none urandom hv c
  | some v => exact h.feed_some urandom hv c

end

/-! ### A run up to its manifest -/

/-- Between two chunks. -/
structure AtChunk (base : AudioBase) (r : Recorder AudioChunk) (d : Decoding) : Prop where
  represents : Represents d.splitter r
  mirrors : Mirrors base false r d.outputs

/-- When the loop is left, whatever the reason. -/
structure Stopped (base : AudioBase) (r : Recorder AudioChunk) (d : Decoding) : Prop where
  current : d.splitter.current = r.current.map fun _ => r.closed.length
  nextIndex : d.splitter.nextIndex = r.writers.length
  mirrors : ∃ refused, Mirrors base refused r d.outputs

/-- When every writer has been closed. -/
structure Settled (base : AudioBase) (r : Recorder AudioChunk) (o : Outputs) : Prop where
  recordings : Pointwise (ClosedAt base) r.writers o.recordings
  files : ∀ w ∈ o.recordings, o.files w.path = some w.sink.written

section
variable {base : AudioBase} {urandom : Nat → Fin 4 → UInt8} {r : Recorder AudioChunk} {d : Decoding} {c : AudioChunk}

theorem AtChunk.start (files : Files) : AtChunk base {} { outputs := { files } } :=
  ⟨represents_start, ⟨[], none, rfl, .nil, .none⟩, fun _ hw => absurd hw List.not_mem_nil⟩

theorem AtChunk.stopped (h : AtChunk base r d) : Stopped base r d :=
  ⟨h.represents.current, h.represents.nextIndex, false, h.mirrors⟩

/-- A refused packet leaves its recording open. -/
theorem Represents.feed_raises {s : Splitter AudioChunk} (h : Represents s r) (hkeep : r.keeps c = true) (e : PyError) :
    (s.feed c (some e)).1.current = some r.closed.length ∧ (s.feed c (some e)).1.nextIndex = r.closed.length + 1 := by
  have hexp := h.explicit
  have hnext := h.nextIndex
  rw [Recorder.keeps, Bool.and_eq_true] at hkeep
  obtain ⟨ha, hstart⟩ := hkeep
  cases hv : r.current with
  | none =>
    have hs : isRecordingStart c = false := by simpa [Recorder.preRoll, hv] using hstart
    rw [Recorder.writers, hv, Option.toList_none, List.append_nil] at hnext
    simp only [Splitter.feed, hs, Splitter.feedAudio, ha, h.current_none hv, if_true]
    cases s.pendingStartMarker <;> simp [Splitter.openWriter, Splitter.call, hnext]
  | some v =>
    have hcur := h.current_some hv
    rw [hv, Option.any_some] at hexp
    rw [Recorder.writers, hv, Option.toList_some, List.length_append, List.length_singleton] at hnext
    cases hs : isRecordingStart c with
    | false => simp [Splitter.feed, hs, Splitter.feedAudio, ha, hcur, hnext, Splitter.call]
    | true =>
      have ho : s.currentHasExplicitStart = false := by
        rw [hexp]
        simpa [Recorder.preRoll, hv, hs] using hstart
      simp [Splitter.feed, hs, ho, Splitter.feedAudio, ha, hcur, hnext, Splitter.call]

variable (urandom) in
theorem AtChunk.feed (h : AtChunk base r d) (c : AudioChunk) :
    (r.refuses base.isOgg c = false → ∃ d' : Decoding, d.feed base urandom c = (d', none) ∧ d'.nAudio = d.nAudio ∧
      AtChunk base (r.feed c) d') ∧
    (r.refuses base.isOgg c = true → ∃ (d' : Decoding) (e : PyError) (v : Writer AudioChunk),
      d.feed base urandom c = (d', some e) ∧ v.packets = (r.current.getD {}).packets ∧
        Stopped base { r with current := some v } d') := by
  have hcalls : ((d.splitter.feed c none).1.calls.drop d.splitter.calls.length) = r.calls c := by
    rw [h.represents.calls, List.drop_left]
  obtain ⟨htaken, hrefused⟩ := h.mirrors.feed urandom c
  rw [← Bool.not_eq_true, refuses_eq_true, Decoding.feed, hcalls]
  constructor
  · intro hnot
    obtain ⟨o', hperform, hmirrors⟩ := htaken hnot
    rw [hperform]
    exact ⟨_, rfl, rfl, h.represents.feed, hmirrors⟩
  · intro hrefuses
    obtain ⟨v, hpackets, o', e, hperform, hmirrors⟩ := hrefused hrefuses
    rw [hperform]
    obtain ⟨hcurrent, hnext⟩ := h.represents.feed_raises hrefuses.1 e
    refine ⟨_, e, v, rfl, hpackets, hcurrent, ?_, true, hmirrors⟩
    rw [Recorder.writers, Option.toList_some, List.length_append, List.length_singleton]
    exact hnext

theorem AtChunk.log (h : AtChunk base r d) (c : AudioChunk) :
    AtChunk base r (d.log c) ∧ (d.log c).nAudio = d.nAudio := by
  rw [Decoding.log]
  split
  · exact ⟨⟨h.represents, h.mirrors⟩, rfl⟩
  · exact ⟨h, rfl⟩

theorem AtChunk.count (h : AtChunk base r d) (c : AudioChunk) :
    AtChunk base r (d.count c) ∧ (d.count c).nAudio = d.nAudio + ([c].filter hasAudio).length := by
  rw [Decoding.count]
  split
  · rename_i ha
    rw [List.filter_cons_of_pos ha]
    exact ⟨⟨h.represents, h.mirrors⟩, rfl⟩
  · rename_i ha
    rw [List.filter_cons_of_neg ha]
    exact ⟨h, rfl⟩

variable (urandom) in
/-- The loop: it ends with the stream and no packet refused, or at the first that is. -/
theorem AtChunk.loop {ε : Type} (ending : Option ε) (chunks : List AudioChunk) :
    ∀ {r : Recorder AudioChunk} {d : Decoding},
    AtChunk base r d →
      (r.untilRefused base.isOgg chunks = chunks ∧ ∃ d' : Decoding,
        d.loop base urandom ending chunks = (d', ending.map .source) ∧
          d'.nAudio = d.nAudio + (chunks.filter hasAudio).length ∧ AtChunk base (r.feedAll chunks) d') ∨
      r.untilRefused base.isOgg chunks ≠ chunks ∧ ∃ (d' : Decoding) (e : PyError) (v : Writer AudioChunk),
        d.loop base urandom ending chunks = (d', some (.own e)) ∧
          v.packets = ((r.feedAll (r.untilRefused base.isOgg chunks)).current.getD {}).packets ∧
          Stopped base { r.feedAll (r.untilRefused base.isOgg chunks) with current := some v } d' := by
  induction chunks with
  | nil =>
    intro r d h
    exact .inl ⟨rfl, d, rfl, rfl, h⟩
  | cons c rest ih =>
    intro r d h
    obtain ⟨hlog, hlogged⟩ := h.log c
    obtain ⟨htaken, hrefused⟩ := hlog.feed urandom c
    rw [Recorder.untilRefused, Decoding.loop]
    cases hrefuses : r.refuses base.isOgg c with
    | false =>
      obtain ⟨d₁, hfeed, hfed, h₁⟩ := htaken hrefuses
      obtain ⟨h₂, hcounted⟩ := h₁.count c
      rw [hfeed, if_neg (by simp)]
      rcases ih h₂ with ⟨huntil, d', hloop, hcount, h'⟩ | ⟨huntil, hrefused⟩
      · refine .inl ⟨by rw [huntil], d', hloop, ?_, h'⟩
        rw [hcount, hcounted, hfed, hlogged, Nat.add_assoc, ← List.length_append, ← List.filter_append]
        rfl
      · exact .inr ⟨fun heq => huntil (List.cons.inj heq).2, hrefused⟩
    | true =>
      obtain ⟨d₁, e, v, hfeed, hpackets, h₁⟩ := hrefused hrefuses
      rw [hfeed, if_pos rfl]
      exact .inr ⟨(List.cons_ne_nil c rest).symm, d₁, e, v, rfl, hpackets, h₁⟩

/-- Closing the closed writers again changes nothing. -/
theorem Settled.closeAll {o : Outputs} (h : Settled base r o) : o.closeAll = o := by
  have hclose : ∀ w ∈ o.recordings, w.close = w := by
    intro w hw
    obtain ⟨i, v, -, -, hclosed⟩ := h.recordings.exists_of_mem hw
    rw [RecordingWriter.close, hclosed.sink.close]
  have hfiles : ∀ ws : List RecordingWriter, (∀ w ∈ ws, w ∈ o.recordings) →
      ws.foldl (fun (files : Files) w => Function.update files w.path (some w.close.sink.written)) o.files = o.files := by
    intro ws hws
    induction ws with
    | nil => rfl
    | cons w ws ih =>
      have hw := hws w List.mem_cons_self
      rw [List.foldl_cons, hclose w hw, ← h.files w hw, Function.update_eq_self]
      exact ih fun u hu => hws u (List.mem_cons_of_mem w hu)
  rw [Outputs.closeAll, hfiles o.recordings fun _ hw => hw, List.map_congr_left (g := id) hclose, List.map_id]

variable (urandom) in
theorem Stopped.closeWriters (h : Stopped base r d) : Settled base r (d.closeWriters base urandom).outputs := by
  obtain ⟨refused, hmirrors⟩ := h.mirrors
  have hcurrent := h.current
  obtain ⟨o', hperform, hsettled⟩ : ∃ o', d.outputs.performAll base urandom
      (d.splitter.finalize.calls.drop d.splitter.calls.length) = (o', none) ∧ Settled base r o' := by
    cases hv : r.current with
    | none =>
      rw [hv, Option.map_none] at hcurrent
      have hwriters : r.writers = r.closed := by rw [Recorder.writers, hv, Option.toList_none, List.append_nil]
      rw [Splitter.finalize, hcurrent, List.drop_length]
      exact ⟨d.outputs, rfl, hwriters ▸ hmirrors.atRest hv, hmirrors.files⟩
    | some v =>
      rw [hv, Option.map_some] at hcurrent
      have hwriters : r.writers = r.closed ++ [v] := by rw [Recorder.writers, hv, Option.toList_some]
      obtain ⟨o', hperform, hclosed⟩ := hmirrors.close urandom hv false
      have hcalls : d.splitter.finalize.calls = d.splitter.calls ++ [.close r.closed.length] := by
        rw [Splitter.finalize, hcurrent]
        rfl
      rw [hcalls, List.drop_left]
      exact ⟨o', hperform, hwriters ▸ hclosed.atRest rfl, hclosed.files⟩
  rw [Decoding.closeWriters]
  dsimp only
  rw [hperform, hsettled.closeAll]
  exact hsettled

variable (base urandom) in
theorem closeWriters_nextIndex (d : Decoding) :
    (d.closeWriters base urandom).splitter.nextIndex = d.splitter.nextIndex := by
  show d.splitter.finalize.nextIndex = _
  rw [Splitter.finalize]
  split <;> rfl

variable (base urandom) in
/-- However the loop ends, the packets of the recordings are those of the chunks up to the first refused one; a
    recording without packets may come on top. -/
theorem loop_stopped {ε : Type} (ending : Option ε) (files : Files) (chunks : List AudioChunk) :
    ∃ r : Recorder AudioChunk, Stopped base r (Decoding.loop base urandom ending { outputs := { files } } chunks).1 ∧
      ∀ P : List AudioChunk → Prop, (∀ v ∈ r.writers, v.packets ≠ [] → P v.packets) ↔
        ∀ v ∈ (Recorder.feedAll {} (Recorder.untilRefused base.isOgg {} chunks)).writers, v.packets ≠ [] → P v.packets := by
  have hstart : AtChunk base {} { outputs := { files } } := .start files
  rcases hstart.loop urandom ending chunks with
    ⟨huntil, d, hloop, -, hd⟩ | ⟨-, d, e, v, hloop, hpackets, hd⟩
  · rw [hloop, huntil]
    exact ⟨_, hd.stopped, fun _ => Iff.rfl⟩
  · rw [hloop]
    refine ⟨_, hd, fun P => ?_⟩
    generalize Recorder.feedAll {} (Recorder.untilRefused base.isOgg {} chunks) = r at hpackets
    simp only [Recorder.writers, Option.toList_some, List.mem_append, List.mem_singleton, or_imp, forall_and, forall_eq]
    refine and_congr_right fun _ => ?_
    rw [hpackets]
    cases r.current with
    | none => exact ⟨fun _ u hu => absurd hu List.not_mem_nil, fun _ hne => absurd rfl hne⟩
    | some u => simp

end

section
variable {base : AudioBase} {r : Recorder AudioChunk} {o : Outputs} {w : RecordingWriter} {index : Nat}

theorem mem_prune_recordings : w ∈ o.prune.recordings ↔ w ∈ o.recordings ∧ w.chunkCount ≠ 0 := by
  rw [Outputs.prune, List.mem_filter, decide_eq_true_eq]

theorem Settled.at (h : Settled base r o) (hindex : index < r.writers.length) :
    ∃ v w, r.writers[index]? = some v ∧ o.recordings[index]? = some w ∧ ClosedAt base index v w := by
  have hv := List.getElem?_eq_getElem hindex
  obtain ⟨w, hw, hclosed⟩ := h.recordings.exists_right hv
  exact ⟨_, w, hv, hw, hclosed⟩

end

end PendantClient
