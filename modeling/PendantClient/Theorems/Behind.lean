import PendantClient.Theorems.Outputs

/-! A run over one stream and then another: where the first ends between two recordings, the second is decoded as it is alone,
    its recordings numbered behind those of the first. -/

namespace PendantClient

/-! ### The splitter behind writers that are closed -/

/-- The call for a writer that has `count` others before it. -/
def WriterCall.shift {χ : Type} (count : Nat) : WriterCall χ → WriterCall χ
  | .openWriter index c => .openWriter (count + index) c
  | .setOpenedWithStartMarker index => .setOpenedWithStartMarker (count + index)
  | .add index c => .add (count + index) c
  | .setClosedWithStopMarker index => .setClosedWithStopMarker (count + index)
  | .close index => .close (count + index)

namespace Recorder
variable {χ : Type} [Flagged χ]

/-- A recorder that has closed other writers before. -/
def behind (vs : List (Writer χ)) (r : Recorder χ) : Recorder χ := { r with closed := vs ++ r.closed }

theorem behind_take (vs : List (Writer χ)) (r : Recorder χ) (w : Writer χ) (c : χ) :
    (r.behind vs).take w c = (r.take w c).behind vs := by
  rw [take, take]
  split
  · simp [behind]
  · rfl

theorem behind_feed (vs : List (Writer χ)) (r : Recorder χ) (c : χ) : (r.behind vs).feed c = (r.feed c).behind vs := by
  cases hs : isRecordingStart c with
  | true =>
    cases hw : r.current with
    | none => rw [feed_note hw hs, feed_note (r := r.behind vs) hw hs]; rfl
    | some w =>
      cases ho : w.openedWithStartMarker with
      | true => rw [feed_restart hw hs ho, feed_restart (r := r.behind vs) hw hs ho]; simp [behind]
      | false => rw [feed_promote hw hs ho, feed_promote (r := r.behind vs) hw hs ho, behind_take]
  | false =>
    cases hw : r.current with
    | none =>
      rw [feed_none hw hs, feed_none (r := r.behind vs) hw hs]
      split
      · exact behind_take vs { r with pending := false } _ c
      · rfl
    | some w => rw [feed_body hw hs, feed_body (r := r.behind vs) hw hs, behind_take]

omit [Flagged χ] in
theorem length_behind (vs : List (Writer χ)) (r : Recorder χ) : (r.behind vs).closed.length = vs.length + r.closed.length :=
  List.length_append

theorem shift_stopCalls (count index : Nat) (c : χ) :
    (stopCalls index c).map (WriterCall.shift count) = stopCalls (count + index) c := by
  rw [stopCalls, stopCalls]
  split <;> rfl

theorem shift_takeCalls (count index : Nat) (c : χ) :
    (takeCalls index c).map (WriterCall.shift count) = takeCalls (count + index) c := by
  rw [takeCalls, takeCalls, List.map_append, shift_stopCalls]
  split <;> rfl

theorem behind_calls (vs : List (Writer χ)) (r : Recorder χ) (c : χ) :
    (r.behind vs).calls c = (r.calls c).map (WriterCall.shift vs.length) := by
  have hcurrent : (r.behind vs).current = r.current := rfl
  have hpending : (r.behind vs).pending = r.pending := rfl
  rw [calls, calls, length_behind, hcurrent, hpending]
  rcases r.current with - | w <;> rcases isRecordingStart c with - | -
  · dsimp only
    split
    · rw [List.map_append, List.map_append, shift_takeCalls]
      cases r.pending <;> rfl
    · rfl
  · rfl
  · exact (shift_takeCalls _ _ c).symm
  · dsimp only
    split
    · rfl
    · rw [List.map_append, shift_takeCalls]
      rfl

end Recorder

/-! ### Recordings behind others -/

/-- A recording as it is numbered behind `count` others. -/
def RecordingWriter.renumbered (base : AudioBase) (count : Nat) (w : RecordingWriter) : RecordingWriter :=
  { w with recordingIndex := count + w.recordingIndex, path := base.recordingPath (count + w.recordingIndex) }

section
variable {base : AudioBase} {count : Nat} {w : RecordingWriter}

theorem renumbered_note (w : RecordingWriter) (c : AudioChunk) :
    (w.renumbered base count).note c = (w.note c).renumbered base count := by
  by_cases hfirst : w.firstAbsoluteTimestampMs = 0 <;> simp [RecordingWriter.note, RecordingWriter.renumbered, hfirst]

theorem renumbered_add (w : RecordingWriter) (c : AudioChunk) : (w.renumbered base count).add c =
    ((w.add c).1.renumbered base count, (w.add c).2) := by
  rw [RecordingWriter.add, RecordingWriter.add]
  split
  · rfl
  · have hsink : (w.renumbered base count).sink = w.sink := rfl
    rw [hsink]
    rcases w.sink.add c.opus with ⟨sink, - | e⟩
    · exact Prod.ext (renumbered_note { w with sink } c) rfl
    · rfl

theorem renumbered_init (index : Nat) (urandom : Fin 4 → UInt8) : RecordingWriter.init base (count + index) urandom =
    (RecordingWriter.init base index urandom).map (RecordingWriter.renumbered base count) := by
  rw [RecordingWriter.init, RecordingWriter.init]
  cases base.isOgg with
  | true =>
    rcases OggOpusWriter.init urandom with e | w
    · rfl
    · rfl
  | false => rfl

/-- The recordings of a run behind those that are there. -/
def Behind (base : AudioBase) (ws : List RecordingWriter) (o o' : Outputs) : Prop :=
  o'.recordings = ws ++ o.recordings.map (RecordingWriter.renumbered base ws.length)

variable {ws : List RecordingWriter} {o o' : Outputs}

theorem Behind.getElem? (h : Behind base ws o o') (index : Nat) :
    o'.recordings[ws.length + index]? = o.recordings[index]?.map (RecordingWriter.renumbered base ws.length) := by
  rw [h, List.getElem?_append_right (Nat.le_add_right _ _), Nat.add_sub_cancel_left, List.getElem?_map]

theorem Behind.store (h : Behind base ws o o') (index : Nat) (w : RecordingWriter) :
    Behind base ws (o.store index w) (o'.store (ws.length + index) (w.renumbered base ws.length)) := by
  show o'.recordings.set _ _ = ws ++ (o.recordings.set index w).map _
  rw [h, List.set_append_right _ _ (Nat.le_add_right _ _), Nat.add_sub_cancel_left, List.map_set]

theorem Behind.modify (h : Behind base ws o o') (index : Nat) {f : RecordingWriter → RecordingWriter}
    (hf : ∀ w, f (w.renumbered base ws.length) = (f w).renumbered base ws.length) :
    Behind base ws (o.modify index f) (o'.modify (ws.length + index) f) := by
  rw [Outputs.modify, Outputs.modify, h.getElem?]
  rcases o.recordings[index]? with - | w
  · exact h
  · rw [Option.map_some]
    dsimp only
    rw [hf]
    exact h.store index (f w)

variable (base) in
/-- A call behind other recordings does what it does alone. -/
theorem Behind.perform (h : Behind base ws o o') (urandom : Nat → Fin 4 → UInt8) (call : WriterCall AudioChunk) :
    Behind base ws (o.perform base (fun index => urandom (ws.length + index)) call).1
        (o'.perform base urandom (call.shift ws.length)).1 ∧
      (o'.perform base urandom (call.shift ws.length)).2 = (o.perform base (fun index => urandom (ws.length + index)) call).2 := by
  cases call with
  | openWriter index c =>
    rw [WriterCall.shift, Outputs.perform, Outputs.perform, renumbered_init]
    rcases RecordingWriter.init base index (urandom (ws.length + index)) with e | w
    · exact ⟨h, rfl⟩
    · refine ⟨?_, rfl⟩
      show o'.recordings ++ _ = _
      rw [h, List.append_assoc, List.map_append]
      rfl
  | setOpenedWithStartMarker index => exact ⟨h.modify index fun _ => rfl, rfl⟩
  | add index c =>
    rw [WriterCall.shift, Outputs.perform, Outputs.perform, h.getElem?]
    rcases o.recordings[index]? with - | w
    · exact ⟨h, rfl⟩
    · rw [Option.map_some]
      dsimp only
      rw [renumbered_add]
      exact ⟨h.store index _, rfl⟩
  | setClosedWithStopMarker index => exact ⟨h.modify index fun _ => rfl, rfl⟩
  | close index => exact ⟨h.modify index fun _ => rfl, rfl⟩

variable (base) in
theorem Behind.performAll (urandom : Nat → Fin 4 → UInt8) (calls : List (WriterCall AudioChunk)) : ∀ {o o' : Outputs},
    Behind base ws o o' →
      Behind base ws (o.performAll base (fun index => urandom (ws.length + index)) calls).1
          (o'.performAll base urandom (calls.map (WriterCall.shift ws.length))).1 ∧
        (o'.performAll base urandom (calls.map (WriterCall.shift ws.length))).2 =
          (o.performAll base (fun index => urandom (ws.length + index)) calls).2 := by
  induction calls with
  | nil => exact fun h => ⟨h, rfl⟩
  | cons call calls ih =>
    intro o o' h
    obtain ⟨hbehind, hraised⟩ := h.perform base urandom call
    rw [List.map_cons, Outputs.performAll, Outputs.performAll]
    generalize o.perform base (fun index => urandom (ws.length + index)) call = done at hbehind hraised
    generalize o'.perform base urandom (call.shift ws.length) = done' at hbehind hraised
    obtain ⟨o₁, raised⟩ := done
    obtain ⟨o₁', raised'⟩ := done'
    cases hraised
    rcases raised with - | e
    · exact ih hbehind
    · exact ⟨hbehind, rfl⟩

theorem Behind.closeAll (h : Behind base ws o o') (hclosed : ∀ w ∈ ws, w.close = w) : Behind base ws o.closeAll o'.closeAll := by
  show o'.recordings.map _ = ws ++ (o.recordings.map _).map _
  rw [h, List.map_append, List.map_map, List.map_map, List.map_congr_left hclosed, List.map_id']
  rfl

theorem Behind.prune (h : Behind base ws o o') : o'.prune.recordings =
    ws.filter (fun w => w.chunkCount ≠ 0) ++ o.prune.recordings.map (RecordingWriter.renumbered base ws.length) := by
  rw [Outputs.prune, Outputs.prune]
  dsimp only
  rw [h, List.filter_append, List.filter_map]
  rfl

end

/-! ### A run that goes on behind another -/

/-- The calls that close the open writer, if there is one. -/
def Recorder.finalCalls {χ : Type} (r : Recorder χ) : List (WriterCall χ) :=
  r.current.toList.map fun _ => .close r.closed.length

theorem Represents.finalize_calls {χ : Type} {s : Splitter χ} {r : Recorder χ} (h : Represents s r) :
    s.finalize.calls.drop s.calls.length = r.finalCalls := by
  rw [Splitter.finalize, h.current, Recorder.finalCalls]
  rcases r.current with - | w
  · exact List.drop_length
  · exact List.drop_left

/-- A run, and one that does the same behind closed writers. -/
structure Alongside (base : AudioBase) (vs : List (Writer AudioChunk)) (ws : List RecordingWriter) (r : Recorder AudioChunk)
    (d d' : Decoding) : Prop where
  length : vs.length = ws.length
  represents : Represents d.splitter r
  represents' : Represents d'.splitter (r.behind vs)
  outputs : Behind base ws d.outputs d'.outputs

section
variable {base : AudioBase} {urandom : Nat → Fin 4 → UInt8} {vs : List (Writer AudioChunk)} {ws : List RecordingWriter}
  {r : Recorder AudioChunk} {d d' : Decoding}

theorem log_keeps (d : Decoding) (c : AudioChunk) : (d.log c).splitter = d.splitter ∧ (d.log c).outputs = d.outputs := by
  rw [Decoding.log]
  split <;> exact ⟨rfl, rfl⟩

theorem count_keeps (d : Decoding) (c : AudioChunk) : (d.count c).splitter = d.splitter ∧ (d.count c).outputs = d.outputs := by
  rw [Decoding.count]
  split <;> exact ⟨rfl, rfl⟩

theorem Alongside.log (h : Alongside base vs ws r d d') (c : AudioChunk) : Alongside base vs ws r (d.log c) (d'.log c) := by
  obtain ⟨hsplitter, houtputs⟩ := log_keeps d c
  obtain ⟨hsplitter', houtputs'⟩ := log_keeps d' c
  refine ⟨h.length, hsplitter ▸ h.represents, hsplitter' ▸ h.represents', ?_⟩
  rw [houtputs, houtputs']
  exact h.outputs

theorem Alongside.count (h : Alongside base vs ws r d d') (c : AudioChunk) : Alongside base vs ws r (d.count c) (d'.count c) := by
  obtain ⟨hsplitter, houtputs⟩ := count_keeps d c
  obtain ⟨hsplitter', houtputs'⟩ := count_keeps d' c
  refine ⟨h.length, hsplitter ▸ h.represents, hsplitter' ▸ h.represents', ?_⟩
  rw [houtputs, houtputs']
  exact h.outputs

variable (urandom) in
theorem Alongside.feed (h : Alongside base vs ws r d d') (c : AudioChunk) :
    let fed := d.feed base (fun index => urandom (ws.length + index)) c
    let fed' := d'.feed base urandom c
    fed'.2 = fed.2 ∧ (fed.2 = none → Alongside base vs ws (r.feed c) fed.1 fed'.1) := by
  intro fed fed'
  have hcalls : (d.splitter.feed c none).1.calls.drop d.splitter.calls.length = r.calls c := by
    rw [h.represents.calls, List.drop_left]
  have hcalls' : (d'.splitter.feed c none).1.calls.drop d'.splitter.calls.length = (r.calls c).map (WriterCall.shift ws.length) := by
    rw [h.represents'.calls, List.drop_left, Recorder.behind_calls, h.length]
  obtain ⟨hbehind, hraised⟩ := h.outputs.performAll base urandom (r.calls c)
  have hfed : fed = d.feed base (fun index => urandom (ws.length + index)) c := rfl
  have hfed' : fed' = d'.feed base urandom c := rfl
  rw [Decoding.feed, hcalls] at hfed
  rw [Decoding.feed, hcalls'] at hfed'
  generalize d.outputs.performAll base (fun index => urandom (ws.length + index)) (r.calls c) = done at hfed hbehind hraised
  generalize d'.outputs.performAll base urandom ((r.calls c).map (WriterCall.shift ws.length)) = done' at hfed' hbehind hraised
  obtain ⟨o, raised⟩ := done
  obtain ⟨o', raised'⟩ := done'
  cases hraised
  rw [hfed, hfed']
  rcases raised with - | e
  · refine ⟨rfl, fun _ => ⟨h.length, h.represents.feed, ?_, hbehind⟩⟩
    rw [← Recorder.behind_feed]
    exact h.represents'.feed
  · exact ⟨rfl, fun hnone => by cases hnone⟩

variable (urandom) in
theorem Alongside.loop (ε : Type) (chunks : List AudioChunk) : ∀ {r : Recorder AudioChunk} {d d' : Decoding},
    Alongside base vs ws r d d' →
      let run := d.loop base (fun index => urandom (ws.length + index)) (none : Option ε) chunks
      let run' := d'.loop base urandom (none : Option ε) chunks
      run'.2 = run.2 ∧ (run.2 = none → Alongside base vs ws (r.feedAll chunks) run.1 run'.1) := by
  induction chunks with
  | nil => exact fun h => ⟨rfl, fun _ => h⟩
  | cons c chunks ih =>
    intro r d d' h
    obtain ⟨hraised, hfed⟩ := (h.log c).feed urandom c
    rw [Decoding.loop, Decoding.loop]
    generalize (d.log c).feed base (fun index => urandom (ws.length + index)) c = fed at hraised hfed
    generalize (d'.log c).feed base urandom c = fed' at hraised hfed
    obtain ⟨d₁, raised⟩ := fed
    obtain ⟨d₁', raised'⟩ := fed'
    cases hraised
    rcases raised with - | e
    · exact ih ((hfed rfl).count c)
    · exact ⟨rfl, fun hnone => by cases hnone⟩

variable (urandom) in
theorem Alongside.closeWriters (h : Alongside base vs ws r d d') (hclosed : ∀ w ∈ ws, w.close = w) :
    Behind base ws (d.closeWriters base fun index => urandom (ws.length + index)).outputs (d'.closeWriters base urandom).outputs := by
  have hcalls := h.represents.finalize_calls
  have hcalls' : d'.splitter.finalize.calls.drop d'.splitter.calls.length = r.finalCalls.map (WriterCall.shift ws.length) := by
    rw [h.represents'.finalize_calls, Recorder.finalCalls, Recorder.finalCalls, Recorder.length_behind, h.length, List.map_map]
    rfl
  rw [Decoding.closeWriters, Decoding.closeWriters, hcalls, hcalls']
  exact (h.outputs.performAll base urandom r.finalCalls).1.closeAll hclosed

end

/-! ### One run over two streams -/

/-- A stream that leaves the splitter between two recordings: no writer is open, and no start marker waits for one. -/
def EndsBetween (chunks : List AudioChunk) : Prop :=
  (Splitter.feedAll {} chunks).current = none ∧ (Splitter.feedAll {} chunks).pendingStartMarker = false

instance (chunks : List AudioChunk) : Decidable (EndsBetween chunks) := inferInstanceAs (Decidable (_ ∧ _))

/-- The number of recordings that a stream opens. -/
def opened (chunks : List AudioChunk) : Nat := (Splitter.feedAll {} chunks).nextIndex

section
variable {ε : Type} {base : AudioBase} {urandom : Nat → Fin 4 → UInt8} {files : Files}

variable (base urandom) in
theorem loop_append (chunks more : List AudioChunk) : ∀ d : Decoding,
    d.loop base urandom (none : Option ε) (chunks ++ more) =
      match d.loop base urandom (none : Option ε) chunks with
      | (d, none) => d.loop base urandom none more
      | (d, some e) => (d, some e) := by
  induction chunks with
  | nil => exact fun _ => rfl
  | cons c chunks ih =>
    intro d
    rw [List.cons_append, Decoding.loop, Decoding.loop]
    rcases (d.log c).feed base urandom c with ⟨d₁, - | e⟩
    · exact ih (d₁.count c)
    · rfl

variable (urandom) in
/-- What is there behind a stream that ends between two recordings. -/
theorem AtChunk.between {chunks : List AudioChunk} {r : Recorder AudioChunk} {d : Decoding} (h : AtChunk base r d)
    (hfed : Represents (Splitter.feedAll {} chunks) r) (hbetween : EndsBetween chunks) :
    r = Recorder.behind r.closed {} ∧ r.closed.length = d.outputs.recordings.length ∧
      d.outputs.recordings.length = opened chunks ∧ (∀ w ∈ d.outputs.recordings, w.close = w) ∧
      (d.closeWriters base urandom).outputs = d.outputs := by
  have hcurrent : r.current = none := by
    have hnone := hfed.current.symm.trans hbetween.1
    rwa [Option.map_eq_none_iff] at hnone
  have hpending : r.pending = false := hfed.pending.symm.trans hbetween.2
  have hwriters : r.writers = r.closed := by rw [Recorder.writers, hcurrent, Option.toList_none, List.append_nil]
  have hclosed := h.mirrors.atRest hcurrent
  refine ⟨?_, hclosed.length, ?_, fun w hw => ?_, ?_⟩
  · obtain ⟨closed, current, pending⟩ := r
    cases hcurrent
    cases hpending
    rw [Recorder.behind, List.append_nil]
  · rw [opened, hfed.nextIndex, hwriters, hclosed.length]
  · obtain ⟨i, v, -, -, hended⟩ := hclosed.exists_of_mem hw
    rw [RecordingWriter.close, hended.sink.close]
  · have hsettled : Settled base r d.outputs := ⟨hwriters ▸ hclosed, h.mirrors.files⟩
    have hcalls := h.represents.finalize_calls
    rw [Recorder.finalCalls, hcurrent] at hcalls
    rw [Decoding.closeWriters, hcalls]
    exact hsettled.closeAll

variable (ε base urandom files) in
/-- One run over two streams, the first of which ends between two recordings, is a run over each. -/
theorem atManifest_append {chunks : List AudioChunk} (more : List AudioChunk) (hbetween : EndsBetween chunks) :
    let first := Decoding.atManifest base urandom files chunks (none : Option ε)
    let second := Decoding.atManifest base (fun index => urandom (opened chunks + index)) files more (none : Option ε)
    let both := Decoding.atManifest base urandom files (chunks ++ more) (none : Option ε)
    (both.2 = none ↔ first.2 = none ∧ second.2 = none) ∧
      (both.2 = none → both.1.outputs.recordings =
        first.1.outputs.recordings ++ second.1.outputs.recordings.map (RecordingWriter.renumbered base (opened chunks))) := by
  intro first second both
  have hfed : Represents (Splitter.feedAll {} chunks) (Recorder.feedAll {} chunks) := represents_start.feedAll chunks
  have hfirst : first = ((Decoding.closeWriters base urandom
    (Decoding.loop base urandom (none : Option ε) { outputs := { files } } chunks).1).prune,
      (Decoding.loop base urandom (none : Option ε) { outputs := { files } } chunks).2) := rfl
  have hboth : both = ((Decoding.closeWriters base urandom
    (Decoding.loop base urandom (none : Option ε) { outputs := { files } } (chunks ++ more)).1).prune,
      (Decoding.loop base urandom (none : Option ε) { outputs := { files } } (chunks ++ more)).2) := rfl
  rw [loop_append] at hboth
  have hunfed : AtChunk base {} { outputs := { files } } := .start files
  rcases hunfed.loop urandom (none : Option ε) chunks with
    ⟨-, d, hloop, -, hd⟩ | ⟨-, d, e, v, hloop, -, -⟩
  · obtain ⟨hrecorder, hlength, hopened, hclosed, hsame⟩ := hd.between urandom hfed hbetween
    have hstart : Alongside base (Recorder.feedAll {} chunks).closed d.outputs.recordings {} { outputs := { files } } d :=
      ⟨hlength, represents_start, hrecorder ▸ hd.represents, by simp [Behind]⟩
    obtain ⟨hraised, hended⟩ := hstart.loop urandom ε more
    rw [hopened] at hraised hended
    have hsecond : both.2 = second.2 := by
      rw [hboth, hloop]
      exact hraised
    rw [hsecond, hfirst, hloop]
    refine ⟨⟨fun h => ⟨rfl, h⟩, fun h => h.2⟩, fun hnone => ?_⟩
    have halong := ((hended hnone).closeWriters urandom hclosed).prune
    rw [hopened] at halong
    rw [hboth, hloop]
    refine halong.trans (congrArg (· ++ _) ?_)
    show _ = (d.closeWriters base urandom).outputs.prune.recordings
    rw [hsame]
    rfl
  · have hfirst₂ : first.2 = some (.own e) := by rw [hfirst, hloop]
    have hboth₂ : both.2 = some (.own e) := by rw [hboth, hloop]
    rw [hfirst₂, hboth₂]
    simp

end

end PendantClient
