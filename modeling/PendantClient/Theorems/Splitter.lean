import Mathlib.Data.List.Nodup
import PendantClient.Splitter

/-! The splitter by its writers. `Recorder` holds them by value, and every splitter run is a recorder run;
    from it, which chunks are added, and in what order. -/

namespace PendantClient

/-! ### The recorder -/

/-- The writers that are closed, the open one, and whether a start marker waits for a writer. -/
structure Recorder (χ : Type) where
  closed : List (Writer χ) := []
  current : Option (Writer χ) := none
  pending : Bool := false

/-- The writer once it has been given the audio of a chunk, if it carries any. -/
def Writer.takeAudio {χ : Type} [Flagged χ] (w : Writer χ) (c : χ) : Writer χ :=
  if hasAudio c then { w with added := w.added ++ [c] } else w

namespace Recorder
variable {χ : Type} [Flagged χ]

/-- The writers in the order in which they were opened. -/
def writers (r : Recorder χ) : List (Writer χ) := r.closed ++ r.current.toList

/-- A chunk taken by the writer `w`, which a stop marker closes. -/
def take (r : Recorder χ) (w : Writer χ) (c : χ) : Recorder χ :=
  if isRecordingStop c then
    { r with closed := r.closed ++ [{ w.takeAudio c with closedWithStopMarker := true }], current := none }
  else { r with current := some (w.takeAudio c) }

/-- One more chunk. -/
def feed (r : Recorder χ) (c : χ) : Recorder χ :=
  match r.current, isRecordingStart c with
  | none, true => { r with pending := true }
  | none, false => if hasAudio c then { r with pending := false }.take { openedWithStartMarker := r.pending } c else r
  | some w, true =>
    if w.openedWithStartMarker then { closed := r.closed ++ [w], current := none, pending := true }
    else r.take { w with openedWithStartMarker := true } c
  | some w, false => r.take w c

/-- More chunks, one after the other. -/
def feedAll (r : Recorder χ) (chunks : List χ) : Recorder χ := chunks.foldl feed r

section
variable {r : Recorder χ} {w : Writer χ} {c : χ}

theorem feed_note (hw : r.current = none) (hs : isRecordingStart c = true) : r.feed c = { r with pending := true } := by
  rw [feed, hw, hs]

theorem feed_none (hw : r.current = none) (hs : isRecordingStart c = false) :
    r.feed c =
      if hasAudio c then { r with pending := false }.take { openedWithStartMarker := r.pending } c else r := by
  rw [feed, hw, hs]

theorem feed_restart (hw : r.current = some w) (hs : isRecordingStart c = true) (ho : w.openedWithStartMarker = true) :
    r.feed c = { closed := r.closed ++ [w], current := none, pending := true } := by
  rw [feed, hw, hs]
  exact if_pos ho

theorem feed_promote (hw : r.current = some w) (hs : isRecordingStart c = true) (ho : w.openedWithStartMarker = false) :
    r.feed c = r.take { w with openedWithStartMarker := true } c := by
  rw [feed, hw, hs]
  exact if_neg (by simp [ho])

theorem feed_body (hw : r.current = some w) (hs : isRecordingStart c = false) : r.feed c = r.take w c := by
  rw [feed, hw, hs]

end

end Recorder

/-! ### Every splitter run is a recorder run -/

/-- The splitter's references and flags are those of the recorder's writers. -/
structure Represents {χ : Type} (s : Splitter χ) (r : Recorder χ) : Prop where
  writers : s.writers = r.writers
  nextIndex : s.nextIndex = r.writers.length
  current : s.current = r.current.map fun _ => r.closed.length
  explicit : s.currentHasExplicitStart = r.current.any (·.openedWithStartMarker)
  pending : s.pendingStartMarker = r.pending

section
variable {χ : Type} [Flagged χ] {s : Splitter χ} {r : Recorder χ} {w : Writer χ} {c : χ}

omit [Flagged χ] in
theorem writers_call (s : Splitter χ) (c : WriterCall χ) : (s.call c).writers = c.apply s.writers := by
  rw [Splitter.call, Splitter.writers, List.foldl_append]
  rfl

theorem modify_last {α : Type} (xs : List α) (x : α) (f : α → α) : (xs ++ [x]).modify xs.length f = xs ++ [f x] := by
  induction xs with
  | nil => rfl
  | cons y xs ih => rw [List.cons_append, List.length_cons, List.modify_succ_cons, ih, List.cons_append]

omit [Flagged χ] in
theorem Represents.writers_some (h : Represents s r) (hw : r.current = some w) : s.writers = r.closed ++ [w] := by
  rw [h.writers, Recorder.writers, hw]
  rfl

omit [Flagged χ] in
theorem Represents.current_some (h : Represents s r) (hw : r.current = some w) : s.current = some r.closed.length := by
  rw [h.current, hw]
  rfl

omit [Flagged χ] in
theorem Represents.current_none (h : Represents s r) (hw : r.current = none) : s.current = none := by
  rw [h.current, hw]
  rfl

omit [Flagged χ] in
theorem Represents.modify (h : Represents s r) (hw : r.current = some w) {k : WriterCall χ} {f : Writer χ → Writer χ}
    (hk : ∀ ws, k.apply ws = ws.modify r.closed.length f) :
    Represents { s.call k with currentHasExplicitStart := (f w).openedWithStartMarker } { r with current := some (f w) } where
  writers := by
    show (s.call k).writers = _
    rw [writers_call, h.writers_some hw, hk, modify_last]
    rfl
  nextIndex := by
    have hn := h.nextIndex
    rw [Recorder.writers, hw, List.length_append] at hn
    show s.nextIndex = _
    rw [hn, Recorder.writers, List.length_append]
    rfl
  current := h.current_some hw
  explicit := rfl
  pending := h.pending

omit [Flagged χ] in
theorem Represents.add (h : Represents s r) (hw : r.current = some w) :
    Represents (s.call (.add r.closed.length c)) { r with current := some { w with added := w.added ++ [c] } } := by
  have hm := h.modify hw (k := .add r.closed.length c) (f := fun w => { w with added := w.added ++ [c] }) fun _ => rfl
  have he : s.currentHasExplicitStart = w.openedWithStartMarker := by
    rw [h.explicit, hw]
    rfl
  rw [show s.call (.add r.closed.length c) =
    { s.call (.add r.closed.length c) with currentHasExplicitStart := w.openedWithStartMarker } by rw [← he]; rfl]
  exact hm

omit [Flagged χ] in
theorem Represents.close (h : Represents s r) (hw : r.current = some w) (withStopMarker : Bool) :
    Represents (s.close withStopMarker)
      { r with
        closed := r.closed ++ [{ w with closedWithStopMarker := withStopMarker || w.closedWithStopMarker }]
        current := none } := by
  have hn := h.nextIndex
  rw [Recorder.writers, hw] at hn
  rw [Splitter.close, h.current_some hw]
  constructor
  · dsimp only
    cases withStopMarker with
    | true =>
      show ((s.call _).call _).writers = _
      rw [writers_call, writers_call, h.writers_some hw]
      show (r.closed ++ [w]).modify r.closed.length _ = _
      rw [modify_last, Recorder.writers, Option.toList_none, List.append_nil]
      rfl
    | false =>
      show (s.call _).writers = _
      rw [writers_call, h.writers_some hw, Recorder.writers, Option.toList_none, List.append_nil]
      rfl
  · cases withStopMarker <;>
    · show s.nextIndex = _
      rw [hn, Recorder.writers, Option.toList_none, List.append_nil, List.length_append, List.length_append]
      rfl
  · rfl
  · rfl
  · cases withStopMarker <;> exact h.pending

omit [Flagged χ] in
theorem Represents.openWriter (h : Represents s r) (hw : r.current = none) (c : χ) (hasExplicitStart : Bool) :
    (s.openWriter c hasExplicitStart).2 = r.closed.length ∧
      Represents (s.openWriter c hasExplicitStart).1
        { r with current := some { openedWithStartMarker := hasExplicitStart } } := by
  have hn : s.nextIndex = r.closed.length := by
    rw [h.nextIndex, Recorder.writers, hw, Option.toList_none, List.append_nil]
  have hws : s.writers = r.closed := by
    rw [h.writers, Recorder.writers, hw, Option.toList_none, List.append_nil]
  have hopen : (s.call (.openWriter s.nextIndex c)).writers = r.closed ++ [({ added := [] } : Writer χ)] := by
    rw [writers_call, hws]
    rfl
  have hlen (w : Writer χ) : s.nextIndex + 1 = (r.closed ++ [w]).length := by
    rw [hn, List.length_append]
    rfl
  cases hasExplicitStart with
  | true =>
    refine ⟨hn, ?_, hlen _, congrArg some hn, rfl, h.pending⟩
    show ((s.call _).call _).writers = _
    rw [writers_call, hopen, hn]
    exact modify_last _ _ _
  | false => exact ⟨hn, hopen, hlen _, congrArg some hn, rfl, h.pending⟩

theorem Represents.feedStop (h : Represents s r) (hw : r.current = some w) :
    Represents (s.feedStop c)
      (if isRecordingStop c then
        { r with closed := r.closed ++ [{ w with closedWithStopMarker := true }], current := none } else r) := by
  rw [Splitter.feedStop, h.current_some hw, Option.isSome_some, Bool.and_true]
  split
  · exact h.close hw true
  · exact h

theorem Represents.feedAudio (h : Represents s r) (hw : r.current = some w) :
    Represents (s.feedAudio c none).1 (r.take w c) := by
  rw [Splitter.feedAudio, Recorder.take, Writer.takeAudio]
  split
  · rw [h.current_some hw]
    exact (h.add hw).feedStop rfl
  · have hr : r = { r with current := some w } := by rw [← hw]
    rw [← hr]
    exact h.feedStop hw

theorem Represents.feedAudio_none (h : Represents s r) (hw : r.current = none) :
    Represents (s.feedAudio c none).1
      (if hasAudio c then { r with pending := false }.take { openedWithStartMarker := r.pending } c else r) := by
  by_cases ha : hasAudio c = true
  · obtain ⟨hindex, hopen⟩ := h.openWriter hw c r.pending
    rw [Splitter.feedAudio, h.current_none hw, h.pending, if_pos ha, if_pos ha, Recorder.take,
      Writer.takeAudio, if_pos ha]
    dsimp only
    rw [hindex]
    generalize (s.openWriter c r.pending).1 = s' at hopen ⊢
    have hpend : Represents (if r.pending then { s' with pendingStartMarker := false } else s')
        { r with pending := false, current := some { openedWithStartMarker := r.pending } } := by
      cases hp : r.pending with
      | true =>
        rw [hp] at hopen
        exact ⟨hopen.writers, hopen.nextIndex, hopen.current, hopen.explicit, rfl⟩
      | false =>
        have hpending : s'.pendingStartMarker = r.pending := hopen.pending
        rw [hp] at hopen hpending
        exact ⟨hopen.writers, hopen.nextIndex, hopen.current, hopen.explicit, hpending⟩
    exact (hpend.add rfl).feedStop rfl
  · rw [Splitter.feedAudio, if_neg ha, if_neg ha, Splitter.feedStop, h.current_none hw, Option.isSome_none,
      Bool.and_false]
    exact h

theorem feed_start_none (hs : isRecordingStart c = true) (hcur : s.current = none) :
    s.feed c none = ({ s with pendingStartMarker := true }, none) := by
  simp [Splitter.feed, hs, hcur]

theorem feed_start_explicit (hs : isRecordingStart c = true) (hcur : s.current.isSome)
    (hexp : s.currentHasExplicitStart = true) (hclose : (s.close false).current = none) :
    s.feed c none = ({ s.close false with pendingStartMarker := true }, none) := by
  simp [Splitter.feed, hs, hcur, hexp, hclose]

theorem feed_start_preroll {index : Nat} (hs : isRecordingStart c = true) (hcur : s.current = some index)
    (hexp : s.currentHasExplicitStart = false) :
    s.feed c none =
      ({ s with currentHasExplicitStart := true }.call (.setOpenedWithStartMarker index)).feedAudio c none := by
  simp [Splitter.feed, hs, hcur, hexp]

theorem feed_not_start (hs : isRecordingStart c = false) : s.feed c none = s.feedAudio c none := by
  simp [Splitter.feed, hs]

theorem Represents.feed (h : Represents s r) : Represents (s.feed c none).1 (r.feed c) := by
  have hexp := h.explicit
  cases hw : r.current with
  | none =>
    cases hs : isRecordingStart c with
    | true =>
      rw [feed_start_none hs (h.current_none hw), Recorder.feed_note hw hs]
      exact ⟨h.writers, h.nextIndex, h.current, h.explicit, rfl⟩
    | false =>
      rw [feed_not_start hs, Recorder.feed_none hw hs]
      exact h.feedAudio_none hw
  | some w =>
    rw [hw, Option.any_some] at hexp
    cases hs : isRecordingStart c with
    | false =>
      rw [feed_not_start hs, Recorder.feed_body hw hs]
      exact h.feedAudio hw
    | true =>
      cases hopened : w.openedWithStartMarker with
      | true =>
        have hclose := h.close hw false
        rw [feed_start_explicit hs (by rw [h.current_some hw]; rfl) (hexp.trans hopened) hclose.current,
          Recorder.feed_restart hw hs hopened]
        exact ⟨hclose.writers, hclose.nextIndex, hclose.current, hclose.explicit, rfl⟩
      | false =>
        rw [feed_start_preroll hs (h.current_some hw) (hexp.trans hopened), Recorder.feed_promote hw hs hopened]
        exact (h.modify hw (k := .setOpenedWithStartMarker r.closed.length)
          (f := fun w => { w with openedWithStartMarker := true }) fun _ => rfl).feedAudio rfl

theorem Represents.feedAll (chunks : List χ) : ∀ {s : Splitter χ} {r : Recorder χ}, Represents s r →
    Represents (s.feedAll chunks) (r.feedAll chunks) := by
  induction chunks with
  | nil => exact fun h => h
  | cons c chunks ih => exact fun h => ih h.feed

omit [Flagged χ] in
theorem Represents.finalize (h : Represents s r) : s.finalize.writers = r.writers := by
  rw [Splitter.finalize]
  split
  · exact h.writers
  · show (s.call _).writers = _
    rw [writers_call]
    exact h.writers

omit [Flagged χ] in
theorem represents_start : Represents ({} : Splitter χ) {} := ⟨rfl, rfl, rfl, rfl, rfl⟩

theorem splitStream_writers (chunks : List χ) : (splitStream chunks).writers = (Recorder.feedAll {} chunks).writers :=
  (represents_start.feedAll chunks).finalize

end

/-! ### The chunks that reach a writer -/

theorem forall_split_cons {α : Type} {p : List α → α → List α → Prop} {d : α} {rest : List α} :
    (∀ before c after, d :: rest = before ++ c :: after → p before c after) ↔
      p [] d rest ∧ ∀ before c after, rest = before ++ c :: after → p (d :: before) c after := by
  constructor
  · intro h
    exact ⟨h [] d rest rfl, fun before c after heq => h (d :: before) c after (by rw [heq, List.cons_append])⟩
  · rintro ⟨hd, hrest⟩ before c after heq
    cases before with
    | nil =>
      obtain ⟨rfl, rfl⟩ := List.cons.inj heq
      exact hd
    | cons b before =>
      obtain ⟨rfl, htail⟩ := List.cons.inj heq
      exact hrest before c after htail

namespace Recorder
variable {χ : Type} [Flagged χ]

/-- The chunks that the writers have been given. -/
def added (r : Recorder χ) : List χ := r.writers.flatMap (·.added)

/-- A writer is open that has seen no start marker. -/
def preRoll (r : Recorder χ) : Bool := r.current.any (!·.openedWithStartMarker)

/-- A chunk is added if it carries audio, unless it is a start marker that finds no pre-roll writer. -/
def keeps (r : Recorder χ) (c : χ) : Bool := hasAudio c && (!isRecordingStart c || r.preRoll)

/-- The chunks of a stream that are added to a writer. -/
def kept (r : Recorder χ) : List χ → List χ
  | [] => []
  | c :: rest => (if r.keeps c then [c] else []) ++ (r.feed c).kept rest

theorem added_take (r : Recorder χ) (w : Writer χ) (c : χ) :
    (r.take w c).added = r.closed.flatMap (·.added) ++ w.added ++ if hasAudio c then [c] else [] := by
  have hw : (w.takeAudio c).added = w.added ++ if hasAudio c then [c] else [] := by
    rw [Writer.takeAudio]
    split
    · rfl
    · rw [List.append_nil]
  rw [take]
  split
  · rw [added, writers, Option.toList_none, List.append_nil, List.flatMap_append, List.flatMap_singleton, hw,
      List.append_assoc]
  · rw [added, writers, Option.toList_some, List.flatMap_append, List.flatMap_singleton, hw, List.append_assoc]

theorem added_feed (r : Recorder χ) (c : χ) : (r.feed c).added = r.added ++ if r.keeps c then [c] else [] := by
  cases hw : r.current with
  | none =>
    have hadd : r.added = r.closed.flatMap (·.added) := by
      rw [added, writers, hw, Option.toList_none, List.append_nil]
    cases hs : isRecordingStart c with
    | true =>
      have hkeep : r.keeps c = false := by simp [keeps, preRoll, hs, hw]
      rw [feed_note hw hs, hkeep, if_neg (by simp), List.append_nil]
      rfl
    | false =>
      have hkeep : r.keeps c = hasAudio c := by simp [keeps, hs]
      rw [feed_none hw hs, hkeep]
      split
      · rename_i ha
        rw [added_take, if_pos ha, hadd, List.append_nil]
      · rw [List.append_nil]
  | some w =>
    have hadd : r.added = r.closed.flatMap (·.added) ++ w.added := by
      rw [added, writers, hw, Option.toList_some, List.flatMap_append, List.flatMap_singleton]
    cases hs : isRecordingStart c with
    | true =>
      cases ho : w.openedWithStartMarker with
      | true =>
        have hkeep : r.keeps c = false := by simp [keeps, preRoll, hs, hw, ho]
        rw [feed_restart hw hs ho, hkeep, if_neg (by simp), List.append_nil, hadd, added, writers, Option.toList_none,
          List.append_nil, List.flatMap_append, List.flatMap_singleton]
      | false =>
        have hkeep : r.keeps c = hasAudio c := by simp [keeps, preRoll, hw, ho]
        rw [feed_promote hw hs ho, added_take, hadd, hkeep]
    | false =>
      have hkeep : r.keeps c = hasAudio c := by simp [keeps, hs]
      rw [feed_body hw hs, added_take, hadd, hkeep]

theorem added_feedAll (chunks : List χ) : ∀ r : Recorder χ, (r.feedAll chunks).added = r.added ++ r.kept chunks := by
  induction chunks with
  | nil =>
    intro r
    rw [kept, List.append_nil]
    rfl
  | cons c rest ih =>
    intro r
    show ((r.feed c).feedAll rest).added = _
    rw [ih, added_feed, kept, List.append_assoc]

theorem kept_sublist (chunks : List χ) : ∀ r : Recorder χ, (r.kept chunks).Sublist (chunks.filter hasAudio) := by
  induction chunks with
  | nil => exact fun _ => .slnil
  | cons c rest ih =>
    intro r
    rw [kept, List.filter_cons, keeps]
    cases hasAudio c with
    | true =>
      cases !isRecordingStart c || r.preRoll with
      | true => exact (ih _).cons_cons c
      | false => exact (ih _).cons c
    | false => exact ih _

/-- Every start marker with audio finds a pre-roll writer. -/
def NoneDropped (r : Recorder χ) (chunks : List χ) : Prop :=
  ∀ before c after, chunks = before ++ c :: after → isRecordingStart c = true → hasAudio c = true →
    (r.feedAll before).preRoll = true

theorem noneDropped_cons {r : Recorder χ} {c : χ} {rest : List χ} :
    r.NoneDropped (c :: rest) ↔ (isRecordingStart c = true → hasAudio c = true → r.preRoll = true) ∧
      (r.feed c).NoneDropped rest :=
  forall_split_cons

theorem kept_eq_iff (chunks : List χ) : ∀ r : Recorder χ,
    r.kept chunks = chunks.filter hasAudio ↔ r.NoneDropped chunks := by
  induction chunks with
  | nil =>
    intro r
    exact ⟨fun _ before _ _ heq => absurd heq (by simp), fun _ => rfl⟩
  | cons c rest ih =>
    intro r
    have hle := (kept_sublist rest (r.feed c)).length_le
    rw [noneDropped_cons, ← ih, kept, List.filter_cons, keeps]
    cases hasAudio c with
    | false => simp
    | true =>
      cases hs : isRecordingStart c with
      | false => simp
      | true =>
        cases r.preRoll with
        | true => simp
        | false =>
          simp only [Bool.not_true, Bool.or_self, Bool.and_false, Bool.false_eq_true, if_false, if_true, List.nil_append,
            forall_const, false_and, iff_false]
          intro heq
          rw [heq, List.length_cons] at hle
          omega

end Recorder

/-! ### No audio is lost -/

/-- A writer is open that has no explicit start: it holds what came before the start marker. -/
def Splitter.InPreRoll {χ : Type} (s : Splitter χ) : Prop := s.current.isSome = true ∧ s.currentHasExplicitStart = false

/-- Every chunk with audio is added to one writer once, no other chunk is added anywhere, and writer by writer
    the added chunks are the audio of the stream in order. -/
structure AudioKept {χ : Type} [Flagged χ] (stream : List χ) (writers : List (Writer χ)) : Prop where
  once : ∀ x ∈ stream, hasAudio x = true → ∃ before w after, writers = before ++ w :: after ∧
    (∃ xs ys, w.added = xs ++ x :: ys ∧ x ∉ xs ∧ x ∉ ys) ∧ ∀ w' ∈ before ++ after, x ∉ w'.added
  audio : ∀ w ∈ writers, ∀ x ∈ w.added, hasAudio x = true
  order : writers.flatMap (·.added) = stream.filter hasAudio

section
variable {χ : Type} [Flagged χ]

omit [Flagged χ] in
theorem Represents.inPreRoll {s : Splitter χ} {r : Recorder χ} (h : Represents s r) : s.InPreRoll ↔ r.preRoll = true := by
  rw [Splitter.InPreRoll, h.current, h.explicit, Recorder.preRoll]
  cases r.current with
  | none => simp
  | some w => simp

/-- In a stream without repetitions the order says it all. -/
theorem AudioKept.of_order {stream : List χ} {writers : List (Writer χ)} (hnodup : stream.Nodup)
    (order : writers.flatMap (·.added) = stream.filter hasAudio) : AudioKept stream writers := by
  have hadded : (writers.flatMap (·.added)).Nodup := order ▸ hnodup.filter _
  refine ⟨?_, ?_, order⟩
  · intro x hx ha
    obtain ⟨w, hw, hxw⟩ := List.mem_flatMap.mp (order ▸ List.mem_filter.mpr ⟨hx, ha⟩ : x ∈ writers.flatMap (·.added))
    obtain ⟨before, after, rfl⟩ := List.append_of_mem hw
    obtain ⟨xs, ys, hxs⟩ := List.append_of_mem hxw
    rw [List.flatMap_append, List.flatMap_cons, hxs, List.append_assoc xs, List.cons_append, ← List.append_assoc,
      List.nodup_middle, List.nodup_cons] at hadded
    have hnot := hadded.1
    simp only [List.mem_append, not_or] at hnot
    obtain ⟨⟨hbefore, hxs'⟩, hys, hafter⟩ := hnot
    refine ⟨before, w, after, rfl, ⟨xs, ys, hxs, hxs', hys⟩, fun w' hw' hx' => ?_⟩
    rcases List.mem_append.mp hw' with h | h
    · exact hbefore (List.mem_flatMap.mpr ⟨w', h, hx'⟩)
    · exact hafter (List.mem_flatMap.mpr ⟨w', h, hx'⟩)
  · intro w hw x hx
    have := List.mem_flatMap.mpr ⟨w, hw, hx⟩
    rw [order] at this
    exact (List.mem_filter.mp this).2

theorem audioKept_iff {stream : List χ} (hnodup : stream.Nodup) :
    AudioKept stream (splitStream stream).writers ↔
      ∀ before c after, stream = before ++ c :: after → isRecordingStart c = true → hasAudio c = true →
        (Splitter.feedAll {} before).InPreRoll := by
  have hadded : (splitStream stream).writers.flatMap (·.added) = Recorder.kept {} stream := by
    rw [splitStream_writers]
    exact (Recorder.added_feedAll stream {}).trans (List.nil_append _)
  have hdrop : (∀ before c after, stream = before ++ c :: after → isRecordingStart c = true → hasAudio c = true →
      (Splitter.feedAll {} before).InPreRoll) ↔ Recorder.NoneDropped {} stream := by
    simp only [(represents_start.feedAll _).inPreRoll]
    rfl
  rw [hdrop, ← Recorder.kept_eq_iff, ← hadded]
  exact ⟨AudioKept.order, AudioKept.of_order hnodup⟩

end

theorem nodup_zipIdx {α : Type} (xs : List α) : xs.zipIdx.Nodup :=
  List.Nodup.of_map Prod.snd (by rw [List.zipIdx_map_snd]; exact List.nodup_range')

/-- A stream loses no audio exactly when each of its start markers that carries audio arrives while a pre-roll
    writer is open. -/
theorem splitter_keeps_audio_iff (chunks : List AudioChunk) :
    AudioKept chunks.zipIdx (splitStream chunks.zipIdx).writers ↔
      ∀ before c after, chunks.zipIdx = before ++ c :: after → isRecordingStart c = true → hasAudio c = true →
        (Splitter.feedAll {} before).InPreRoll :=
  audioKept_iff (nodup_zipIdx chunks)

/-- A recording whose first chunk carries both the start marker and audio: no writer is ever opened. -/
theorem splitter_drops_start_audio :
    let chunk : AudioChunk := { chunk := { audio := some { opusPackets := [0xB8], didStartRecording := true } } }
    hasAudio chunk = true ∧ (splitStream [chunk].zipIdx).writers = [] ∧
      ¬ AudioKept [chunk].zipIdx (splitStream [chunk].zipIdx).writers := by
  refine ⟨rfl, rfl, fun h => ?_⟩
  obtain ⟨before, w, after, hw, -⟩ := h.once _ (List.mem_singleton.mpr rfl) rfl
  exact absurd hw (List.append_ne_nil_of_right_ne_nil _ (List.cons_ne_nil _ _)).symm

end PendantClient
