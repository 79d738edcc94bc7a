import Mathlib.Data.List.Flatten
import PendantClient.Theorems.Splitter

/-! Pre-roll merging. The stream is cut into segments by its markers alone, and the writers of a run are
    compared with them. -/

namespace PendantClient

/-! ### Segments of a stream -/

/-- The segments that are finished and the one that is growing. -/
structure Segmentation (χ : Type) where
  closed : List (List χ) := []
  current : List χ := []

namespace Segmentation
variable {χ : Type} [Flagged χ]

/-- The current segment is closed. -/
def endSegment (g : Segmentation χ) : Segmentation χ := { closed := g.closed ++ [g.current], current := [] }

/-- A start marker begins a new segment if the current one has a start marker already. -/
def restart (g : Segmentation χ) (c : χ) : Segmentation χ :=
  if isRecordingStart c && g.current.any isRecordingStart then g.endSegment else g

/-- A stop marker is the last chunk of its segment. -/
def extend (g : Segmentation χ) (c : χ) : Segmentation χ :=
  if isRecordingStop c then { g with current := g.current ++ [c] }.endSegment else { g with current := g.current ++ [c] }

/-- One more chunk. -/
def feed (g : Segmentation χ) (c : χ) : Segmentation χ := (g.restart c).extend c

/-- More chunks, one after the other. -/
def feedAll (g : Segmentation χ) (chunks : List χ) : Segmentation χ := chunks.foldl feed g

/-- The segments, with the current one if it is not empty. -/
def segments (g : Segmentation χ) : List (List χ) := if g.current.isEmpty then g.closed else g.closed ++ [g.current]

end Segmentation

/-- The segments of a stream. -/
def segments {χ : Type} [Flagged χ] (chunks : List χ) : List (List χ) := (Segmentation.feedAll {} chunks).segments

section
variable {χ : Type} [Flagged χ]

/-- Two added chunks share a writer if and only if they share a segment, and a writer's marker attributes are
    those of its segment. -/
structure PreRollMerged (segs : List (List χ)) (writers : List (Writer χ)) : Prop where
  sameWriter : ∀ x y, (∃ w ∈ writers, x ∈ w.added) → (∃ w ∈ writers, y ∈ w.added) →
    ((∃ w ∈ writers, x ∈ w.added ∧ y ∈ w.added) ↔ ∃ seg ∈ segs, x ∈ seg ∧ y ∈ seg)
  opened : ∀ w ∈ writers, ∀ seg ∈ segs, ∀ x ∈ w.added, x ∈ seg →
    (w.openedWithStartMarker = true ↔ ∃ c ∈ seg, isRecordingStart c = true)
  closed : ∀ w ∈ writers, ∀ seg ∈ segs, ∀ x ∈ w.added, x ∈ seg →
    (w.closedWithStopMarker = true ↔ ∃ c, seg.getLast? = some c ∧ isRecordingStop c = true)

/-- The writer of a segment. -/
structure Realises (w : Writer χ) (seg : List χ) : Prop where
  added_ne : w.added ≠ []
  added_subset : ∀ x ∈ w.added, x ∈ seg
  opened : w.openedWithStartMarker = seg.any isRecordingStart
  closed : w.closedWithStopMarker = seg.getLast?.any isRecordingStop

/-- The writers are, in order, those of some of the segments. -/
def Matched (writers : List (Writer χ)) (segs : List (List χ)) : Prop :=
  ∃ pairs : List (Writer χ × List χ), writers = pairs.map Prod.fst ∧ (pairs.map Prod.snd).Sublist segs ∧
    ∀ p ∈ pairs, Realises p.1 p.2

section
variable {writers : List (Writer χ)} {segs : List (List χ)} {w : Writer χ} {seg : List χ}

theorem Matched.skip (h : Matched writers segs) (seg : List χ) : Matched writers (segs ++ [seg]) := by
  obtain ⟨pairs, hw, hsub, hp⟩ := h
  exact ⟨pairs, hw, hsub.trans (List.sublist_append_left _ _), hp⟩

theorem Matched.snoc (h : Matched writers segs) (hw : Realises w seg) : Matched (writers ++ [w]) (segs ++ [seg]) := by
  obtain ⟨pairs, rfl, hsub, hp⟩ := h
  refine ⟨pairs ++ [(w, seg)], by simp, ?_, fun p hmem => ?_⟩
  · rw [List.map_append]
    exact hsub.append (List.Sublist.refl _)
  · rcases List.mem_append.mp hmem with hmem | hmem
    · exact hp p hmem
    · obtain rfl := List.mem_singleton.mp hmem
      exact hw

omit [Flagged χ] in
theorem eq_of_mem_flatMap {α β : Type} {f : α → List β} {xs : List α} {a b : α} {x : β} (hnodup : (xs.flatMap f).Nodup)
    (ha : a ∈ xs) (hb : b ∈ xs) (hxa : x ∈ f a) (hxb : x ∈ f b) : a = b := by
  induction xs with
  | nil => cases ha
  | cons y xs ih =>
    obtain ⟨-, htail, hdisj⟩ := List.nodup_append.mp (List.flatMap_cons ▸ hnodup)
    rcases List.mem_cons.mp ha with ha | ha <;> rcases List.mem_cons.mp hb with hb | hb
    · rw [ha, hb]
    · exact absurd rfl (hdisj x (ha ▸ hxa) x (List.mem_flatMap.mpr ⟨b, hb, hxb⟩))
    · exact absurd rfl (hdisj x (hb ▸ hxb) x (List.mem_flatMap.mpr ⟨a, ha, hxa⟩))
    · exact ih htail ha hb

theorem any_isRecordingStart {seg : List χ} : seg.any isRecordingStart = true ↔ ∃ c ∈ seg, isRecordingStart c = true :=
  List.any_eq_true

omit [Flagged χ] in
theorem getLast?_any {seg : List χ} {p : χ → Bool} : seg.getLast?.any p = true ↔ ∃ c, seg.getLast? = some c ∧ p c = true := by
  cases seg.getLast? with
  | none => simp
  | some c => simp

theorem Matched.preRollMerged (h : Matched writers segs) (hsegs : segs.flatten.Nodup) : PreRollMerged segs writers := by
  obtain ⟨pairs, rfl, hsub, hp⟩ := h
  have hflat : (segs.flatMap id).Nodup := by rwa [List.flatMap_id]
  have hnodup : (pairs.flatMap fun p => id p.2).Nodup := by
    rw [← List.flatMap_map]
    exact (hsub.flatMap id).nodup hflat
  -- the segment of a pair is the only one that holds a chunk of its writer
  have hseg {w : Writer χ} {seg : List χ} {x : χ} (hw : w ∈ pairs.map Prod.fst) (hs : seg ∈ segs) (hx : x ∈ w.added)
      (hxs : x ∈ seg) : Realises w seg := by
    obtain ⟨p, hpm, rfl⟩ := List.mem_map.mp hw
    have hr := hp p hpm
    have hps : p.2 ∈ segs := hsub.subset (List.mem_map_of_mem hpm)
    rwa [eq_of_mem_flatMap hflat hs hps hxs (hr.added_subset x hx)]
  refine ⟨?_, ?_, ?_⟩
  · rintro x y ⟨w, hw, hx⟩ ⟨w', hw', hy⟩
    obtain ⟨p, hpm, rfl⟩ := List.mem_map.mp hw
    obtain ⟨q, hqm, rfl⟩ := List.mem_map.mp hw'
    constructor
    · rintro ⟨v, hv, hxv, hyv⟩
      obtain ⟨o, hom, rfl⟩ := List.mem_map.mp hv
      have hr := hp o hom
      exact ⟨o.2, hsub.subset (List.mem_map_of_mem hom), hr.added_subset x hxv, hr.added_subset y hyv⟩
    · rintro ⟨seg, hs, hxs, hys⟩
      have hps : p.2 ∈ segs := hsub.subset (List.mem_map_of_mem hpm)
      have hqs : q.2 ∈ segs := hsub.subset (List.mem_map_of_mem hqm)
      have heqp := eq_of_mem_flatMap hflat hs hps hxs ((hp p hpm).added_subset x hx)
      have heqq := eq_of_mem_flatMap hflat hs hqs hys ((hp q hqm).added_subset y hy)
      have hpq : p = q := eq_of_mem_flatMap hnodup hpm hqm ((hp p hpm).added_subset x hx) (heqq ▸ heqp ▸ hxs)
      exact ⟨p.1, hw, hx, hpq ▸ hy⟩
  · intro w hw seg hs x hx hxs
    rw [(hseg hw hs hx hxs).opened, any_isRecordingStart]
  · intro w hw seg hs x hx hxs
    rw [(hseg hw hs hx hxs).closed, getLast?_any]

end

/-! ### When a start marker leaks past a stop -/

/-- Nothing is added and no segment ends before the next start marker. -/
def quietToStart : List χ → Bool
  | [] => true
  | c :: rest => isRecordingStart c || !isRecordingStop c && !hasAudio c && quietToStart rest

/-- A start marker comes before any stop marker, and all is quiet behind it. -/
def claimedInTime : List χ → Bool
  | [] => false
  | c :: rest => !isRecordingStop c && if isRecordingStart c then quietToStart rest else claimedInTime rest

/-- What a stream may go on with when a start marker is left over from the segment before: the next audio
    comes behind another start marker, or one comes behind it in time for its segment. -/
def leakHarmless : List χ → Bool
  | [] => true
  | c :: rest =>
    isRecordingStart c || if hasAudio c then !isRecordingStop c && claimedInTime rest else leakHarmless rest

/-- The start marker that is pending behind the chunk, if any: its own, or an older one. -/
def Recorder.leavesStartPending (r : Recorder χ) (c : χ) : Bool :=
  if isRecordingStart c then !r.preRoll else r.pending && !hasAudio c

/-- Whenever a stop marker leaves a start marker pending, the stream goes on harmlessly. -/
def Recorder.LeaksHarmlessly (r : Recorder χ) (chunks : List χ) : Prop :=
  ∀ before c after, chunks = before ++ c :: after → isRecordingStop c = true →
    (r.feedAll before).leavesStartPending c = true → leakHarmless after = true

theorem Recorder.leaksHarmlessly_cons {r : Recorder χ} {c : χ} {rest : List χ} :
    r.LeaksHarmlessly (c :: rest) ↔
      (isRecordingStop c = true → r.leavesStartPending c = true → leakHarmless rest = true) ∧
        (r.feed c).LeaksHarmlessly rest :=
  forall_split_cons

/-- How the splitter stands to the current segment. -/
inductive Phase
  /-- It agrees with the segment. -/
  | inStep
  /-- A start marker of an earlier segment is pending. -/
  | leaked
  /-- The open writer has taken such a marker, and its segment has none of its own yet. -/
  | claimed
  /-- The segment's own start marker has closed that writer. -/
  | closedEarly
  deriving DecidableEq

/-- The phase behind a chunk, or `none` if the writers can no longer fit the segments. -/
def Phase.next (leaks : Bool) (c : χ) : Phase → Option Phase
  | inStep => some (if isRecordingStop c && leaks then leaked else inStep)
  | leaked =>
    if isRecordingStart c then some (if isRecordingStop c then leaked else inStep)
    else if hasAudio c then if isRecordingStop c then none else some claimed
    else some leaked
  | claimed => if isRecordingStop c then none else some (if isRecordingStart c then closedEarly else claimed)
  | closedEarly =>
    if isRecordingStart c then some (if isRecordingStop c then leaked else inStep)
    else if isRecordingStop c || hasAudio c then none
    else some closedEarly

/-- What the rest of the stream has to be for a phase to do no harm. -/
def Phase.harmless : Phase → List χ → Bool
  | inStep, _ => true
  | leaked, rest => leakHarmless rest
  | claimed, rest => claimedInTime rest
  | closedEarly, rest => quietToStart rest

section
variable {p p' : Phase} {leaks : Bool} {c : χ} {rest : List χ}

theorem Phase.harmless_none (h : p.next leaks c = none) : p.harmless (c :: rest) = false := by
  cases p with
  | inStep => cases h
  | leaked =>
    cases hs : isRecordingStart c <;> cases ha : hasAudio c <;> cases ht : isRecordingStop c <;>
      simp [Phase.next, hs, ha, ht] at h
    simp [Phase.harmless, leakHarmless, hs, ha, ht]
  | claimed =>
    cases ht : isRecordingStop c <;> simp [Phase.next, ht] at h
    simp [Phase.harmless, claimedInTime, ht]
  | closedEarly =>
    cases hs : isRecordingStart c <;> cases ha : hasAudio c <;> cases ht : isRecordingStop c <;>
      simp [Phase.next, hs, ha, ht] at h <;>
    simp [Phase.harmless, quietToStart, hs, ha, ht]

/-- The first chunk of a harmless stream: the phase moves on, and a leak it makes is harmless too. -/
theorem Phase.harmless_some (h : p.next leaks c = some p')
    (hleaks : p = leaked ∨ p = closedEarly → isRecordingStart c = true ∨ hasAudio c = false → leaks = true) :
    p'.harmless rest = true ↔
      p.harmless (c :: rest) = true ∧ (isRecordingStop c = true → leaks = true → leakHarmless rest = true) := by
  cases p with
  | inStep =>
    cases Option.some.inj h
    cases ht : isRecordingStop c <;> cases leaks <;> simp [Phase.harmless]
  | leaked =>
    cases hs : isRecordingStart c with
    | true =>
      cases hleaks (.inl rfl) (.inl hs)
      simp only [Phase.next, hs, if_true] at h
      cases Option.some.inj h
      cases ht : isRecordingStop c <;> simp [Phase.harmless, leakHarmless, hs]
    | false =>
      cases ha : hasAudio c with
      | true =>
        cases ht : isRecordingStop c <;> simp [Phase.next, hs, ha, ht] at h
        subst h
        simp [Phase.harmless, leakHarmless, hs, ha, ht]
      | false =>
        cases hleaks (.inl rfl) (.inr ha)
        simp only [Phase.next, hs, ha, Bool.false_eq_true, if_false] at h
        cases Option.some.inj h
        simp [Phase.harmless, leakHarmless, hs, ha]
        exact fun h _ => h
  | claimed =>
    cases ht : isRecordingStop c <;> simp [Phase.next, ht] at h
    subst h
    cases hs : isRecordingStart c <;> simp [Phase.harmless, claimedInTime, hs, ht]
  | closedEarly =>
    cases hs : isRecordingStart c with
    | true =>
      cases hleaks (.inr rfl) (.inl hs)
      simp only [Phase.next, hs, if_true] at h
      cases Option.some.inj h
      cases ht : isRecordingStop c <;> simp [Phase.harmless, quietToStart, hs]
    | false =>
      simp only [Phase.next, hs, Bool.false_eq_true, if_false, Bool.or_eq_true] at h
      split at h
      · cases h
      · rename_i hquiet
        cases Option.some.inj h
        simp only [not_or, Bool.not_eq_true] at hquiet
        simp [Phase.harmless, quietToStart, hs, hquiet]

end

/-! ### A run beside its segments -/

/-- A writer that is still open, or was closed by a start marker, in a segment that has not seen a stop marker. -/
structure Unstopped (w : Writer χ) (seg : List χ) : Prop where
  added_ne : w.added ≠ []
  added_subset : ∀ x ∈ w.added, x ∈ seg
  closed : w.closedWithStopMarker = false

/-- What a recorder and a segmentation are in a phase. -/
inductive Joint : Phase → Recorder χ → Segmentation χ → Prop
  | idle {r g} (matched : Matched r.closed g.closed) (unstopped : g.current.any isRecordingStop = false)
      (current : r.current = none) (pending : r.pending = g.current.any isRecordingStart) : Joint .inStep r g
  | recording {r g w} (matched : Matched r.closed g.closed) (unstopped : g.current.any isRecordingStop = false)
      (current : r.current = some w) (pending : r.pending = false) (writer : Unstopped w g.current)
      (opened : w.openedWithStartMarker = g.current.any isRecordingStart) : Joint .inStep r g
  | leaked {r g} (matched : Matched r.closed g.closed) (unstopped : g.current.any isRecordingStop = false)
      (current : r.current = none) (pending : r.pending = true)
      (noStart : g.current.any isRecordingStart = false) : Joint .leaked r g
  | claimed {r g w} (matched : Matched r.closed g.closed) (unstopped : g.current.any isRecordingStop = false)
      (current : r.current = some w) (pending : r.pending = false) (writer : Unstopped w g.current)
      (opened : w.openedWithStartMarker = true) (noStart : g.current.any isRecordingStart = false) : Joint .claimed r g
  | closedEarly {r g ws w} (closed : r.closed = ws ++ [w]) (matched : Matched ws g.closed)
      (unstopped : g.current.any isRecordingStop = false) (current : r.current = none) (pending : r.pending = true)
      (writer : Unstopped w g.current) (opened : w.openedWithStartMarker = true)
      (hasStart : g.current.any isRecordingStart = true) : Joint .closedEarly r g

/-- A closed writer shows that the merging has gone wrong: it took a start marker or missed a stop marker of its
    segment, or its segment has a chunk that went to another writer. -/
inductive Broken (r : Recorder χ) (g : Segmentation χ) : Prop
  | opened {w seg x} (hw : w ∈ r.closed) (hseg : seg ∈ g.closed) (hx : x ∈ w.added) (hxs : x ∈ seg)
      (opened : w.openedWithStartMarker = true) (noStart : seg.any isRecordingStart = false)
  | stopped {w seg x} (hw : w ∈ r.closed) (hseg : seg ∈ g.closed) (hx : x ∈ w.added) (hxs : x ∈ seg)
      (closed : w.closedWithStopMarker = false) (stop : seg.getLast?.any isRecordingStop = true)
  | shared {w seg x y} (hw : w ∈ r.closed) (hseg : seg ∈ g.closed ++ [g.current]) (hx : x ∈ w.added) (hxs : x ∈ seg)
      (hy : y ∈ r.added) (hyw : y ∉ w.added) (hys : y ∈ seg)

section
variable {r : Recorder χ} {g : Segmentation χ} {w : Writer χ} {c : χ} {p : Phase}

theorem Unstopped.realises {seg : List χ} (h : Unstopped w seg) (hstop : seg.any isRecordingStop = false)
    (hopened : w.openedWithStartMarker = seg.any isRecordingStart) : Realises w seg := by
  refine ⟨h.added_ne, h.added_subset, hopened, h.closed.trans ?_⟩
  cases hl : seg.getLast? with
  | none => rfl
  | some c => exact (List.any_eq_false.mp hstop c (List.mem_of_getLast? hl) |> Bool.eq_false_iff.mpr).symm

omit [Flagged χ] in
theorem Unstopped.snoc {seg : List χ} (h : Unstopped w seg) : Unstopped w (seg ++ [c]) :=
  ⟨h.added_ne, fun x hx => List.mem_append_left _ (h.added_subset x hx), h.closed⟩

theorem extend_stop (ht : isRecordingStop c = true) : g.extend c = { closed := g.closed ++ [g.current ++ [c]], current := [] } := by
  rw [Segmentation.extend, if_pos ht]
  rfl

theorem extend_go (ht : isRecordingStop c = false) : g.extend c = { g with current := g.current ++ [c] } := by
  rw [Segmentation.extend, if_neg (by simp [ht])]

theorem restart_true (hs : isRecordingStart c = true) (hany : g.current.any isRecordingStart = true) :
    g.restart c = { closed := g.closed ++ [g.current], current := [] } := by
  rw [Segmentation.restart, hs, hany]
  rfl

theorem restart_false (h : isRecordingStart c = false ∨ g.current.any isRecordingStart = false) : g.restart c = g := by
  rw [Segmentation.restart]
  rcases h with h | h <;> simp [h]

omit [Flagged χ] in
theorem any_snoc {q : χ → Bool} {seg : List χ} : (seg ++ [c]).any q = (seg.any q || q c) := by
  rw [List.any_append, List.any_cons, List.any_nil, Bool.or_false]

omit [Flagged χ] in
theorem any_snoc_false {q : χ → Bool} {seg : List χ} (hseg : seg.any q = false) (hc : q c = false) :
    (seg ++ [c]).any q = false := by
  rw [any_snoc, hseg, hc]
  rfl

omit [Flagged χ] in
theorem getLast?_snoc_any {q : χ → Bool} {seg : List χ} (hc : q c = true) : (seg ++ [c]).getLast?.any q = true := by
  rw [List.getLast?_concat]
  exact hc

theorem takeAudio_opened : (w.takeAudio c).openedWithStartMarker = w.openedWithStartMarker := by
  rw [Writer.takeAudio]
  split <;> rfl

theorem Unstopped.takeAudio {seg : List χ} (hclosed : w.closedWithStopMarker = false) (hsub : ∀ x ∈ w.added, x ∈ seg)
    (hne : w.added ≠ [] ∨ hasAudio c = true) : Unstopped (w.takeAudio c) (seg ++ [c]) := by
  rw [Writer.takeAudio]
  split
  · refine ⟨by simp, fun x hx => ?_, hclosed⟩
    rcases List.mem_append.mp hx with hx | hx
    · exact List.mem_append_left _ (hsub x hx)
    · exact List.mem_append_right _ hx
  · rename_i ha
    exact ⟨hne.resolve_right ha, fun x hx => List.mem_append_left _ (hsub x hx), hclosed⟩

theorem joint_take (matched : Matched r.closed g.closed) (unstopped : g.current.any isRecordingStop = false)
    (pending : r.pending = false) (hclosed : w.closedWithStopMarker = false) (hsub : ∀ x ∈ w.added, x ∈ g.current)
    (hne : w.added ≠ [] ∨ hasAudio c = true)
    (opened : w.openedWithStartMarker = (g.current.any isRecordingStart || isRecordingStart c)) :
    Joint .inStep (r.take w c) (g.extend c) := by
  have hw := Unstopped.takeAudio hclosed hsub hne
  rw [← any_snoc, ← takeAudio_opened (c := c)] at opened
  rw [Recorder.take]
  cases ht : isRecordingStop c with
  | true =>
    rw [extend_stop ht, if_pos rfl]
    refine .idle (matched.snoc ⟨hw.added_ne, hw.added_subset, opened, ?_⟩) rfl rfl pending
    rw [List.getLast?_append, List.getLast?_singleton]
    exact ht.symm
  | false =>
    rw [extend_go ht, if_neg (by simp)]
    exact .recording matched (any_snoc_false unstopped ht) rfl pending hw opened

theorem joint_note (matched : Matched r.closed g.closed) (unstopped : g.current.any isRecordingStop = false)
    (current : r.current = none) (hs : isRecordingStart c = true) :
    Joint (if isRecordingStop c then .leaked else .inStep) { r with pending := true } (g.extend c) := by
  cases ht : isRecordingStop c with
  | true =>
    rw [extend_stop ht, if_pos rfl]
    exact .leaked (matched.skip _) rfl current rfl rfl
  | false =>
    rw [extend_go ht, if_neg (by simp)]
    refine .idle matched (any_snoc_false unstopped ht) current ?_
    rw [any_snoc, hs, Bool.or_true]

theorem feed_neutral (current : r.current = none) (hs : isRecordingStart c = false) (ha : hasAudio c = false) :
    r.feed c = r := by
  rw [Recorder.feed_none current hs, if_neg (by simp [ha])]

theorem feed_first (current : r.current = none) (hs : isRecordingStart c = false) (ha : hasAudio c = true) :
    r.feed c = { r with pending := false }.take { openedWithStartMarker := r.pending } c := by
  rw [Recorder.feed_none current hs, if_pos ha]

theorem leaves_of_start (hs : isRecordingStart c = true) : r.leavesStartPending c = !r.preRoll := by
  rw [Recorder.leavesStartPending, if_pos hs]

theorem leaves_of_not_start (hs : isRecordingStart c = false) : r.leavesStartPending c = (r.pending && !hasAudio c) := by
  rw [Recorder.leavesStartPending, if_neg (by simp [hs])]

omit [Flagged χ] in
theorem preRoll_none (current : r.current = none) : r.preRoll = false := by
  rw [Recorder.preRoll, current]
  rfl

omit [Flagged χ] in
theorem preRoll_some (current : r.current = some w) : r.preRoll = !w.openedWithStartMarker := by
  rw [Recorder.preRoll, current]
  rfl

/-- What the next chunk does in a phase: the phase moves on, or the writers are shown to be wrong. -/
def Moves (p : Phase) (r : Recorder χ) (g : Segmentation χ) (c : χ) : Prop :=
  match p.next (r.leavesStartPending c) c with
  | some p' => Joint p' (r.feed c) (g.feed c)
  | none => Broken (r.feed c) (g.feed c)

theorem moves_some {q : Phase} (hnext : p.next (r.leavesStartPending c) c = some q)
    (h : Joint q (r.feed c) (g.feed c)) : Moves p r g c := by
  rw [Moves, hnext]
  exact h

theorem moves_none (hnext : p.next (r.leavesStartPending c) c = none) (h : Broken (r.feed c) (g.feed c)) : Moves p r g c := by
  rw [Moves, hnext]
  exact h

theorem moves_idle (matched : Matched r.closed g.closed) (unstopped : g.current.any isRecordingStop = false)
    (current : r.current = none) (pending : r.pending = g.current.any isRecordingStart) : Moves .inStep r g c := by
  cases hs : isRecordingStart c with
  | true =>
    have hnext : Phase.next (r.leavesStartPending c) c .inStep = some (if isRecordingStop c then .leaked else .inStep) := by
      rw [leaves_of_start hs, preRoll_none current]
      simp [Phase.next]
    refine moves_some hnext ?_
    rw [Recorder.feed_note current hs, Segmentation.feed]
    cases hany : g.current.any isRecordingStart with
    | true =>
      rw [restart_true hs hany]
      exact joint_note (matched.skip _) rfl current hs
    | false =>
      rw [restart_false (.inr hany)]
      exact joint_note matched unstopped current hs
  | false =>
    rw [← Bool.or_false (g.current.any _), ← hs] at pending
    cases ha : hasAudio c with
    | true =>
      refine moves_some (q := .inStep) (by rw [leaves_of_not_start hs, ha]; simp [Phase.next]) ?_
      rw [feed_first current hs ha, Segmentation.feed, restart_false (.inl hs)]
      exact joint_take matched unstopped rfl rfl (fun x hx => by cases hx) (.inr ha) pending
    | false =>
      rw [hs, Bool.or_false] at pending
      have hleaves : r.leavesStartPending c = r.pending := by rw [leaves_of_not_start hs, ha, Bool.not_false, Bool.and_true]
      cases ht : isRecordingStop c with
      | true =>
        cases hp : r.pending with
        | true =>
          refine moves_some (q := .leaked) (by rw [hleaves, hp]; simp [Phase.next, ht]) ?_
          rw [feed_neutral current hs ha, Segmentation.feed, restart_false (.inl hs), extend_stop ht]
          exact .leaked (matched.skip _) rfl current hp rfl
        | false =>
          refine moves_some (q := .inStep) (by rw [hleaves, hp]; simp [Phase.next]) ?_
          rw [feed_neutral current hs ha, Segmentation.feed, restart_false (.inl hs), extend_stop ht]
          exact .idle (matched.skip _) rfl current hp
      | false =>
        refine moves_some (q := .inStep) (by simp [Phase.next, ht]) ?_
        rw [feed_neutral current hs ha, Segmentation.feed, restart_false (.inl hs), extend_go ht]
        refine .idle matched (any_snoc_false unstopped ht) current ?_
        rw [any_snoc, hs, Bool.or_false, pending]

theorem moves_recording (matched : Matched r.closed g.closed) (unstopped : g.current.any isRecordingStop = false)
    (current : r.current = some w) (pending : r.pending = false) (writer : Unstopped w g.current)
    (opened : w.openedWithStartMarker = g.current.any isRecordingStart) : Moves .inStep r g c := by
  cases hs : isRecordingStart c with
  | true =>
    cases hany : g.current.any isRecordingStart with
    | true =>
      rw [hany] at opened
      have hnext : Phase.next (r.leavesStartPending c) c .inStep = some (if isRecordingStop c then .leaked else .inStep) := by
        rw [leaves_of_start hs, preRoll_some current, opened]
        simp [Phase.next]
      refine moves_some hnext ?_
      rw [Recorder.feed_restart current hs opened, Segmentation.feed, restart_true hs hany]
      exact joint_note (r := ⟨r.closed ++ [w], none, true⟩)
        (matched.snoc (writer.realises unstopped (opened.trans hany.symm))) rfl rfl hs
    | false =>
      rw [hany] at opened
      refine moves_some (q := .inStep) (by rw [leaves_of_start hs, preRoll_some current, opened]; simp [Phase.next]) ?_
      rw [Recorder.feed_promote current hs opened, Segmentation.feed, restart_false (.inr hany)]
      exact joint_take matched unstopped pending writer.closed writer.added_subset (.inl writer.added_ne)
        (by rw [hs, Bool.or_true])
  | false =>
    refine moves_some (q := .inStep) (by rw [leaves_of_not_start hs, pending]; simp [Phase.next]) ?_
    rw [Recorder.feed_body current hs, Segmentation.feed, restart_false (.inl hs)]
    exact joint_take matched unstopped pending writer.closed writer.added_subset (.inl writer.added_ne)
      (by rw [hs, Bool.or_false, opened])

theorem moves_leaked (matched : Matched r.closed g.closed) (unstopped : g.current.any isRecordingStop = false)
    (current : r.current = none) (pending : r.pending = true) (noStart : g.current.any isRecordingStart = false) :
    Moves .leaked r g c := by
  cases hs : isRecordingStart c with
  | true =>
    refine moves_some (q := if isRecordingStop c then .leaked else .inStep) (by simp [Phase.next, hs]) ?_
    rw [Recorder.feed_note current hs, Segmentation.feed, restart_false (.inr noStart)]
    exact joint_note matched unstopped current hs
  | false =>
    have hstart : (g.current ++ [c]).any isRecordingStart = false := any_snoc_false noStart hs
    cases ha : hasAudio c with
    | true =>
      have hw : Unstopped (({ openedWithStartMarker := r.pending } : Writer χ).takeAudio c) (g.current ++ [c]) :=
        Unstopped.takeAudio rfl (fun x hx => by cases hx) (.inr ha)
      obtain ⟨x, hx⟩ := List.exists_mem_of_ne_nil _ hw.added_ne
      cases ht : isRecordingStop c with
      | true =>
        refine moves_none (by simp [Phase.next, hs, ha, ht]) ?_
        rw [feed_first current hs ha, Segmentation.feed, restart_false (.inl hs), extend_stop ht, Recorder.take, if_pos ht]
        exact .opened List.mem_concat_self
          List.mem_concat_self hx (hw.added_subset x hx)
          (takeAudio_opened.trans pending) hstart
      | false =>
        refine moves_some (q := .claimed) (by simp [Phase.next, hs, ha, ht]) ?_
        rw [feed_first current hs ha, Segmentation.feed, restart_false (.inl hs), extend_go ht, Recorder.take,
          if_neg (by simp [ht])]
        exact .claimed matched (any_snoc_false unstopped ht) rfl rfl hw (takeAudio_opened.trans pending) hstart
    | false =>
      refine moves_some (q := .leaked) (by simp [Phase.next, hs, ha]) ?_
      rw [feed_neutral current hs ha, Segmentation.feed, restart_false (.inl hs)]
      cases ht : isRecordingStop c with
      | true =>
        rw [extend_stop ht]
        exact .leaked (matched.skip _) rfl current pending rfl
      | false =>
        rw [extend_go ht]
        exact .leaked matched (any_snoc_false unstopped ht) current pending hstart

theorem moves_claimed (matched : Matched r.closed g.closed) (unstopped : g.current.any isRecordingStop = false)
    (current : r.current = some w) (pending : r.pending = false) (writer : Unstopped w g.current)
    (opened : w.openedWithStartMarker = true) (noStart : g.current.any isRecordingStart = false) :
    Moves .claimed r g c := by
  obtain ⟨x, hx⟩ := List.exists_mem_of_ne_nil _ writer.added_ne
  cases hs : isRecordingStart c with
  | true =>
    cases ht : isRecordingStop c with
    | true =>
      refine moves_none (by simp [Phase.next, ht]) ?_
      rw [Recorder.feed_restart current hs opened, Segmentation.feed, restart_false (.inr noStart), extend_stop ht]
      exact .stopped List.mem_concat_self List.mem_concat_self hx (List.mem_append_left _ (writer.added_subset x hx))
        writer.closed (getLast?_snoc_any ht)
    | false =>
      refine moves_some (q := .closedEarly) (by simp [Phase.next, hs, ht]) ?_
      rw [Recorder.feed_restart current hs opened, Segmentation.feed, restart_false (.inr noStart), extend_go ht]
      refine .closedEarly rfl matched (any_snoc_false unstopped ht) rfl rfl writer.snoc opened ?_
      rw [any_snoc, hs, Bool.or_true]
  | false =>
    have hstart : (g.current ++ [c]).any isRecordingStart = false := any_snoc_false noStart hs
    have hw : Unstopped (w.takeAudio c) (g.current ++ [c]) :=
      Unstopped.takeAudio writer.closed writer.added_subset (.inl writer.added_ne)
    obtain ⟨y, hy⟩ := List.exists_mem_of_ne_nil _ hw.added_ne
    cases ht : isRecordingStop c with
    | true =>
      refine moves_none (by simp [Phase.next, ht]) ?_
      rw [Recorder.feed_body current hs, Segmentation.feed, restart_false (.inl hs), extend_stop ht, Recorder.take,
        if_pos ht]
      exact .opened List.mem_concat_self
        List.mem_concat_self hy (hw.added_subset y hy) (takeAudio_opened.trans opened) hstart
    | false =>
      refine moves_some (q := .claimed) (by simp [Phase.next, hs, ht]) ?_
      rw [Recorder.feed_body current hs, Segmentation.feed, restart_false (.inl hs), extend_go ht, Recorder.take,
        if_neg (by simp [ht])]
      exact .claimed matched (any_snoc_false unstopped ht) rfl pending hw (takeAudio_opened.trans opened) hstart

theorem moves_closedEarly {ws : List (Writer χ)} (closed : r.closed = ws ++ [w]) (matched : Matched ws g.closed)
    (unstopped : g.current.any isRecordingStop = false) (current : r.current = none) (pending : r.pending = true)
    (writer : Unstopped w g.current) (opened : w.openedWithStartMarker = true)
    (hasStart : g.current.any isRecordingStart = true) (hfresh : c ∉ g.current) : Moves .closedEarly r g c := by
  obtain ⟨x, hx⟩ := List.exists_mem_of_ne_nil _ writer.added_ne
  have hwclosed : w ∈ r.closed := closed ▸ List.mem_concat_self
  have hxseg : x ∈ g.current ++ [c] := List.mem_append_left _ (writer.added_subset x hx)
  cases hs : isRecordingStart c with
  | true =>
    refine moves_some (q := if isRecordingStop c then .leaked else .inStep) (by simp [Phase.next, hs]) ?_
    rw [Recorder.feed_note current hs, Segmentation.feed, restart_true hs hasStart]
    refine joint_note (g := ⟨g.closed ++ [g.current], []⟩) ?_ rfl current hs
    rw [closed]
    exact matched.snoc (writer.realises unstopped (opened.trans hasStart.symm))
  | false =>
    cases ht : isRecordingStop c with
    | true =>
      refine moves_none (by simp [Phase.next, hs, ht]) ?_
      rw [Segmentation.feed, restart_false (.inl hs), extend_stop ht]
      refine .stopped (w := w) ?_ List.mem_concat_self hx hxseg writer.closed (getLast?_snoc_any ht)
      cases ha : hasAudio c with
      | true =>
        rw [feed_first current hs ha, Recorder.take, if_pos ht]
        exact List.mem_append_left _ hwclosed
      | false =>
        rw [feed_neutral current hs ha]
        exact hwclosed
    | false =>
      cases ha : hasAudio c with
      | true =>
        refine moves_none (by simp [Phase.next, hs, ht, ha]) ?_
        rw [feed_first current hs ha, Segmentation.feed, restart_false (.inl hs), extend_go ht]
        refine .shared (w := w) (y := c) ?_ List.mem_concat_self hx hxseg ?_
          (fun hc => hfresh (writer.added_subset c hc)) List.mem_concat_self
        · rw [Recorder.take, if_neg (by simp [ht])]
          exact hwclosed
        · rw [Recorder.added_take, if_pos ha]
          exact List.mem_concat_self
      | false =>
        refine moves_some (q := .closedEarly) (by simp [Phase.next, hs, ht, ha]) ?_
        rw [feed_neutral current hs ha, Segmentation.feed, restart_false (.inl hs), extend_go ht]
        refine .closedEarly closed matched (any_snoc_false unstopped ht) current pending writer.snoc opened ?_
        rw [any_snoc, hasStart, Bool.true_or]

theorem Joint.moves (h : Joint p r g) (hfresh : c ∉ g.current) : Moves p r g c := by
  cases h with
  | idle matched unstopped current pending => exact moves_idle matched unstopped current pending
  | recording matched unstopped current pending writer opened =>
    exact moves_recording matched unstopped current pending writer opened
  | leaked matched unstopped current pending noStart => exact moves_leaked matched unstopped current pending noStart
  | claimed matched unstopped current pending writer opened noStart =>
    exact moves_claimed matched unstopped current pending writer opened noStart
  | closedEarly closed matched unstopped current pending writer opened hasStart =>
    exact moves_closedEarly closed matched unstopped current pending writer opened hasStart hfresh

end

/-! ### Whole runs -/

namespace Segmentation

/-- The chunks so far. -/
def fed (g : Segmentation χ) : List χ := g.closed.flatten ++ g.current

section
variable {g : Segmentation χ} {c : χ}

theorem fed_feed : (g.feed c).fed = g.fed ++ [c] := by
  have hext (g : Segmentation χ) : (g.extend c).fed = g.fed ++ [c] := by
    rw [extend]
    split <;> simp [fed, endSegment]
  have hres : (g.restart c).fed = g.fed := by
    rw [restart]
    split <;> simp [fed, endSegment]
  rw [feed, hext, hres]

omit [Flagged χ] in
theorem flatten_segments : g.segments.flatten = g.fed := by
  rw [segments, fed]
  cases hcur : g.current with
  | nil => simp
  | cons c rest => simp

omit [Flagged χ] in
theorem mem_segments_of_mem {seg : List χ} {x : χ} (h : seg ∈ g.closed ++ [g.current]) (hx : x ∈ seg) : seg ∈ g.segments := by
  rw [segments]
  split
  · rename_i hempty
    rcases List.mem_append.mp h with h | h
    · exact h
    · rw [List.mem_singleton.mp h, List.isEmpty_iff.mp hempty] at hx
      cases hx
  · exact h

theorem segment_feed {seg : List χ} (h : seg ∈ g.closed ++ [g.current]) :
    ∃ seg' ∈ (g.feed c).closed ++ [(g.feed c).current], ∀ x ∈ seg, x ∈ seg' := by
  have hres : seg ∈ (g.restart c).closed ++ [(g.restart c).current] := by
    rw [restart]
    split
    · exact List.mem_append_left _ h
    · exact h
  rw [feed]
  generalize g.restart c = g' at hres ⊢
  rcases List.mem_append.mp hres with hc | hc
  · refine ⟨seg, List.mem_append_left _ ?_, fun _ hx => hx⟩
    rw [extend]
    split
    · exact List.mem_append_left _ hc
    · exact hc
  · obtain rfl := List.mem_singleton.mp hc
    refine ⟨g'.current ++ [c], ?_, fun _ hx => List.mem_append_left _ hx⟩
    rw [extend]
    split
    · exact List.mem_append_left _ List.mem_concat_self
    · exact List.mem_concat_self

theorem closed_feed {seg : List χ} (h : seg ∈ g.closed) : seg ∈ (g.feed c).closed := by
  have hres : seg ∈ (g.restart c).closed := by
    rw [restart]
    split
    · exact List.mem_append_left _ h
    · exact h
  rw [feed, extend]
  split
  · exact List.mem_append_left _ hres
  · exact hres

end

end Segmentation

section
variable {r : Recorder χ} {g : Segmentation χ} {w : Writer χ} {c : χ} {p : Phase}

theorem Recorder.closed_take {v : Writer χ} (h : w ∈ r.closed) : w ∈ (r.take v c).closed := by
  rw [take]
  split
  · exact List.mem_append_left _ h
  · exact h

theorem Recorder.closed_feed (h : w ∈ r.closed) : w ∈ (r.feed c).closed := by
  cases hcur : r.current with
  | none =>
    cases hs : isRecordingStart c with
    | true =>
      rw [feed_note hcur hs]
      exact h
    | false =>
      rw [feed_none hcur hs]
      split
      · exact closed_take h
      · exact h
  | some v =>
    cases hs : isRecordingStart c with
    | true =>
      cases ho : v.openedWithStartMarker with
      | true =>
        rw [feed_restart hcur hs ho]
        exact List.mem_append_left _ h
      | false =>
        rw [feed_promote hcur hs ho]
        exact closed_take h
    | false =>
      rw [feed_body hcur hs]
      exact closed_take h

theorem Broken.feed (h : Broken r g) (c : χ) : Broken (r.feed c) (g.feed c) := by
  cases h with
  | opened hw hseg hx hxs opened noStart =>
    exact .opened (Recorder.closed_feed hw) (Segmentation.closed_feed hseg) hx hxs opened noStart
  | stopped hw hseg hx hxs closed stop =>
    exact .stopped (Recorder.closed_feed hw) (Segmentation.closed_feed hseg) hx hxs closed stop
  | shared hw hseg hx hxs hy hyw hys =>
    obtain ⟨seg', hseg', hsub⟩ := Segmentation.segment_feed (c := c) hseg
    refine .shared (Recorder.closed_feed hw) hseg' hx (hsub _ hxs) ?_ hyw (hsub _ hys)
    rw [Recorder.added_feed]
    exact List.mem_append_left _ hy

theorem Broken.feedAll (rest : List χ) : ∀ {r : Recorder χ} {g : Segmentation χ}, Broken r g →
    Broken (r.feedAll rest) (g.feedAll rest) := by
  induction rest with
  | nil => exact fun h => h
  | cons c rest ih => exact fun h => ih (h.feed c)

theorem Broken.not_preRollMerged (h : Broken r g) (hadded : r.added.Nodup) : ¬ PreRollMerged g.segments r.writers := by
  intro hm
  have hwriters {w : Writer χ} (hw : w ∈ r.closed) : w ∈ r.writers := List.mem_append_left _ hw
  cases h with
  | opened hw hseg hx hxs opened noStart =>
    have hany := (hm.opened _ (hwriters hw) _
      (Segmentation.mem_segments_of_mem (List.mem_append_left _ hseg) hxs) _ hx hxs).mp opened
    rw [← any_isRecordingStart, noStart] at hany
    cases hany
  | stopped hw hseg hx hxs closed stop =>
    have hflag := (hm.closed _ (hwriters hw) _
      (Segmentation.mem_segments_of_mem (List.mem_append_left _ hseg) hxs) _ hx hxs).mpr (getLast?_any.mp stop)
    rw [closed] at hflag
    cases hflag
  | shared hw hseg hx hxs hy hyw hys =>
    obtain ⟨v, hv, hxv, hyv⟩ := (hm.sameWriter _ _ ⟨_, hwriters hw, hx⟩ (List.mem_flatMap.mp hy)).mpr
      ⟨_, Segmentation.mem_segments_of_mem hseg hxs, hxs, hys⟩
    rw [eq_of_mem_flatMap hadded hv (hwriters hw) hxv hx] at hyv
    exact hyw hyv

theorem Joint.ends (h : Joint p r g) (hfed : g.fed.Nodup) :
    PreRollMerged g.segments r.writers ↔ p.harmless ([] : List χ) = true := by
  have hflat : g.segments.flatten.Nodup := Segmentation.flatten_segments ▸ hfed
  have hnone (hcur : r.current = none) : r.writers = r.closed := by
    rw [Recorder.writers, hcur, Option.toList_none, List.append_nil]
  have hsome {w : Writer χ} (hcur : r.current = some w) : r.writers = r.closed ++ [w] := by
    rw [Recorder.writers, hcur, Option.toList_some]
  have hskip {ws : List (Writer χ)} (hm : Matched ws g.closed) : Matched ws g.segments := by
    rw [Segmentation.segments]
    split
    · exact hm
    · exact hm.skip _
  have hlast {w : Writer χ} (hw : Unstopped w g.current) : g.segments = g.closed ++ [g.current] := by
    obtain ⟨x, hx⟩ := List.exists_mem_of_ne_nil _ hw.added_ne
    rw [Segmentation.segments, if_neg]
    rw [List.isEmpty_iff]
    exact List.ne_nil_of_mem (hw.added_subset x hx)
  cases h with
  | idle matched unstopped current pending =>
    exact iff_of_true (hnone current ▸ (hskip matched).preRollMerged hflat) rfl
  | recording matched unstopped current pending writer opened =>
    refine iff_of_true ?_ rfl
    rw [hsome current]
    exact (hlast writer ▸ matched.snoc (writer.realises unstopped opened) : Matched _ g.segments).preRollMerged hflat
  | leaked matched unstopped current pending noStart =>
    exact iff_of_true (hnone current ▸ (hskip matched).preRollMerged hflat) rfl
  | claimed matched unstopped current pending writer opened noStart =>
    refine iff_of_false (fun hm => ?_) (by simp [Phase.harmless, claimedInTime])
    obtain ⟨x, hx⟩ := List.exists_mem_of_ne_nil _ writer.added_ne
    have hany := (hm.opened _ (hsome current ▸ List.mem_concat_self) _
      (hlast writer ▸ List.mem_concat_self) x hx (writer.added_subset x hx)).mp opened
    rw [← any_isRecordingStart, noStart] at hany
    cases hany
  | closedEarly closed matched unstopped current pending writer opened hasStart =>
    refine iff_of_true ?_ rfl
    rw [hnone current, closed]
    exact (hlast writer ▸ matched.snoc (writer.realises unstopped (opened.trans hasStart.symm)) :
      Matched _ g.segments).preRollMerged hflat

theorem Joint.leaves (h : Joint p r g) (hp : p = .leaked ∨ p = .closedEarly)
    (hc : isRecordingStart c = true ∨ hasAudio c = false) : r.leavesStartPending c = true := by
  have hstate : r.current = none ∧ r.pending = true := by
    cases h with
    | idle => simp at hp
    | recording => simp at hp
    | leaked matched unstopped current pending noStart => exact ⟨current, pending⟩
    | claimed => simp at hp
    | closedEarly closed matched unstopped current pending writer opened hasStart => exact ⟨current, pending⟩
  cases hs : isRecordingStart c with
  | true => rw [leaves_of_start hs, preRoll_none hstate.1, Bool.not_false]
  | false =>
    rw [hs] at hc
    rw [leaves_of_not_start hs, hstate.2, hc.resolve_left Bool.false_ne_true]
    rfl

theorem preRollMerged_feedAll_iff (rest : List χ) : ∀ {p : Phase} {r : Recorder χ} {g : Segmentation χ}, Joint p r g →
    (g.fed ++ rest).Nodup → r.added.Sublist g.fed →
    (PreRollMerged (g.feedAll rest).segments (r.feedAll rest).writers ↔
      p.harmless rest = true ∧ r.LeaksHarmlessly rest) := by
  induction rest with
  | nil =>
    intro p r g h hnodup _
    rw [List.append_nil] at hnodup
    refine (h.ends hnodup).trans ⟨fun hp => ⟨hp, fun before _ _ heq => absurd heq (by simp)⟩, And.left⟩
  | cons c rest ih =>
    intro p r g h hnodup hsub
    have hfed : (g.feed c).fed ++ rest = g.fed ++ c :: rest := by
      rw [Segmentation.fed_feed, List.append_assoc, List.singleton_append]
    have hfresh : c ∉ g.current := fun hc =>
      (List.nodup_append.mp hnodup).2.2 c (List.mem_append_right _ hc) c (List.mem_cons_self ..) rfl
    have hsub' : (r.feed c).added.Sublist (g.feed c).fed := by
      rw [Recorder.added_feed, Segmentation.fed_feed]
      refine hsub.append ?_
      split
      · exact List.Sublist.refl _
      · exact List.nil_sublist _
    have hmoves := h.moves hfresh
    unfold Moves at hmoves
    rw [Recorder.leaksHarmlessly_cons]
    cases hnext : p.next (r.leavesStartPending c) c with
    | some q =>
      rw [hnext] at hmoves
      refine (ih hmoves (hfed ▸ hnodup) hsub').trans ?_
      rw [Phase.harmless_some hnext (h.leaves ·), and_assoc]
    | none =>
      rw [hnext] at hmoves
      refine iff_of_false ?_ fun hharm => by
        rw [Phase.harmless_none hnext] at hharm
        exact Bool.false_ne_true hharm.1
      have hrun : ((r.feed c).feedAll rest).added.Sublist (g.fed ++ c :: rest) := by
        rw [Recorder.added_feedAll, ← hfed]
        exact hsub'.append ((Recorder.kept_sublist rest _).trans List.filter_sublist)
      exact (Broken.feedAll rest hmoves).not_preRollMerged (hrun.nodup hnodup)

end

/-- The start marker that a chunk leaves pending, by the splitter's state before it: its own if no pre-roll writer
    takes it, or an older one. -/
def Splitter.leavesStartPending (s : Splitter χ) (c : χ) : Bool :=
  if isRecordingStart c then s.current.isNone || s.currentHasExplicitStart else s.pendingStartMarker && !hasAudio c

theorem Represents.leavesStartPending {s : Splitter χ} {r : Recorder χ} (h : Represents s r) (c : χ) :
    s.leavesStartPending c = r.leavesStartPending c := by
  rw [Splitter.leavesStartPending, Recorder.leavesStartPending, Recorder.preRoll, h.current, h.explicit, h.pending]
  cases r.current with
  | none => rfl
  | some w => simp

theorem preRollMerged_iff {stream : List χ} (hnodup : stream.Nodup) :
    PreRollMerged (segments stream) (splitStream stream).writers ↔
      ∀ before c after, stream = before ++ c :: after → isRecordingStop c = true →
        (Splitter.feedAll {} before).leavesStartPending c = true → leakHarmless after = true := by
  have hstart : Joint .inStep ({} : Recorder χ) {} := .idle ⟨[], rfl, .slnil, by simp⟩ rfl rfl rfl
  have hiff := preRollMerged_feedAll_iff stream hstart hnodup .slnil
  simp only [(represents_start.feedAll _).leavesStartPending]
  rw [splitStream_writers]
  exact hiff.trans ⟨And.right, fun h => ⟨rfl, h⟩⟩

end

/-- Pre-roll merging works for a stream exactly when each stop marker behind which a start marker is still pending
    is followed by chunks that make the left-over marker harmless. -/
theorem splitter_merges_preroll_iff (chunks : List AudioChunk) :
    PreRollMerged (segments chunks.zipIdx) (splitStream chunks.zipIdx).writers ↔
      ∀ before c after, chunks.zipIdx = before ++ c :: after → isRecordingStop c = true →
        (Splitter.feedAll {} before).leavesStartPending c = true → leakHarmless after = true :=
  preRollMerged_iff (nodup_zipIdx chunks)

/-- A start and a stop marker with no audio between them, then audio: its writer is marked as opened by a start
    marker that lies in the segment before. -/
theorem splitter_leaks_start :
    let start : AudioChunk := { chunk := { audio := some { didStartRecording := true } } }
    let stop : AudioChunk := { chunk := { audio := some { didStopRecording := true } } }
    let audio : AudioChunk := { chunk := { audio := some { opusPackets := [0xB8] } } }
    let stream := [start, stop, audio].zipIdx
    segments stream = [[(start, 0), (stop, 1)], [(audio, 2)]] ∧
      (splitStream stream).writers = [{ added := [(audio, 2)], openedWithStartMarker := true }] ∧
      ¬ PreRollMerged (segments stream) (splitStream stream).writers := by
  intro start stop audio stream
  have hsegs : segments stream = [[(start, 0), (stop, 1)], [(audio, 2)]] := rfl
  have hwriters : (splitStream stream).writers = [{ added := [(audio, 2)], openedWithStartMarker := true }] := rfl
  refine ⟨hsegs, hwriters, fun h => ?_⟩
  have hmem := List.mem_singleton.mpr (rfl : (audio, 2) = (audio, 2))
  obtain ⟨c, hc, hs⟩ := (h.opened _ (hwriters ▸ List.mem_singleton.mpr rfl) [(audio, 2)] (by rw [hsegs]; simp) (audio, 2)
    hmem hmem).mp rfl
  obtain rfl := List.mem_singleton.mp hc
  exact Bool.false_ne_true hs

end PendantClient
