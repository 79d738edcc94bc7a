import Mathlib.Logic.Function.Iterate
import PendantClient.Splitter

/-! The lives of a splitter's writers. At every point between two calls of the splitter, its trace is the whole lives
    of the closed writers, one after the other, and then the life so far of the open one. -/

namespace PendantClient

/-- What happens in the life of a writer. -/
inductive WriterEvent
  | opened (index : Nat)
  | added (index : Nat)
  | closed (index : Nat)
  deriving Repr, DecidableEq

/-- What a trace shows of a call: setting a marker attribute leaves no event. -/
def WriterCall.event {χ : Type} : WriterCall χ → Option WriterEvent
  | .openWriter index _ => some (.opened index)
  | .add index _ => some (.added index)
  | .close index => some (.closed index)
  | .setOpenedWithStartMarker _ | .setClosedWithStopMarker _ => none

/-- The lives of all writers, in the order of the calls. -/
def Splitter.trace {χ : Type} (s : Splitter χ) : List WriterEvent := s.calls.filterMap WriterCall.event

/-- A writer that is open and has been added to once, and then `n` more times. -/
def openLife (index n : Nat) : List WriterEvent := .opened index :: List.replicate (n + 1) (.added index)

/-- The whole life of a writer. -/
def life (index n : Nat) : List WriterEvent := openLife index n ++ [.closed index]

/-- The lives of the writers 0, 1, 2, …, one after the other. -/
def lives (adds : List Nat) : List WriterEvent := (adds.mapIdx life).flatten

theorem lives_snoc (adds : List Nat) (n : Nat) : lives (adds ++ [n]) = lives adds ++ life adds.length n := by
  rw [lives, List.mapIdx_concat, List.flatten_append, List.flatten_singleton]
  rfl

theorem openLife_succ (index n : Nat) : openLife index (n + 1) = openLife index n ++ [.added index] := by
  rw [openLife, List.replicate_succ', openLife, List.cons_append]

/-! ### What a call of the splitter keeps -/

/-- The closed writers were added to `adds` times (less one each), and the open one, if any, `last` times less one. -/
structure Lifecycle {χ : Type} (s : Splitter χ) (adds : List Nat) (last : Option Nat) : Prop where
  trace : s.trace = lives adds ++ (last.map (openLife adds.length)).getD []
  current : s.current = last.map fun _ => adds.length
  nextIndex : s.nextIndex = adds.length + last.toList.length

/-- Between two calls. -/
def AtRest {χ : Type} (s : Splitter χ) : Prop := ∃ adds last, Lifecycle s adds last

section
variable {χ : Type} {s : Splitter χ} {adds : List Nat} {n : Nat}

theorem trace_call (s : Splitter χ) (c : WriterCall χ) : (s.call c).trace = s.trace ++ c.event.toList := by
  rw [Splitter.call, Splitter.trace, List.filterMap_append]
  cases h : c.event <;> simp [h, Splitter.trace]

theorem Lifecycle.added (h : Lifecycle s adds (some n)) (chunk : χ) :
    Lifecycle (s.call (.add adds.length chunk)) adds (some (n + 1)) where
  trace := by
    rw [trace_call, h.trace, Option.map_some, Option.map_some, Option.getD_some, Option.getD_some, openLife_succ,
      List.append_assoc]
    rfl
  current := h.current
  nextIndex := h.nextIndex

theorem Lifecycle.closed (h : Lifecycle s adds (some n)) :
    Lifecycle { s.call (.close adds.length) with current := none, currentHasExplicitStart := false } (adds ++ [n]) none where
  trace := by
    show (s.call _).trace = _
    rw [trace_call, h.trace, lives_snoc, life]
    simp [WriterCall.event]
  current := rfl
  nextIndex := by
    show s.nextIndex = _
    rw [h.nextIndex, List.length_append]
    rfl

/-- Setting a marker attribute is nothing the trace shows. -/
theorem Lifecycle.marked {last : Option Nat} (h : Lifecycle s adds last) {c : WriterCall χ} (hc : c.event = none) :
    Lifecycle (s.call c) adds last where
  trace := by
    rw [trace_call, hc, Option.toList_none, List.append_nil]
    exact h.trace
  current := h.current
  nextIndex := h.nextIndex

theorem Lifecycle.close (h : Lifecycle s adds (some n)) (withStopMarker : Bool) :
    Lifecycle (s.close withStopMarker) (adds ++ [n]) none := by
  rw [Splitter.close, h.current]
  cases withStopMarker with
  | true => exact (h.marked rfl).closed
  | false => exact h.closed

theorem AtRest.close (h : AtRest s) (withStopMarker : Bool) : AtRest (s.close withStopMarker) := by
  obtain ⟨adds, last, h⟩ := h
  cases hlast : last with
  | none =>
    rw [hlast] at h
    rw [Splitter.close, h.current]
    exact ⟨adds, none, h⟩
  | some n =>
    rw [hlast] at h
    exact ⟨_, _, h.close withStopMarker⟩

theorem Lifecycle.opened (h : Lifecycle s adds none) (chunk : χ) (hasExplicitStart : Bool) :
    (s.openWriter chunk hasExplicitStart).2 = adds.length ∧
    Lifecycle ((s.openWriter chunk hasExplicitStart).1.call (.add adds.length chunk)) adds (some 0) := by
  have hnext : s.nextIndex = adds.length := h.nextIndex
  have htrace : s.trace = lives adds := by
    rw [h.trace, Option.map_none, Option.getD_none, List.append_nil]
  have hcur : some s.nextIndex = some adds.length := congrArg some hnext
  have hnext' : s.nextIndex + 1 = adds.length + 1 := congrArg (· + 1) hnext
  cases hasExplicitStart with
  | true =>
    refine ⟨hnext, ?_, hcur, hnext'⟩
    show (((s.call _).call _).call _).trace = _
    rw [trace_call, trace_call, trace_call, htrace, hnext]
    simp [WriterCall.event, openLife]
  | false =>
    refine ⟨hnext, ?_, hcur, hnext'⟩
    show ((s.call _).call _).trace = _
    rw [trace_call, trace_call, htrace, hnext]
    simp [WriterCall.event, openLife]

variable [Flagged χ] {chunk : χ}

theorem AtRest.feedStop (h : AtRest s) : AtRest (s.feedStop chunk) := by
  rw [Splitter.feedStop]
  split
  · exact h.close true
  · exact h

theorem AtRest.afterAdd (h : AtRest s) (addRaises : Option PyError) :
    AtRest (addRaises.elim (s.feedStop chunk) fun _ => s) := by
  cases addRaises with
  | none => exact h.feedStop
  | some e => exact h

/-- Audio for the open writer; if its `add` raises, the stop marker is not looked at. -/
theorem feedAudio_current {index : Nat} (addRaises : Option PyError) (ha : hasAudio chunk = true)
    (hcur : s.current = some index) :
    (s.feedAudio chunk addRaises).1 =
      addRaises.elim ((s.call (.add index chunk)).feedStop chunk) fun _ => s.call (.add index chunk) := by
  rw [Splitter.feedAudio, if_pos ha, hcur]
  cases addRaises <;> rfl

/-- Audio for a new writer, which takes the start marker that is waiting. -/
theorem feedAudio_new (addRaises : Option PyError) (ha : hasAudio chunk = true) (hcur : s.current = none) :
    (s.feedAudio chunk addRaises).1 =
      let opened := { (s.openWriter chunk s.pendingStartMarker).1 with pendingStartMarker := false }
      let added := opened.call (.add s.nextIndex chunk)
      addRaises.elim (added.feedStop chunk) fun _ => added := by
  have hindex : (s.openWriter chunk s.pendingStartMarker).2 = s.nextIndex := by
    rw [Splitter.openWriter]
    split <;> rfl
  have hpending : (s.openWriter chunk s.pendingStartMarker).1.pendingStartMarker = s.pendingStartMarker := by
    rw [Splitter.openWriter]
    split <;> rfl
  have hcleared : (if s.pendingStartMarker then
      { (s.openWriter chunk s.pendingStartMarker).1 with pendingStartMarker := false }
      else (s.openWriter chunk s.pendingStartMarker).1) =
        { (s.openWriter chunk s.pendingStartMarker).1 with pendingStartMarker := false } := by
    split
    · rfl
    · rename_i hno
      rw [← hpending] at hno
      generalize (s.openWriter chunk s.pendingStartMarker).1 = s' at hno
      obtain ⟨_, _, _, _ | _, _⟩ := s'
      · rfl
      · exact absurd rfl hno
  rw [Splitter.feedAudio, if_pos ha, hcur]
  dsimp only
  rw [hindex, hcleared]
  cases addRaises <;> rfl

theorem feedAudio_silent (addRaises : Option PyError) (ha : hasAudio chunk = false) :
    s.feedAudio chunk addRaises = (s.feedStop chunk, none) := by
  rw [Splitter.feedAudio, if_neg (by simp [ha])]

theorem AtRest.feedAudio (h : AtRest s) (addRaises : Option PyError) : AtRest (s.feedAudio chunk addRaises).1 := by
  cases ha : hasAudio chunk with
  | false =>
    rw [feedAudio_silent addRaises ha]
    exact h.feedStop
  | true =>
    obtain ⟨adds, last, h⟩ := h
    cases hlast : last with
    | some n =>
      rw [hlast] at h
      rw [feedAudio_current addRaises ha h.current]
      exact AtRest.afterAdd ⟨adds, _, h.added chunk⟩ addRaises
    | none =>
      rw [hlast] at h
      obtain ⟨-, hopened⟩ := h.opened chunk s.pendingStartMarker
      have hnext : s.nextIndex = adds.length := h.nextIndex
      have hadded : AtRest (Splitter.call { (s.openWriter chunk s.pendingStartMarker).1 with pendingStartMarker := false }
          (.add adds.length chunk)) := ⟨adds, some 0, hopened.trace, hopened.current, hopened.nextIndex⟩
      rw [feedAudio_new addRaises ha h.current, hnext]
      exact hadded.afterAdd addRaises

/-- A chunk leaves whole lives and an open writer that has been added to, also when its `add` raises. -/
theorem AtRest.feed (h : AtRest s) (addRaises : Option PyError) : AtRest (s.feed chunk addRaises).1 := by
  rw [Splitter.feed]
  split
  · have hclosed : AtRest (if s.current.isSome && s.currentHasExplicitStart then s.close false else s) := by
      split
      · exact h.close false
      · exact h
    generalize (if s.current.isSome && s.currentHasExplicitStart then s.close false else s) = s' at hclosed ⊢
    obtain ⟨adds, last, h'⟩ := hclosed
    dsimp only
    split
    · have hmarked : Lifecycle { s' with currentHasExplicitStart := true } adds last := ⟨h'.trace, h'.current, h'.nextIndex⟩
      exact AtRest.feedAudio ⟨adds, last, hmarked.marked rfl⟩ addRaises
    · exact ⟨adds, last, h'.trace, h'.current, h'.nextIndex⟩
  · exact h.feedAudio addRaises

theorem AtRest.feedUntil (feeds : List (χ × Option PyError)) : ∀ {s : Splitter χ}, AtRest s → AtRest (s.feedUntil feeds).1 := by
  induction feeds with
  | nil => exact fun h => h
  | cons feed rest ih =>
    intro s h
    have hfeed : AtRest (s.feed feed.1 feed.2).1 := h.feed feed.2
    rw [Splitter.feedUntil]
    split
    · rename_i heq
      rw [heq] at hfeed
      exact hfeed
    · rename_i heq
      rw [heq] at hfeed
      exact ih hfeed

/-! ### The end of the stream -/

omit [Flagged χ] in
theorem finalize_of_none (h : s.current = none) : s.finalize = s := by
  rw [Splitter.finalize, h]

omit [Flagged χ] in
theorem AtRest.finalize (h : AtRest s) : ∃ adds, Lifecycle s.finalize adds none := by
  obtain ⟨adds, last, h⟩ := h
  cases hlast : last with
  | none =>
    rw [hlast] at h
    rw [finalize_of_none h.current]
    exact ⟨adds, h⟩
  | some n =>
    rw [hlast] at h
    rw [Splitter.finalize, h.current]
    exact ⟨_, h.closed⟩

/-- However the stream ends, after `n + 1` calls of `finalize` the trace is the whole lives of the writers 0, 1, 2, …;
    before the first, the last one may lack its close. -/
theorem writers_live_in_turn (feeds : List (χ × Option PyError)) :
    (∀ n, ∃ adds, (Splitter.finalize^[n + 1] (({} : Splitter χ).feedUntil feeds).1).trace = lives adds) ∧
    ∃ (adds : List Nat) (last : Option Nat), (({} : Splitter χ).feedUntil feeds).1.trace =
      lives adds ++ (last.map (openLife adds.length)).getD [] := by
  have hstart : AtRest ({} : Splitter χ) := ⟨[], none, rfl, rfl, rfl⟩
  have hfed := hstart.feedUntil feeds
  refine ⟨fun n => ?_, ?_⟩
  · obtain ⟨adds, hfinal⟩ := hfed.finalize
    have hfixed : Splitter.finalize^[n] (({} : Splitter χ).feedUntil feeds).1.finalize =
        (({} : Splitter χ).feedUntil feeds).1.finalize := Function.iterate_fixed (finalize_of_none hfinal.current) n
    refine ⟨adds, ?_⟩
    rw [Function.iterate_succ_apply, hfixed, hfinal.trace, Option.map_none, Option.getD_none, List.append_nil]
  · obtain ⟨adds, last, h⟩ := hfed
    exact ⟨adds, last, h.trace⟩

end

/-- One chunk of audio and no call of `finalize`: the writer stays open. -/
theorem writer_left_open :
    let chunk : AudioChunk := { chunk := { audio := some { opusPackets := [0xB8] } } }
    (Splitter.finalize^[0] (({} : Splitter AudioChunk).feedUntil [(chunk, none)]).1).trace = [.opened 0, .added 0] ∧
      ¬∃ adds, (Splitter.finalize^[0] (({} : Splitter AudioChunk).feedUntil [(chunk, none)]).1).trace = lives adds := by
  refine ⟨rfl, ?_⟩
  rintro ⟨adds, h⟩
  have hlen := congrArg List.length h
  cases adds with
  | nil => exact absurd hlen (by decide)
  | cons n rest =>
    rw [lives, List.mapIdx_cons, List.flatten_cons, life, openLife] at hlen
    simp only [List.length_append, List.length_cons, List.length_replicate] at hlen
    have htwo : (Splitter.finalize^[0] (({} : Splitter AudioChunk).feedUntil
      [({ chunk := { audio := some { opusPackets := [0xB8] } } }, none)]).1).trace.length = 2 := rfl
    omega

end PendantClient
