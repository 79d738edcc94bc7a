import PendantClient.FlashPage

/-! `RecordingSplitter` (`decode.py`). A splitter makes calls on the writers it opens; the model keeps them
    in order, and what became of each writer is read off them. -/

namespace PendantClient

/-- A call on the `open_writer` callback, or on the writer that it returned for an index. -/
inductive WriterCall (χ : Type)
  | openWriter (index : Nat) (chunk : χ)
  | setOpenedWithStartMarker (index : Nat)
  | add (index : Nat) (chunk : χ)
  | setClosedWithStopMarker (index : Nat)
  | close (index : Nat)
  deriving Repr, DecidableEq

/-- A `RecordingSplitter`, with the calls it has made on its writers. -/
structure Splitter (χ : Type) where
  current : Option Nat := none
  currentHasExplicitStart : Bool := false
  nextIndex : Nat := 0
  /-- `getattr(self, "_pending_start_marker", False)`: the attribute is made by the first `feed` that sets it. -/
  pendingStartMarker : Bool := false
  calls : List (WriterCall χ) := []
  deriving Repr, DecidableEq

namespace Splitter
variable {χ : Type} [Flagged χ]

/-- A call on a writer is made. -/
def call (s : Splitter χ) (c : WriterCall χ) : Splitter χ := { s with calls := s.calls ++ [c] }

/-- `_open`: the splitter with the new writer, and its index. -/
def openWriter (s : Splitter χ) (chunk : χ) (hasExplicitStart : Bool) : Splitter χ × Nat :=
  let index := s.nextIndex
  let s := s.call (.openWriter index chunk)
  let s := { s with nextIndex := index + 1, current := some index, currentHasExplicitStart := hasExplicitStart }
  if hasExplicitStart then (s.call (.setOpenedWithStartMarker index), index) else (s, index)

/-- `_close`. -/
def close (s : Splitter χ) (withStopMarker : Bool) : Splitter χ :=
  match s.current with
  | none => s
  | some index =>
    let s := if withStopMarker then s.call (.setClosedWithStopMarker index) else s
    { s.call (.close index) with current := none, currentHasExplicitStart := false }

/-- Phase 3 of `feed`: a stop marker closes the writer. -/
def feedStop (s : Splitter χ) (chunk : χ) : Splitter χ :=
  if isRecordingStop chunk && s.current.isSome then s.close true else s

/-- Phase 2: audio goes to the current writer, or to a new one. A writer's `add` may raise; then nothing
    after it happens. -/
def feedAudio (s : Splitter χ) (chunk : χ) (addRaises : Option PyError) : Splitter χ × Option PyError :=
  if hasAudio chunk then
    let (s, index) := match s.current with
      | some index => (s, index)
      | none =>
        let pending := s.pendingStartMarker
        let (s, index) := s.openWriter chunk pending
        (if pending then { s with pendingStartMarker := false } else s, index)
    let s := s.call (.add index chunk)
    match addRaises with
    | some e => (s, some e)
    | none => (s.feedStop chunk, none)
  else (s.feedStop chunk, none)

/-- `feed`. Phase 1 handles a start marker: with no writer left to take it, it is only noted. -/
def feed (s : Splitter χ) (chunk : χ) (addRaises : Option PyError) : Splitter χ × Option PyError :=
  if isRecordingStart chunk then
    let s := if s.current.isSome && s.currentHasExplicitStart then s.close false else s
    match s.current with
    | some index =>
      let s := { s with currentHasExplicitStart := true }
      (s.call (.setOpenedWithStartMarker index)).feedAudio chunk addRaises
    | none => ({ s with pendingStartMarker := true }, none)
  else s.feedAudio chunk addRaises

/-- `finalize`. -/
def finalize (s : Splitter χ) : Splitter χ :=
  match s.current with
  | none => s
  | some index => { s.call (.close index) with current := none, currentHasExplicitStart := false }

/-- A stream fed chunk by chunk to writers that do not raise. -/
def feedAll (s : Splitter χ) (chunks : List χ) : Splitter χ := chunks.foldl (fun s chunk => (s.feed chunk none).1) s

/-- A stream fed chunk by chunk, each with what `add` would raise on it, until an `add` does raise. -/
def feedUntil (s : Splitter χ) : List (χ × Option PyError) → Splitter χ × Option PyError
  | [] => (s, none)
  | (chunk, addRaises) :: rest =>
    match s.feed chunk addRaises with
    | (s, some e) => (s, some e)
    | (s, none) => s.feedUntil rest

end Splitter

/-! ### Writers -/

/-- What a writer has been told: the chunks added to it and its two marker attributes. -/
structure Writer (χ : Type) where
  added : List χ := []
  openedWithStartMarker : Bool := false
  closedWithStopMarker : Bool := false
  deriving Repr, DecidableEq

/-- The effect of a call on the writers opened so far, in index order. -/
def WriterCall.apply {χ : Type} (writers : List (Writer χ)) : WriterCall χ → List (Writer χ)
  | .openWriter _ _ => writers ++ [{}]
  | .setOpenedWithStartMarker index => writers.modify index fun w => { w with openedWithStartMarker := true }
  | .add index chunk => writers.modify index fun w => { w with added := w.added ++ [chunk] }
  | .setClosedWithStopMarker index => writers.modify index fun w => { w with closedWithStopMarker := true }
  | .close _ => writers

/-- The writers a splitter has opened. -/
def Splitter.writers {χ : Type} (s : Splitter χ) : List (Writer χ) := s.calls.foldl WriterCall.apply []

/-- A whole stream through a new splitter. -/
def splitStream {χ : Type} [Flagged χ] (chunks : List χ) : Splitter χ := (Splitter.feedAll {} chunks).finalize

end PendantClient
