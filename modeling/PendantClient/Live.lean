import PendantClient.Decode
import PendantClient.Download

/-! The live download (`PendantSession.download`): a generator over the raw download that decodes each payload by itself. -/

namespace PendantClient

/-- Where the live decoder stands. -/
inductive LivePhase
  /-- Waiting for the raw generator's next item. -/
  | iterating
  /-- A payload has arrived. -/
  | received
  /-- In the loop over the chunks of a payload, those of `left` still to come. -/
  | yielding (receivedAtMs : Int) (left : List AudioChunk)
  | ended
  /-- An exception was thrown in at a `yield`, or the consumer closed the generator there. -/
  | aborted
  deriving Repr, DecidableEq

/-- The live decoder over its download. -/
structure Live where
  download : Download := {}
  phase : LivePhase := .iterating
  /-- The chunks yielded so far. -/
  yielded : List AudioChunk := []

/-- What happens next in the live decoder. -/
inductive LiveAct
  /-- A step of the link, the session or the raw generator. -/
  | download (a : DownloadAct)
  /-- `received_at_ms = int(time.time() * 1000)`; the decoder is started on the payload. -/
  | stamp (nowMs : Int)
  /-- The next chunk is yielded. -/
  | yieldChunk
  /-- No chunk is left; the raw generator is asked for the next item. -/
  | next
  | abort
  deriving Repr, DecidableEq

namespace Live

/-- Whether the generator holds an item of the raw generator. -/
def inBody (phase : LivePhase) : Bool :=
  match phase with
  | .received | .yielding _ _ => true
  | _ => false

/-- Which steps of the raw generator can happen: its own while it is waited for, its end when nothing holds it. -/
def allows (phase : LivePhase) : DownloadAct → Bool
  | .notify _ | .session _ => true
  | .begin _ | .take | .timeout | .ackDone _ => phase = .iterating
  | .abort _ | .stop => !inBody phase
  | .resume => false

/-- Where the decoder is after a step of the raw generator. -/
def phaseAfter (phase : LivePhase) : DownloadAct → LivePhase
  | .take => .received
  | .begin false => .ended
  | .stop => if phase = .iterating then .ended else phase
  | _ => phase

/-- One step of the live decoder, if it can happen now. -/
def step (codecs : Codecs) (keys : Option AudioKeySet) (acceptTypes : List Int) (l : Live) : LiveAct → Option Live
  | .download a =>
    if allows l.phase a then
      (l.download.step codecs.parsePendantAll a).map fun download => { l with download, phase := phaseAfter l.phase a }
    else none
  | .stamp nowMs =>
    match l.phase, l.download.phase with
    | .received, .yielded entry =>
      some { l with phase := .yielding nowMs (iterAudioChunksFromMessages codecs keys acceptTypes [entry.1]) }
    | _, _ => none
  | .yieldChunk =>
    match l.phase with
    | .yielding nowMs (chunk :: left) =>
      some { l with phase := .yielding nowMs left, yielded := l.yielded ++ [{ chunk with receivedAtUnixMs := nowMs }] }
    | _ => none
  | .next =>
    match l.phase with
    | .yielding _ [] => (l.download.step codecs.parsePendantAll .resume).map fun download => { l with download, phase := .iterating }
    | _ => none
  | .abort =>
    match l.phase with
    | .yielding _ _ => some { l with phase := .aborted }
    | _ => none

end Live

end PendantClient
