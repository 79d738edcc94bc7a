import PendantClient.Batch
import PendantClient.Download

/-! The capture phase of `capture` and `sync` (`cli.py`): the loop that collects what the download yields, and the
    file that its `finally` writes. -/

namespace PendantClient

/-- Where the capture stands in its loop and its `finally`. -/
inductive CapturePhase
  /-- Waiting for the generator's next item. -/
  | iterating
  /-- In the body of the loop, before or after the payload is appended. -/
  | body (appended : Bool)
  /-- The loop is left, normally or by an exception; the `finally` writes the file. -/
  | finishing
  | ended
  deriving Repr, DecidableEq

/-- Whether the loop holds an item. -/
def CapturePhase.inBody : CapturePhase → Bool
  | .body _ => true
  | _ => false

/-- A capture over its download, with the files it finds. -/
structure Capture where
  files : Files
  download : Download := {}
  /-- `raw_messages`. -/
  rawMessages : List Bytes := []
  phase : CapturePhase := .iterating

/-- What happens next in a capture. -/
inductive CaptureAct
  /-- A step of the link, the session or the generator. -/
  | download (a : DownloadAct)
  /-- `raw_messages.append(payload)`. -/
  | append
  /-- The body is done; the loop asks for the next item. -/
  | next
  /-- An exception or an interrupt in the body. -/
  | interrupt
  /-- The `finally`, with at most one failing call of the file write. -/
  | finish (fault : Option IoFault)

namespace Capture

/-- Which steps of the generator can happen: its own while the loop waits for it, and its end when the loop does
    not hold it. -/
def allows (phase : CapturePhase) : DownloadAct → Bool
  | .notify _ | .session _ => true
  | .begin _ | .take | .timeout | .ackDone _ => phase = .iterating
  | .abort _ | .stop => !phase.inBody
  | .resume => false

/-- Where the loop is after a step of the generator: in its body behind a `yield`, left when the generator ends. -/
def phaseAfter (phase : CapturePhase) : DownloadAct → CapturePhase
  | .take => .body false
  | .begin false => .finishing
  | .stop => if phase = .iterating then .finishing else phase
  | _ => phase

/-- One step of a capture, if it can happen now: a step below it, one of the loop's body, or the write at its end. -/
def step (parse : Bytes → Option PendantAllMsg) (address : PyStr) (path : Path) (c : Capture) : CaptureAct → Option Capture
  | .download a =>
    if allows c.phase a then
      (c.download.step parse a).map fun download => { c with download, phase := phaseAfter c.phase a }
    else none
  | .append =>
    match c.phase, c.download.phase with
    | .body false, .yielded entry => some { c with rawMessages := c.rawMessages ++ [entry.1], phase := .body true }
    | _, _ => none
  | .next =>
    match c.phase with
    | .body true => (c.download.step parse .resume).map fun download => { c with download, phase := .iterating }
    | _ => none
  | .interrupt =>
    match c.phase with
    | .body _ => some { c with phase := .finishing }
    | _ => none
  | .finish fault =>
    match c.phase with
    | .finishing =>
      let files := (writeBatchIngestRequest c.files { items := c.rawMessages } address path fault).1
      some { c with files, phase := .ended }
    | _ => none

end Capture

end PendantClient
