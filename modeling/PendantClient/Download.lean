import PendantClient.Ble
import PendantClient.Session

/-! Draining the pendant (`download_raw_pendant_messages`): the generator over the session's inbox, with the
    transport below it and the pendant's delete commands at the other end of the link. -/

namespace PendantClient

/-- The page number of a `storage_buffer` message. -/
def PendantAllMsg.page (msg : PendantAllMsg) : Option Int :=
  match msg.content with
  | some (.storageBuffer page) => some page.index
  | _ => none

/-- An entry of the inbox: the payload and what it parses to. -/
abbrev InboxEntry := Bytes × PendantAllMsg

/-- Where the generator stands. -/
inductive DownloadPhase
  /-- No generator is running. -/
  | idle
  /-- In `wait_for(self._inbox.get(), ...)`. -/
  | waiting
  /-- Suspended at the `yield` of an entry. -/
  | yielded (entry : InboxEntry)
  /-- In `delete_flash_page` for an entry. -/
  | acking (entry : InboxEntry) (index : Int)
  /-- In the `finally`: `stop_batch_download`. -/
  | stopping
  deriving Repr, DecidableEq

/-- The client while it drains, and what the pendant has been told to delete. -/
structure Download where
  table : ReassemblyTable := ∅
  state : SessionState := {}
  phase : DownloadPhase := .idle
  /-- The entries yielded so far. -/
  yielded : List InboxEntry := []
  /-- The entries for which `delete_flash_page` was called. -/
  acked : List InboxEntry := []
  /-- The arguments of the delete commands that reached the pendant. -/
  deletes : List Nat := []

/-- What happens next on the link, in the session or in the generator. -/
inductive DownloadAct
  /-- A notification from the pendant. -/
  | notify (raw : Bytes)
  /-- Another use of the session. -/
  | session (a : SessionAct)
  /-- The generator is started; `begin_batch_download` succeeds, or raises before the `try`. -/
  | begin (ok : Bool)
  /-- `get` gives the oldest entry, which is yielded. -/
  | take
  /-- `get` times out. -/
  | timeout
  /-- The consumer asks for the next item. -/
  | resume
  /-- The call of `delete_flash_page` is over, an `Exception` in it suppressed. -/
  | ackDone (delivered : Bool)
  /-- An exception is thrown in at the current `await` or `yield`; a delete under way may have been delivered. -/
  | abort (delivered : Bool)
  /-- The `finally` is over. -/
  | stop
  deriving Repr, DecidableEq

namespace Download

/-- The entries that wait in the session's queue, the oldest first. -/
def inbox (d : Download) : List InboxEntry := d.state.session.inbox

/-- `_on_data`, with `_on_inbound` as the subscriber. -/
def onNotification (parse : Bytes → Option PendantAllMsg) (d : Download) (raw : Bytes) : Download :=
  let (table, outcome) := onData d.table raw
  match outcome with
  | .dispatched payload =>
    { d with table, state := { d.state with session := d.state.session.onInbound parse payload } }
  | _ => { d with table }

/-- A one-way command takes a request id. -/
def takeId (d : Download) : Download :=
  { d with state := { d.state with session := { d.state.session with lastRequestId := d.state.session.lastRequestId + 1 } } }

/-- Whether the `uint32` field of a delete command takes an index. -/
def deletable (index : Int) : Bool := 0 ≤ index ∧ index < 2 ^ 32

/-- The command of `delete_flash_page` takes a request id, unless its field refuses the index: that raises first. -/
def callDelete (d : Download) (index : Int) : Download :=
  let last := d.state.session.lastRequestId
  { d with state := { d.state with session := { d.state.session with lastRequestId := if deletable index then last + 1 else last } } }

/-- What reaches the pendant of a delete command. -/
def deliverDelete (d : Download) (index : Int) (delivered : Bool) : Download :=
  if delivered ∧ deletable index then { d with deletes := d.deletes ++ [index.toNat] } else d

/-- One step of a download, if it can happen now. A message reaches the session through the transport only. -/
def step (parse : Bytes → Option PendantAllMsg) (d : Download) : DownloadAct → Option Download
  | .notify raw => some (d.onNotification parse raw)
  | .session a =>
    match a with
    | .inbound _ => none
    | a => (d.state.step parse a).map fun state => { d with state }
  | .begin ok =>
    match d.phase with
    | .idle => some { d.takeId with phase := if ok then .waiting else .idle }
    | _ => none
  | .take =>
    match d.phase, d.inbox with
    | .waiting, entry :: rest =>
      some { d with
        state := { d.state with session := { d.state.session with inbox := rest } }
        phase := .yielded entry
        yielded := d.yielded ++ [entry] }
    | _, _ => none
  | .timeout =>
    match d.phase with
    | .waiting => some { d with phase := .stopping }
    | _ => none
  | .resume =>
    match d.phase with
    | .yielded entry =>
      match entry.2.page with
      | some index => some { d.callDelete index with phase := .acking entry index, acked := d.acked ++ [entry] }
      | none => some { d with phase := .waiting }
    | _ => none
  | .ackDone delivered =>
    match d.phase with
    | .acking _ index => some { d.deliverDelete index delivered with phase := .waiting }
    | _ => none
  | .abort delivered =>
    match d.phase with
    | .waiting => some { d with phase := .stopping }
    | .yielded _ => some { d with phase := .stopping }
    | .acking _ index => some { d.deliverDelete index delivered with phase := .stopping }
    | _ => none
  | .stop =>
    match d.phase with
    | .stopping => some { d.takeId with phase := .idle }
    | _ => none

end Download

end PendantClient
