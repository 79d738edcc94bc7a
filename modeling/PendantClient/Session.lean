import Mathlib.Data.List.AList
import PendantClient.Lib.Transition
import PendantClient.Python

/-! Requests and inbound messages of a `PendantSession` (`session.py`), as a step relation: any number of
    `_request` calls are under way, and the event loop runs one piece of code between two `await`s at a time. -/

namespace PendantClient

/-! ### Messages -/

/-- The names of the `content` oneof of a `PendantAllMsg`. -/
inductive ContentKind
  | deviceInfo | storageBuffer | setCurrentTimeResponse | authenticateIngest | deviceStatus | batteryStatus
  | buttonStatus | realTimeAudioData | realTimeAudioAck
  deriving Repr, DecidableEq

/-- A `StorageBufferMsg` message. -/
structure StorageBufferMsg where
  ingestType : Int := 0
  session : Int := 0
  run : Int := 0
  seq : Int := 0
  index : Int := 0
  flashPage : Bytes := []
  flashPageError : Int := 0
  deriving Repr, DecidableEq

/-- The content of a `PendantAllMsg`. A submessage of another kind is kept as its encoding. -/
inductive Content
  | storageBuffer (page : StorageBufferMsg)
  | other (kind : ContentKind) (notPage : kind ≠ .storageBuffer) (encoding : Bytes := [])
  deriving Repr, DecidableEq

/-- A `ResponseData` message. -/
structure ResponseData where
  requestId : Int := 0
  deriving Repr, DecidableEq

/-- A `PendantAllMsg` message. -/
structure PendantAllMsg where
  responseData : Option ResponseData := none
  content : Option Content := none
  deriving Repr, DecidableEq

namespace PendantAllMsg

/-- `msg.WhichOneof("content")`. -/
def whichOneof (msg : PendantAllMsg) : Option ContentKind :=
  match msg.content with
  | none => none
  | some (.storageBuffer _) => some .storageBuffer
  | some (.other kind _ _) => some kind

/-- `msg.response_data.request_id if msg.HasField("response_data") else 0`. -/
def requestId (msg : PendantAllMsg) : Int := (msg.responseData.map (·.requestId)).getD 0

end PendantAllMsg

/-! ### The session -/

/-- The state of a future. -/
inductive FutureState
  | pending
  | result (msg : PendantAllMsg)
  | cancelled
  deriving Repr, DecidableEq

/-- What a `PendantSession` keeps of its requests and its inbox. -/
structure Session where
  /-- `_next_request_id._n`. -/
  lastRequestId : Nat := 0
  /-- `_pending`: the number of the future that waits for a request id. -/
  pending : AList (fun _ : Int => Nat) := ∅
  /-- `_pending_by_oneof`. -/
  pendingByOneof : AList (fun _ : ContentKind => Nat) := ∅
  /-- The futures made by `_request`, in order. -/
  futures : List FutureState := []
  /-- `_inbox`, oldest entry first. -/
  inbox : List (Bytes × PendantAllMsg) := []

namespace Session

/-- `if fut is not None and not fut.done(): fut.set_result(msg)`; `none` when the condition fails. -/
def setResult (s : Session) (fut : Option Nat) (msg : PendantAllMsg) : Option Session :=
  match fut with
  | none => none
  | some f =>
    match s.futures[f]? with
    | some .pending => some { s with futures := s.futures.set f (.result msg) }
    | _ => none

/-- `_on_inbound`. `parse` is `parse_pendant_all`, with `none` when it raises. -/
def onInbound (parse : Bytes → Option PendantAllMsg) (s : Session) (payload : Bytes) : Session :=
  match parse payload with
  | none => s
  | some msg =>
    let rid := msg.requestId
    -- Primary match: explicit request_id
    let (fut, s) := if rid ≠ 0 then (s.pending.lookup rid, { s with pending := s.pending.erase rid }) else (none, s)
    match s.setResult fut msg with
    | some s => s
    | none =>
      -- Fallback: match by oneof name
      let (fut, s) := match msg.whichOneof with
        | some kind => (s.pendingByOneof.lookup kind, { s with pendingByOneof := s.pendingByOneof.erase kind })
        | none => (none, s)
      match s.setResult fut msg with
      | some s => s
      | none => { s with inbox := s.inbox ++ [(payload, msg)] }

/-- The `finally` of `_request`: the fallback entry goes if it is still this call's. -/
def cleanUp (s : Session) (expectedOneof : Option ContentKind) (fut : Nat) : Session :=
  match expectedOneof with
  | none => s
  | some kind =>
    if s.pendingByOneof.lookup kind = some fut then { s with pendingByOneof := s.pendingByOneof.erase kind } else s

/-- Cancelling a future that is done has no effect. -/
def cancelFuture (s : Session) (fut : Nat) : Session :=
  match s.futures[fut]? with
  | some .pending => { s with futures := s.futures.set fut .cancelled }
  | _ => s

end Session

/-! ### Requests -/

/-- Where a call of `_request` stands. -/
inductive CallPhase
  /-- In `send_command`. -/
  | sending
  /-- In `wait_for`. -/
  | waiting
  | returned (msg : PendantAllMsg)
  | raised
  deriving Repr, DecidableEq

/-- A call of `_request`. The future of the `k`-th call is the `k`-th future. -/
structure RequestCall where
  requestId : Nat
  expectedOneof : Option ContentKind
  phase : CallPhase := .sending
  deriving Repr, DecidableEq

/-- The session and the calls of `_request` that have been made, in order. -/
structure SessionState where
  session : Session := {}
  calls : List RequestCall := []

/-- What happens next in a session. -/
inductive SessionAct
  /-- `_request` is called and runs up to its send. -/
  | request (expectedOneof : Option ContentKind)
  /-- Another command takes a request id (`_send_oneway`, `build_command`). -/
  | takeId
  /-- `send_command` returns to the call. -/
  | sent (call : Nat)
  /-- `send_command` raises in the call. -/
  | sendFails (call : Nat)
  /-- The transport dispatches a payload. -/
  | inbound (payload : Bytes)
  /-- `wait_for` returns the future's result. -/
  | complete (call : Nat)
  /-- `wait_for` gives up, which may also happen when a result has been set and the call has not run since. -/
  | timeout (call : Nat)
  /-- The task of the call is cancelled. -/
  | cancel (call : Nat)
  deriving Repr, DecidableEq

namespace SessionState

/-- The call `c`, at place `k`, goes on to a phase. -/
def setPhase (s : SessionState) (k : Nat) (c : RequestCall) (phase : CallPhase) : SessionState :=
  { s with calls := s.calls.set k { c with phase } }

/-- The call leaves `wait_for`, through the `finally`. -/
def leave (s : SessionState) (k : Nat) (c : RequestCall) (phase : CallPhase) : SessionState :=
  { s with session := s.session.cleanUp c.expectedOneof k }.setPhase k c phase

/-- An exception ends the wait. -/
def abandon (s : SessionState) (k : Nat) (c : RequestCall) : SessionState :=
  { s with session := s.session.cancelFuture k }.leave k c .raised

/-- `_request` up to its send. An id over the range of an `int64` field raises before anything is registered. -/
def request (s : SessionState) (expectedOneof : Option ContentKind) : SessionState :=
  let id := s.session.lastRequestId + 1
  let fut := s.calls.length
  if 2 ^ 63 ≤ id then { s with session := { s.session with lastRequestId := id } }
  else
    let byOneof := match expectedOneof with
      | none => s.session.pendingByOneof
      | some kind =>
        if kind ∈ s.session.pendingByOneof then s.session.pendingByOneof else s.session.pendingByOneof.insert kind fut
    { session := { s.session with
        lastRequestId := id
        pending := s.session.pending.insert id fut
        pendingByOneof := byOneof
        futures := s.session.futures ++ [.pending] }
      calls := s.calls ++ [{ requestId := id, expectedOneof }] }

/-- One step of a session, if it can happen now. -/
def step (parse : Bytes → Option PendantAllMsg) (s : SessionState) : SessionAct → Option SessionState
  | .request expectedOneof => some (s.request expectedOneof)
  | .takeId => some { s with session := { s.session with lastRequestId := s.session.lastRequestId + 1 } }
  | .sent k =>
    match s.calls[k]? with
    | some c => if c.phase = .sending then some (s.setPhase k c .waiting) else none
    | none => none
  | .sendFails k =>
    match s.calls[k]? with
    | some c => if c.phase = .sending then some (s.setPhase k c .raised) else none
    | none => none
  | .inbound payload => some { s with session := s.session.onInbound parse payload }
  | .complete k =>
    match s.calls[k]?, s.session.futures[k]? with
    | some c, some (.result msg) => if c.phase = .waiting then some (s.leave k c (.returned msg)) else none
    | _, _ => none
  | .timeout k =>
    match s.calls[k]? with
    | some c => if c.phase = .waiting then some (s.abandon k c) else none
    | none => none
  | .cancel k =>
    match s.calls[k]? with
    | some c =>
      -- a call that is still sending has no `finally` around it yet
      if c.phase = .sending then some (s.setPhase k c .raised)
      else if c.phase = .waiting then some (s.abandon k c)
      else none
    | none => none

end SessionState

end PendantClient
