import PendantClient.Download
import PendantClient.Lib.LittleEndian

/-! The `inspect` command (`cli.py`): a second consumer of the session's inbox, which writes the flash pages it gets to a file
    and deletes them from the pendant. -/

namespace PendantClient

/-! ### What the loop finds in the inbox -/

/-- An object in the queue. -/
inductive InboxObject
  | tuple (payload : Bytes) (msg : PendantAllMsg)
  | message (msg : PendantAllMsg)
  deriving Repr, DecidableEq

/-- `self._inbox.put_nowait((payload, msg))`. -/
def inboxObject (entry : InboxEntry) : InboxObject := .tuple entry.1 entry.2

namespace InboxObject

/-- The exception of an attribute that a pair does not have. -/
def noAttribute (name : String) : PyError := .attributeError s!"'tuple' object has no attribute '{name}'"

/-- `msg.WhichOneof("content")`. -/
def whichOneof : InboxObject → Except PyError (Option ContentKind)
  | tuple _ _ => .error (noAttribute "WhichOneof")
  | message msg => .ok msg.whichOneof

/-- `msg.storage_buffer`, which has its default values when it is not set. -/
def storageBuffer : InboxObject → Except PyError StorageBufferMsg
  | tuple _ _ => .error (noAttribute "storage_buffer")
  | message msg =>
    match msg.content with
    | some (.storageBuffer sb) => .ok sb
    | _ => .ok {}

/-- The start of the loop's body, up to the page to capture: `none` where it goes on with the next entry. -/
def capturedPage (msg : InboxObject) : Except PyError (Option StorageBufferMsg) := do
  let oneof ← msg.whichOneof
  if oneof ≠ some .storageBuffer then .ok none
  else
    let sb ← msg.storageBuffer
    if sb.flashPage.isEmpty then .ok none else .ok (some sb)

end InboxObject

/-- `n.to_bytes(4, "little")`. -/
def toBytes4 (n : Nat) : Except PyError Bytes :=
  if n < 2 ^ 32 then .ok (LittleEndian.bytes 4 n) else .error (.overflowError "int too big to convert")

/-! ### The command -/

/-- The options of `inspect`. -/
structure InspectOptions where
  numPages : Int := 5
  outPath : Option String := none
  deriving Repr, DecidableEq

/-- `if out_path`. -/
def InspectOptions.hasOut (options : InspectOptions) : Bool := options.outPath.any (· ≠ "")

/-- How the loop was left. -/
inductive LoopExit
  /-- `captured < num_pages` no longer holds. -/
  | limit
  /-- `get` has timed out. -/
  | idle
  /-- The body raised on an entry. -/
  | raised (e : PyError)
  /-- An exception came out of an `await`. -/
  | interrupted (e : PyError)
  deriving Repr, DecidableEq

/-- The exception that goes on behind the `finally`. -/
def LoopExit.error? : LoopExit → Option PyError
  | limit | idle => none
  | raised e | interrupted e => some e

/-- The `await` at which the command waits. -/
inductive InspectPhase
  /-- In `handshake`: the command that sets the clock. -/
  | handshaking
  /-- In `begin_batch_download`. -/
  | beginning
  /-- In `wait_for(s._inbox.get(), ...)`. -/
  | waiting
  /-- In `delete_flash_page`. -/
  | deleting
  /-- In the `finally`: `stop_batch_download`. -/
  | stopping (exit : LoopExit)
  /-- The loop was left, if it was entered, and `go` is over, with the exception it raises. -/
  | ended (exit : Option LoopExit) (raised : Option PyError)
  deriving Repr, DecidableEq

/-- The command at an `await`. It starts in the first one of `handshake`, whose command has its request id. -/
structure Inspect where
  session : Session := { lastRequestId := 1 }
  phase : InspectPhase := .handshaking
  captured : Nat := 0
  /-- What has been appended to the file. -/
  written : Bytes := []
  /-- What `get` has given. -/
  taken : List InboxEntry := []
  /-- The arguments of `delete_flash_page`. -/
  deletes : List Int := []

/-- What happens next to the command. -/
inductive InspectAct
  /-- The transport dispatches a payload. -/
  | inbound (payload : Bytes)
  /-- The command under way has been sent. -/
  | sent
  /-- `get` gives the oldest entry. -/
  | take
  /-- `get` times out. -/
  | timeout
  /-- The current `await` raises: the command cannot be sent, or the task is cancelled. -/
  | raises (e : PyError)
  deriving Repr, DecidableEq

namespace Inspect

/-- A command takes a request id, and is sent. -/
def send (s : Inspect) (phase : InspectPhase) : Inspect :=
  { s with session := { s.session with lastRequestId := s.session.lastRequestId + 1 }, phase }

/-- The loop is left for the `finally`. -/
def leave (s : Inspect) (exit : LoopExit) : Inspect := s.send (.stopping exit)

/-- `while captured < num_pages`. -/
def loop (options : InspectOptions) (s : Inspect) : Inspect :=
  if s.captured < options.numPages then { s with phase := .waiting } else s.leave .limit

/-- `delete_flash_page`. An index that does not fit the `uint32` field raises before anything is sent. -/
def delete (s : Inspect) (index : Int) : Inspect :=
  let s := { s with deletes := s.deletes ++ [index] }
  if 0 ≤ index ∧ index < 2 ^ 32 then s.send .deleting else s.leave (.raised (.valueError s!"Value out of range: {index}"))

/-- The body of the loop, up to where it waits again. -/
def body (options : InspectOptions) (s : Inspect) (msg : InboxObject) : Inspect :=
  match msg.capturedPage with
  | .error e => s.leave (.raised e)
  | .ok none => s.loop options
  | .ok (some sb) =>
    let s := { s with captured := s.captured + 1 }
    if options.hasOut then
      match toBytes4 sb.flashPage.length with
      | .error e => s.leave (.raised e)
      | .ok length => { s with written := s.written ++ length ++ sb.flashPage }.delete sb.index
    else s.delete sb.index

/-- `object` tells what the queue holds for an entry of the inbox. -/
def step (parse : Bytes → Option PendantAllMsg) (object : InboxEntry → InboxObject) (options : InspectOptions) (s : Inspect) :
    InspectAct → Option Inspect
  | .inbound payload => some { s with session := s.session.onInbound parse payload }
  | .sent =>
    match s.phase with
    | .handshaking => some (s.send .beginning)
    | .beginning => some (s.loop options)
    | .deleting => some (s.loop options)
    | .stopping exit => some { s with phase := .ended (some exit) exit.error? }
    | _ => none
  | .take =>
    match s.phase, s.session.inbox with
    | .waiting, entry :: rest =>
      some ({ s with session := { s.session with inbox := rest }, taken := s.taken ++ [entry] }.body options (object entry))
    | _, _ => none
  | .timeout =>
    match s.phase with
    | .waiting => some (s.leave .idle)
    | _ => none
  | .raises e =>
    match s.phase with
    | .handshaking => some { s with phase := .ended none (some e) }
    | .beginning => some { s with phase := .ended none (some e) }
    | .waiting => some (s.leave (.interrupted e))
    | .deleting => some (s.leave (.interrupted e))
    | .stopping exit => some { s with phase := .ended (some exit) (some e) }
    | .ended _ _ => none

end Inspect

end PendantClient
