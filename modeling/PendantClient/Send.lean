import PendantClient.Ble
import PendantClient.Lib.Transition

/-! Outgoing commands (`PendantTransport.send_command`) as a step relation: any number of calls are under
    way at once and their GATT writes interleave; a call runs without interruption up to its next write. -/

namespace PendantClient

/-! ### The link -/

/-- `DEFAULT_FRAGMENT_PAYLOAD`. -/
def defaultFragmentPayload : Nat := 470

/-- The MTU that `__aenter__` settles on. `read` is `mtu_size` after the exchange, `reread` what it is after a pause, and
    `none` a property that raises or gives no number. -/
def settledMtu (read reread : Option Int) : Option Int :=
  match read with
  | none => none
  | some mtu =>
    if mtu < 100 then
      match reread with
      | none => some mtu
      | some newMtu => if mtu < newMtu then some newMtu else some mtu
    else some mtu

/-- `_fragment_payload` once the client has connected. -/
def settledPayload (mtu : Option Int) : Nat :=
  match mtu with
  | none => defaultFragmentPayload
  -- Floor to a friendly value.
  | some mtu => if 7 < mtu then (max 150 (mtu - 30)).toNat else defaultFragmentPayload

/-! ### Sending -/

/-- The chunks of a command: `[cmd[i:i+p] for i in range(0, max(1, len(cmd)), p)]`, or one empty chunk. -/
def commandChunks (fragmentPayload : Nat) (command : Bytes) : List Bytes :=
  let chunks := (rangeStep (max 1 command.length) fragmentPayload).map fun i => slice command i (i + fragmentPayload)
  if chunks = [] then [[]] else chunks

/-- Where a call of `send_command` stands. -/
inductive SendStatus
  /-- Between two writes. -/
  | writing
  /-- All chunks written; the call gave back the index. -/
  | returned (index : Nat)
  /-- A write raised, and the call with it. -/
  | raised
  deriving Repr, DecidableEq

/-- One call of `send_command`: its index, its chunks and the `seq` of the next write. -/
structure SendCall where
  index : Nat
  command : Bytes
  chunks : List Bytes
  seq : Nat := 0
  status : SendStatus := .writing
  deriving Repr, DecidableEq

/-- The fragment that the next write of the call is given, whether it succeeds or raises. -/
def SendCall.nextFragment (c : SendCall) : Option Bytes :=
  c.chunks[c.seq]?.map (encodeFragment c.index c.seq c.chunks.length)

/-- The transport's sending side: the counter, the calls made so far and the fragments written to the link. -/
structure Sender where
  nextOutgoingIndex : Nat := 1
  calls : List SendCall := []
  wire : List Bytes := []
  deriving Repr, DecidableEq

/-- What happens next on the sending side. -/
inductive SendAct
  /-- The next command is passed to `send_command`, which takes an index and cuts the command. -/
  | start
  /-- The next write of a call succeeds. -/
  | write (call : Nat)
  /-- The next write of a call raises. -/
  | fail (call : Nat)
  deriving Repr, DecidableEq

/-- One step of the calls that send the given commands. -/
def Sender.step (fragmentPayload : Nat) (commands : PySeq (PySeq UInt8)) (s : Sender) : SendAct → Option Sender
  | .start =>
    match commands.items[s.calls.length]? with
    | none => none
    | some command =>
      let index := s.nextOutgoingIndex
      let chunks := commandChunks fragmentPayload command.items
      some { s with
        nextOutgoingIndex := s.nextOutgoingIndex + 1
        calls := s.calls ++ [{ index, command := command.items, chunks }] }
  | .write k =>
    match s.calls[k]? with
    | none => none
    | some c =>
      match c.status, c.chunks[c.seq]? with
      | .writing, some chunk =>
        let status := if c.seq + 1 = c.chunks.length then .returned c.index else .writing
        some { s with
          calls := s.calls.set k { c with seq := c.seq + 1, status }
          wire := s.wire ++ [encodeFragment c.index c.seq c.chunks.length chunk] }
      | _, _ => none
  | .fail k =>
    match s.calls[k]? with
    | none => none
    | some c =>
      match c.status with
      | .writing => some { s with calls := s.calls.set k { c with status := .raised } }
      | _ => none

/-! ### Receiving -/

/-- The pendant's documented rule (module docstring of `ble.py`): it accumulates the payload bytes by
    index, and decodes what it has once `ble_fragment_seq + 1 == num_fragments`. -/
structure PendantReceiver where
  buffers : AList (fun _ : Nat => Bytes) := ∅
  /-- The commands handed on, each with its index. -/
  decoded : List (Nat × Bytes) := []

/-- A fragment is appended to what has come under its index, and the last one completes the message. -/
def PendantReceiver.receive (r : PendantReceiver) (raw : Bytes) : PendantReceiver :=
  match decodeFragment raw with
  | .error _ => r
  | .ok frag =>
    let buffer := (r.buffers.lookup frag.index).getD [] ++ frag.payload
    { buffers := r.buffers.insert frag.index buffer
      decoded := if frag.seq + 1 = frag.numFragments then r.decoded ++ [(frag.index, buffer)] else r.decoded }

/-- What the pendant decodes from a sequence of written fragments. -/
def pendantReceive (wire : List Bytes) : List (Nat × Bytes) := (wire.foldl PendantReceiver.receive {}).decoded

/-- The dispatches of the notify handler, each with the index of its fragment. -/
def indexedDispatches : List Bytes → List NotifyOutcome → List (Nat × Bytes)
  | raw :: wire, .dispatched payload :: outcomes =>
    match decodeFragment raw with
    | .ok frag => (frag.index, payload) :: indexedDispatches wire outcomes
    | .error _ => indexedDispatches wire outcomes
  | _ :: wire, _ :: outcomes => indexedDispatches wire outcomes
  | _, _ => []

/-- What this client's own decoder and reassembly make of a sequence of written fragments. -/
def clientReceive (wire : List Bytes) : List (Nat × Bytes) := indexedDispatches wire (onNotifications ∅ wire).2

/-- The commands received under one index, in order. -/
def under (index : Nat) (received : List (Nat × Bytes)) : List Bytes :=
  (received.filter fun x => x.1 = index).map (·.2)

end PendantClient
