import Mathlib.Data.List.AList
import PendantClient.Lib.Varint
import PendantClient.Lib.Cursor
import PendantClient.Python

/-! The BLE transport (`ble.py`): the fragment wrapper, reassembly of incoming messages and the
    fragmentation of outgoing commands. -/

namespace PendantClient

/-! ### The fragment wrapper -/

/-- `_varint_encode`. -/
def varintEncode (value : Nat) : Bytes := Leb128.encode value

/-- The `ValueError` of the two varint decoders. -/
def varintError : Leb128.Error → PyError
  | .truncated => .valueError "truncated varint"
  | .tooLong => .valueError "varint too long"

/-- `_varint_decode`: the value at `pos` and the position after it. -/
def varintDecode (data : Bytes) (pos : Nat) : Except PyError (Nat × Nat) :=
  (Leb128.decodeFrom (some 63) (data.drop pos) 0 0 pos).mapError varintError

/-- `encode_fragment`. -/
def encodeFragment (index seq numFrags : Nat) (payload : Bytes) : Bytes :=
  -- field 1 (index, varint)
  [0x08] ++ varintEncode index
  -- field 2 (ble_fragment_seq, varint)
  ++ [0x10] ++ varintEncode seq
  -- field 3 (num_fragments, varint)
  ++ [0x18] ++ varintEncode numFrags
  -- field 4 (payload, length-delimited bytes)
  ++ [0x22] ++ varintEncode payload.length ++ payload

/-- What `decode_fragment` reads of a notification. -/
structure IncomingFragment where
  index : Nat := 0
  seq : Nat := 0
  numFragments : Nat := 0
  payload : Bytes := []
  deriving Repr, DecidableEq

/-- The body of the loop of `decode_fragment`: one tag and its field. -/
def decodeField (data : Bytes) (pos : Nat) (frag : IncomingFragment) : Except PyError (Nat × IncomingFragment) := do
  let (tag, pos) ← varintDecode data pos
  let wireType := tag &&& 0x07
  let fieldNum := tag >>> 3
  if wireType = 0 then
    let (v, pos) ← varintDecode data pos
    if fieldNum = 1 then .ok (pos, { frag with index := v })
    else if fieldNum = 2 then .ok (pos, { frag with seq := v })
    else if fieldNum = 3 then .ok (pos, { frag with numFragments := v })
    else .ok (pos, frag)
  else if wireType = 2 then
    let (length, pos) ← varintDecode data pos
    let buf := slice data pos (pos + length)
    if fieldNum = 4 then .ok (pos + length, { frag with payload := buf })
    else .ok (pos + length, frag)
  else .error (.valueError s!"unexpected wire-type {wireType} for field {fieldNum}")

theorem varintDecode_pos {data : Bytes} {pos v pos' : Nat} (h : varintDecode data pos = .ok (v, pos')) : pos < pos' := by
  unfold varintDecode at h
  cases hd : Leb128.decodeFrom (some 63) (data.drop pos) 0 0 pos with
  | error e =>
    rw [hd] at h
    cases h
  | ok x =>
    rw [hd] at h
    cases h
    exact Leb128.decodeFrom_pos hd

theorem decodeField_pos {data : Bytes} {pos pos' : Nat} {frag frag' : IncomingFragment}
    (h : decodeField data pos frag = .ok (pos', frag')) : pos < pos' := by
  unfold decodeField at h
  obtain ⟨⟨tag, p⟩, htag, h⟩ := bind_eq_ok.mp h
  have := varintDecode_pos htag
  dsimp only at h
  split at h
  · obtain ⟨⟨v, p'⟩, hv, h⟩ := bind_eq_ok.mp h
    have := varintDecode_pos hv
    dsimp only at h
    repeat' split at h
    all_goals
      cases h
      omega
  · split at h
    · obtain ⟨⟨n, p'⟩, hn, h⟩ := bind_eq_ok.mp h
      have := varintDecode_pos hn
      dsimp only at h
      split at h <;>
      · cases h
        omega
    · cases h

/-- The fields of a fragment wrapper, read one after the other. -/
def fragmentReader (data : Bytes) : Reader IncomingFragment PyError where
  step := decodeField data
  advances := decodeField_pos

/-- `decode_fragment`. -/
def decodeFragment (data : Bytes) : Except PyError IncomingFragment :=
  match (fragmentReader data).scan data.length 0 {} with
  | (frag, none) => .ok frag
  | (_, some e) => .error e

example : decodeFragment (encodeFragment 12345 2 5 [0xAA, 0xBB]) = .ok ⟨12345, 2, 5, [0xAA, 0xBB]⟩ := by decide +kernel

/-! ### Reassembly -/

/-- `_Reassembly`: the fragments of one message received so far. -/
structure Reassembly where
  expectedFragments : Nat := 0
  received : AList (fun _ : Nat => Bytes) := ∅
  deriving DecidableEq

/-- `b"".join(received[i] for i in keys)`; a missing key raises `KeyError`. -/
def joinReceived (received : AList (fun _ : Nat => Bytes)) : List Nat → Except PyError Bytes
  | [] => .ok []
  | i :: rest => do
    match received.lookup i with
    | none => .error (.keyError i)
    | some payload => .ok (payload ++ (← joinReceived received rest))

/-- `_Reassembly.add`: the record after the call, and the message (`none` while incomplete) or the
    exception of the join. -/
def Reassembly.add (r : Reassembly) (frag : IncomingFragment) : Reassembly × Except PyError (Option Bytes) :=
  let expected := if frag.numFragments ≠ 0 ∧ r.expectedFragments = 0 then frag.numFragments else r.expectedFragments
  let received := r.received.insert frag.seq frag.payload
  let r : Reassembly := ⟨expected, received⟩
  if expected ≠ 0 ∧ expected ≤ received.keys.length then
    (r, (joinReceived received (List.range expected)).map some)
  else (r, .ok none)

/-- `PendantTransport._reassembly`: the messages of which something arrived, by index. -/
abbrev ReassemblyTable := AList (fun _ : Nat => Reassembly)

/-- What one notification leads to. -/
inductive NotifyOutcome
  /-- The bytes are not a fragment: logged and dropped. -/
  | undecodable (e : PyError)
  /-- Stored; the message is not complete. -/
  | stored
  /-- The message is handed to the subscribers. -/
  | dispatched (payload : Bytes)
  /-- `add` raised, outside the handler's `try`. -/
  | raised (e : PyError)
  deriving Repr, DecidableEq

/-- `_on_data`: decode, add to the record under the fragment's index (created when missing), and when
    the message is complete pop the record and dispatch. No `await` stands between the steps. -/
def onData (table : ReassemblyTable) (raw : Bytes) : ReassemblyTable × NotifyOutcome :=
  match decodeFragment raw with
  | .error e => (table, .undecodable e)
  | .ok frag =>
    let (r, result) := ((table.lookup frag.index).getD {}).add frag
    let table := table.insert frag.index r
    match result with
    | .error e => (table, .raised e)
    | .ok none => (table, .stored)
    | .ok (some full) => (table.erase frag.index, .dispatched full)

/-- The handler on a sequence of notifications, with the outcome of each. -/
def onNotifications (table : ReassemblyTable) : List Bytes → ReassemblyTable × List NotifyOutcome
  | [] => (table, [])
  | raw :: rest =>
    let (table, outcome) := onData table raw
    let (table, outcomes) := onNotifications table rest
    (table, outcome :: outcomes)

end PendantClient
