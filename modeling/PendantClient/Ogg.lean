import PendantClient.Lib.LittleEndian
import PendantClient.Python

/-! The Ogg Opus output (`cli.py`): the table-driven check and `OggOpusWriter`. -/

namespace PendantClient

/-! ### `struct` -/

/-- The bytes of a literal `b"..."` of ASCII characters. -/
def asciiBytes (s : String) : Bytes := s.toList.map fun c => UInt8.ofNat c.toNat

/-- `struct.pack("<B", n)`. -/
def packB (n : Nat) : Except PyError Bytes :=
  if n < 2 ^ 8 then .ok (LittleEndian.bytes 1 n) else .error (.structError "ubyte format requires 0 <= number <= 255")

/-- `struct.pack("<H", n)`. -/
def packH (n : Nat) : Except PyError Bytes :=
  if n < 2 ^ 16 then .ok (LittleEndian.bytes 2 n) else .error (.structError "ushort format requires 0 <= number <= 65535")

/-- `struct.pack("<I", n)`. -/
def packI (n : Nat) : Except PyError Bytes :=
  if n < 2 ^ 32 then .ok (LittleEndian.bytes 4 n) else .error (.structError "'I' format requires 0 <= number <= 4294967295")

/-- `struct.pack("<q", n)` of a number that is not negative. -/
def packQ (n : Nat) : Except PyError Bytes :=
  if n < 2 ^ 63 then .ok (LittleEndian.bytes 8 n) else .error (.structError "argument out of range")

/-! ### `_crc32_ogg` -/

/-- One turn of the table's inner loop: nothing masks the number. -/
def shiftStep (r : Nat) : Nat := if r &&& 0x80000000 ≠ 0 then (r <<< 1) ^^^ 0x04C11DB7 else r <<< 1

/-- An entry of the table: eight shifts of its number. -/
def tableEntry (i : Nat) : Nat := (List.range 8).foldl (fun r _ => shiftStep r) (i <<< 24) &&& 0xFFFFFFFF

/-- `_table`: the default argument is one list for all calls, filled by the first. -/
def fillTable (table : List Nat) : List Nat :=
  if table.isEmpty then table ++ (List.range 256).map tableEntry else table

/-- The table that all calls use. -/
def crcTable : List Nat := fillTable []

/-- The check after one more byte. -/
def crcByte (table : List Nat) (crc : Nat) (b : UInt8) : Nat :=
  ((crc <<< 8) &&& 0xFFFFFFFF) ^^^ table.getD (((crc >>> 24) ^^^ b.toNat) &&& 0xFF) 0

/-- `_crc32_ogg`. -/
def crc32Ogg (data : Bytes) : Nat := data.foldl (crcByte crcTable) 0 &&& 0xFFFFFFFF

/-- Calls one after the other: each uses the table as the calls before it have left it. -/
def crc32OggCalls (table : List Nat) : List Bytes → List Nat
  | [] => []
  | data :: calls =>
    let table := fillTable table
    (data.foldl (crcByte table) 0 &&& 0xFFFFFFFF) :: crc32OggCalls table calls

/-! ### `OggOpusWriter` -/

/-- `OggS`. -/
def oggCapturePattern : Bytes := asciiBytes "OggS"

/-- An `OggOpusWriter` and its file. -/
structure OggOpusWriter where
  /-- What has been written to `_fp`. -/
  written : Bytes := []
  closed : Bool := false
  serial : Nat
  pageSeq : Nat := 0
  granule : Nat := 0
  deriving Repr, DecidableEq

namespace OggOpusWriter

/-- `SAMPLE_RATE`. -/
def sampleRate : Nat := 16000

/-- `SAMPLES_PER_FRAME`. -/
def samplesPerFrame : Nat := 960

/-- The loop of `_write_page` that fills the segment table of a packet of `n` bytes. -/
def segs (n : Nat) : List Nat := if 255 ≤ n then 255 :: segs (n - 255) else [n]
termination_by n

/-- `_fp.write`. -/
def write (w : OggOpusWriter) (data : Bytes) : Except PyError OggOpusWriter :=
  if w.closed then .error (.valueError "write to closed file") else .ok { w with written := w.written ++ data }

/-- `_write_page`: a page with one packet. -/
def writePage (w : OggOpusWriter) (packet : Bytes) (isFirst isLast : Bool) (granule : Nat) :
    Except PyError OggOpusWriter := do
  let segs := segs packet.length
  let headerType := (if isFirst then 0x02 else 0) ||| (if isLast then 0x04 else 0)
  let headerType ← packB headerType
  let granule ← packQ granule
  let serial ← packI w.serial
  let pageSeq ← packI w.pageSeq
  let placeholder ← packI 0
  let count ← packB segs.length
  let head := oggCapturePattern ++ [0] ++ headerType ++ granule ++ serial ++ pageSeq ++ placeholder ++ count ++
    segs.map UInt8.ofNat
  let body := head ++ packet
  let crc ← packI (crc32Ogg body)
  let w ← w.write (body.take 22 ++ crc ++ body.drop 26)
  .ok { w with pageSeq := w.pageSeq + 1 }

/-- The identification header. -/
def opusHead : Except PyError Bytes := do
  let preSkip ← packH 0
  let rate ← packI sampleRate
  -- `struct.pack("<h", 0)`
  let gain ← packH 0
  .ok (asciiBytes "OpusHead" ++ [1] ++ [1] ++ preSkip ++ rate ++ gain ++ [0])

/-- The comment header: the vendor and no comments. -/
def opusTags : Except PyError Bytes := do
  let vendor := asciiBytes "limitless-pendant-client"
  let length ← packI vendor.length
  let comments ← packI 0
  .ok (asciiBytes "OpusTags" ++ length ++ vendor ++ comments)

/-- `_write_headers`: the two pages with which a stream begins. -/
def writeHeaders (w : OggOpusWriter) : Except PyError OggOpusWriter := do
  let head ← opusHead
  let w ← w.writePage head true false 0
  let tags ← opusTags
  w.writePage tags false false 0

/-- `__init__`, with the four bytes that `os.urandom(4)` gave. -/
def init (urandom : Fin 4 → UInt8) : Except PyError OggOpusWriter :=
  writeHeaders { serial := LittleEndian.value (List.ofFn urandom) ||| 1 }

/-- `add_packet`. The granule position has moved when writing the page raises. -/
def addPacket (w : OggOpusWriter) (packet : Bytes) : OggOpusWriter × Option PyError :=
  if packet.isEmpty then (w, none)
  else
    let w := { w with granule := w.granule + samplesPerFrame }
    match w.writePage packet false false w.granule with
    | .ok w => (w, none)
    | .error e => (w, some e)

/-- `close`, which swallows what its calls raise. -/
def close (w : OggOpusWriter) : OggOpusWriter :=
  match if 0 < w.granule then w.writePage [] false true w.granule else .ok w with
  | .ok w => { w with closed := true }
  | .error _ => w

/-- Packets added one after another, when every call returns normally. -/
def addPackets (w : OggOpusWriter) : List Bytes → Option OggOpusWriter
  | [] => some w
  | packet :: packets =>
    match w.addPacket packet with
    | (w, none) => addPackets w packets
    | (_, some _) => none

end OggOpusWriter

end PendantClient
