import PendantClient.Lib.Crc
import PendantClient.Lib.LittleEndian

/-! Ogg pages (RFC 3533) as a reader takes them. A page has a header of 27 bytes, a table of lacing values
    and the body they divide; its check is over the whole page with the check itself left zero. The packets
    of a stream are put together from the lacing values: a value under 255 ends a packet. -/

namespace OggPage

/-- `OggS`, with which a page begins. -/
def capturePattern : List UInt8 := [0x4F, 0x67, 0x67, 0x53]

/-- The polynomial of a page's checksum. -/
def polynomial : BitVec 32 := 0x04C11DB7#32

/-- The fields of a page. `lacing` is its segment table. -/
structure Page where
  headerType : Nat
  granule : Int
  serial : Nat
  sequence : Nat
  lacing : List UInt8
  body : List UInt8
  deriving Repr, DecidableEq

namespace Page

/-- The page starts with the rest of a packet of the page before. -/
def continued (p : Page) : Bool := p.headerType.testBit 0

/-- The first page of the stream. -/
def bos (p : Page) : Bool := p.headerType.testBit 1

/-- The last page of the stream. -/
def eos (p : Page) : Bool := p.headerType.testBit 2

end Page

/-! ### Reading a page -/

/-- The first `n` bytes and the rest. -/
def split (n : Nat) (data : List UInt8) : Option (List UInt8 × List UInt8) :=
  if n ≤ data.length then some (data.take n, data.drop n) else none

/-- The number of body bytes under a table of lacing values. -/
def bodyLength (lacing : List UInt8) : Nat := (lacing.map UInt8.toNat).sum

/-- The page at the front of the data, and the data behind it. -/
def readPage (data : List UInt8) : Option (Page × List UInt8) := do
  let (capture, rest) ← split 4 data
  let (version, rest) ← split 1 rest
  let (headerType, rest) ← split 1 rest
  let (granule, rest) ← split 8 rest
  let (serial, rest) ← split 4 rest
  let (sequence, rest) ← split 4 rest
  let (check, rest) ← split 4 rest
  let (segments, rest) ← split 1 rest
  let (lacing, rest) ← split (LittleEndian.value segments) rest
  let (body, rest) ← split (bodyLength lacing) rest
  let zeroed := capture ++ (version ++ (headerType ++ (granule ++ (serial ++ (sequence ++
    ([0, 0, 0, 0] ++ (segments ++ (lacing ++ body))))))))
  if capture = capturePattern ∧ version = [0] ∧
      LittleEndian.value check = (Crc.compute polynomial zeroed).toNat then
    some ({ headerType := LittleEndian.value headerType
            granule := LittleEndian.signed 64 (LittleEndian.value granule)
            serial := LittleEndian.value serial
            sequence := LittleEndian.value sequence
            lacing := lacing
            body := body }, rest)
  else none

/-- At most `fuel` pages, up to the end of the data. -/
def readPages : Nat → List UInt8 → Option (List Page)
  | 0, data => if data = [] then some [] else none
  | fuel + 1, data =>
    if data = [] then some []
    else do
      let (page, rest) ← readPage data
      let pages ← readPages fuel rest
      some (page :: pages)

/-- The pages of a file, with no bytes left over. No page is shorter than a byte. -/
def readFile (data : List UInt8) : Option (List Page) := readPages data.length data

/-! ### Packets -/

/-- The packets that end under the lacing values, and the packet that goes on after them. -/
def unlace : List UInt8 → List UInt8 → Option (List UInt8) → List (List UInt8) × Option (List UInt8)
  | [], _, carry => ([], carry)
  | v :: lacing, body, carry =>
    let packet := carry.getD [] ++ body.take v.toNat
    if v < 255 then
      let (packets, carry) := unlace lacing (body.drop v.toNat) none
      (packet :: packets, carry)
    else unlace lacing (body.drop v.toNat) (some packet)

/-- The packets of a stream, when pages say that they continue a packet just where one goes on. -/
def packets : List Page → Option (List UInt8) → Option (List (List UInt8))
  | [], none => some []
  | [], some _ => none
  | page :: pages, carry =>
    if page.continued = carry.isSome then do
      let (ended, carry) := unlace page.lacing page.body carry
      let later ← packets pages carry
      some (ended ++ later)
    else none

/-! ### Writing a page -/

namespace Page

/-- The bytes of a page with the given check. -/
def layout (p : Page) (check : List UInt8) : List UInt8 :=
  capturePattern ++ ([0] ++ (LittleEndian.bytes 1 p.headerType ++ (LittleEndian.bytes 8 p.granule.toNat ++
    (LittleEndian.bytes 4 p.serial ++ (LittleEndian.bytes 4 p.sequence ++ (check ++
      (LittleEndian.bytes 1 p.lacing.length ++ (p.lacing ++ p.body))))))))

/-- The page with its checksum, which is taken with zeros in its place. -/
def encode (p : Page) : List UInt8 :=
  p.layout (LittleEndian.bytes 4 (Crc.compute polynomial (p.layout [0, 0, 0, 0])).toNat)

/-- The page fits its format. -/
structure Fits (p : Page) : Prop where
  headerType : p.headerType < 256
  granule : 0 ≤ p.granule
  granule_lt : p.granule < 2 ^ 63
  serial : p.serial < 2 ^ 32
  sequence : p.sequence < 2 ^ 32
  lacing : p.lacing.length < 256
  body : p.body.length = bodyLength p.lacing

end Page

/-- The check is bytes 22 to 25 of the page. -/
theorem Page.layout_patch (p : Page) {z : List UInt8} (check : List UInt8) (hz : z.length = 4) :
    (p.layout z).take 22 ++ check ++ (p.layout z).drop 26 = p.layout check := by
  obtain ⟨front, back, hfront, hlayout⟩ : ∃ front back : List UInt8, front.length = 22 ∧
      ∀ c, p.layout c = front ++ (c ++ back) := by
    refine ⟨capturePattern ++ ([0] ++ (LittleEndian.bytes 1 p.headerType ++ (LittleEndian.bytes 8 p.granule.toNat ++
      (LittleEndian.bytes 4 p.serial ++ LittleEndian.bytes 4 p.sequence)))),
      LittleEndian.bytes 1 p.lacing.length ++ (p.lacing ++ p.body), ?_, ?_⟩
    · simp only [List.length_append, LittleEndian.length_bytes]
      rfl
    · intro c
      simp only [Page.layout, List.append_assoc]
  have htake : (p.layout z).take 22 = front := by
    rw [hlayout, List.take_left' hfront]
  have hdrop : (p.layout z).drop 26 = back := by
    rw [hlayout, ← List.append_assoc, List.drop_left' (by rw [List.length_append, hfront, hz])]
  rw [htake, hdrop, hlayout, List.append_assoc]

theorem split_append {n : Nat} {a rest : List UInt8} (h : a.length = n) : split n (a ++ rest) = some (a, rest) := by
  subst h
  rw [split, if_pos (by simp), List.take_left, List.drop_left]

theorem split_bind {α : Type} {n : Nat} {a rest : List UInt8} (f : List UInt8 × List UInt8 → Option α)
    (h : a.length = n) : (split n (a ++ rest) >>= f) = f (a, rest) := by
  rw [split_append h]
  rfl

/-- A page that fits its format is read back, whatever comes behind it. -/
theorem readPage_encode {p : Page} (h : p.Fits) (rest : List UInt8) : readPage (p.encode ++ rest) = some (p, rest) := by
  obtain ⟨hheader, hgranule, hgranule', hserial, hsequence, hlacing, hbody⟩ := h
  have hsigned : LittleEndian.signed 64 (LittleEndian.value (LittleEndian.bytes 8 p.granule.toNat)) = p.granule := by
    rw [LittleEndian.value_bytes (by omega), LittleEndian.signed_of_lt (by omega)]
    exact Int.toNat_of_nonneg hgranule
  have hcheck := LittleEndian.value_bytes (k := 4) (Crc.compute polynomial (p.layout [0, 0, 0, 0])).isLt
  rw [Page.encode]
  generalize hc : LittleEndian.bytes 4 (Crc.compute polynomial (p.layout [0, 0, 0, 0])).toNat = check at hcheck
  have hlen : check.length = 4 := by rw [← hc, LittleEndian.length_bytes]
  unfold readPage
  rw [Page.layout]
  simp only [List.append_assoc]
  rw [split_bind (n := 4) (a := capturePattern) _ rfl]
  dsimp only
  rw [split_bind (n := 1) (a := [0]) _ rfl]
  dsimp only
  rw [split_bind _ (LittleEndian.length_bytes 1 _)]
  dsimp only
  rw [split_bind _ (LittleEndian.length_bytes 8 _)]
  dsimp only
  rw [split_bind _ (LittleEndian.length_bytes 4 _)]
  dsimp only
  rw [split_bind _ (LittleEndian.length_bytes 4 _)]
  dsimp only
  rw [split_bind _ hlen]
  dsimp only
  rw [split_bind _ (LittleEndian.length_bytes 1 _)]
  dsimp only
  rw [split_bind _ (LittleEndian.value_bytes (k := 1) hlacing).symm, split_bind _ hbody]
  dsimp only
  rw [if_pos ⟨rfl, rfl, hcheck⟩, LittleEndian.value_bytes (k := 1) hheader, hsigned,
    LittleEndian.value_bytes (k := 4) hserial, LittleEndian.value_bytes (k := 4) hsequence]

/-! ### Whole files -/

theorem length_encode_pos (p : Page) : 0 < p.encode.length := by
  rw [Page.encode, Page.layout, List.length_append]
  exact Nat.add_pos_left (by decide) _

theorem readPages_flatMap {pages : List Page} (fits : ∀ p ∈ pages, p.Fits) : ∀ {fuel : Nat}, pages.length ≤ fuel →
    readPages fuel (pages.flatMap Page.encode) = some pages := by
  induction pages with
  | nil =>
    intro fuel _
    cases fuel <;> rfl
  | cons p pages ih =>
    intro fuel hfuel
    cases fuel with
    | zero => cases hfuel
    | succ fuel =>
      have hne : p.encode ++ pages.flatMap Page.encode ≠ [] := by
        intro h
        have := length_encode_pos p
        rw [(List.append_eq_nil_iff.mp h).1] at this
        cases this
      rw [List.flatMap_cons, readPages, if_neg hne, readPage_encode (fits p List.mem_cons_self)]
      simp only [Option.bind_eq_bind, Option.bind_some]
      rw [ih (fun q hq => fits q (List.mem_cons_of_mem p hq)) (Nat.le_of_succ_le_succ hfuel)]
      rfl

theorem readFile_flatMap {pages : List Page} (fits : ∀ p ∈ pages, p.Fits) :
    readFile (pages.flatMap Page.encode) = some pages := by
  refine readPages_flatMap fits ?_
  clear fits
  induction pages with
  | nil => exact Nat.zero_le _
  | cons p pages ih =>
    have := length_encode_pos p
    rw [List.flatMap_cons, List.length_append, List.length_cons]
    omega

theorem readFile_encode {p : Page} (h : p.Fits) : readFile p.encode = some [p] := by
  have hfits : ∀ q ∈ [p], q.Fits := fun q hq => List.mem_singleton.mp hq ▸ h
  have := readFile_flatMap hfits
  rwa [List.flatMap_singleton] at this

/-! ### One packet a page -/

/-- The lacing values of a packet of `n` bytes: full segments, then one under 255. -/
def lacingOf (n : Nat) : List UInt8 := List.replicate (n / 255) 255 ++ [UInt8.ofNat (n % 255)]

/-- The page holds one packet and nothing else. -/
structure Page.Whole (p : Page) : Prop where
  fresh : p.continued = false
  lacing : p.lacing = lacingOf p.body.length

theorem toNat_last (n : Nat) : (UInt8.ofNat (n % 255)).toNat = n % 255 := by
  rw [UInt8.toNat_ofNat']
  omega

theorem bodyLength_lacingOf (n : Nat) : bodyLength (lacingOf n) = n := by
  rw [bodyLength, lacingOf, List.map_append, List.map_replicate, List.sum_append, List.sum_replicate_nat, List.map_singleton,
    List.sum_singleton, toNat_last]
  exact Nat.div_add_mod' n 255

theorem unlace_replicate (last : UInt8) (hlast : last < 255) : ∀ (q : Nat) (body : List UInt8) (carry : Option (List UInt8)),
    body.length = 255 * q + last.toNat →
      unlace (List.replicate q 255 ++ [last]) body carry = ([carry.getD [] ++ body], none) := by
  intro q
  induction q with
  | zero =>
    intro body carry hbody
    rw [List.replicate_zero, List.nil_append, unlace, if_pos hlast, List.take_of_length_le (by omega)]
    rfl
  | succ q ih =>
    intro body carry hbody
    rw [List.replicate_succ, List.cons_append, unlace, if_neg (by decide), ih _ _ (by simp; omega)]
    simp [List.append_assoc]

theorem unlace_lacingOf (body : List UInt8) : unlace (lacingOf body.length) body none = ([body], none) := by
  refine unlace_replicate _ ?_ _ _ _ ?_
  · rw [UInt8.lt_iff_toNat_lt, toNat_last]
    exact Nat.mod_lt _ (by decide)
  · rw [toNat_last]
    exact (Nat.div_add_mod _ 255).symm

theorem packets_whole {pages : List Page} (whole : ∀ p ∈ pages, p.Whole) :
    packets pages none = some (pages.map Page.body) := by
  induction pages with
  | nil => rfl
  | cons p pages ih =>
    obtain ⟨hfresh, hlacing⟩ := whole p List.mem_cons_self
    rw [packets, hfresh, if_pos (show false = (none : Option (List UInt8)).isSome from rfl), hlacing, unlace_lacingOf]
    show (packets pages none >>= fun later => some ([p.body] ++ later)) = some (p.body :: pages.map Page.body)
    rw [ih fun q hq => whole q (List.mem_cons_of_mem p hq)]
    rfl

theorem packets_singleton {p : Page} (h : p.Whole) : packets [p] none = some [p.body] :=
  packets_whole fun _ hq => List.mem_singleton.mp hq ▸ h

end OggPage
