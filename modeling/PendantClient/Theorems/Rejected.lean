import PendantClient.Theorems.Ogg

/-! A packet of more than 255 segments is refused by `add_packet`, but not without a trace: the granule position has moved,
    and every page written afterwards has it in its header. -/

namespace PendantClient
namespace OggOpusWriter

/-- The call of `add_packet` is as if it had not been made: the writer is as before, and so is the file when the writer
    is closed after any packets that are accepted. -/
structure LeavesNoTrace (w : OggOpusWriter) (packet : Bytes) : Prop where
  state : (w.addPacket packet).1 = w
  file : ∀ more w₁ w₂, w.addPackets more = some w₁ → (w.addPacket packet).1.addPackets more = some w₂ →
    w₂.close.written = w₁.close.written

/-- A page can be written: the file is open, and none of the numbers on it is out of range. -/
def TakesPage (w : OggOpusWriter) : Prop := w.closed = false ∧ w.serial < 2 ^ 32 ∧ w.pageSeq < 2 ^ 32 ∧ w.granule < 2 ^ 63

/-- The writer, its granule position one packet further. -/
def moved (w : OggOpusWriter) : OggOpusWriter := { w with granule := w.granule + samplesPerFrame }

section
variable {w w' : OggOpusWriter} {packet : Bytes}

/-- A packet that does not fit in one page raises, when the granule position has moved. -/
theorem addPacket_long (w : OggOpusWriter) (hlong : 255 * 255 ≤ packet.length) :
    ∃ e, w.addPacket packet = (w.moved, some e) := by
  have hne : ¬packet.isEmpty = true := by
    rw [List.isEmpty_iff_length_eq_zero]
    omega
  rw [addPacket, if_neg hne]
  dsimp only
  split
  · rename_i w' hpage
    obtain ⟨-, -, -, -, hcount, -⟩ := writePage_eq_ok.mp hpage
    omega
  · exact ⟨_, rfl⟩

theorem moved_ne (w : OggOpusWriter) : w.moved ≠ w := by
  intro h
  have : w.granule + samplesPerFrame = w.granule := congrArg granule h
  rw [samplesPerFrame] at this
  omega

/-! ### Pages tell their granule position -/

/-- Two files that go on with pages of one writer agree only if the pages have the same granule position. -/
theorem granule_of_encode {e e' : Entry} {serial sequence : Nat} {before rest rest' : Bytes} (h : (e.page serial sequence).Fits)
    (h' : (e'.page serial sequence).Fits)
    (heq : before ++ (e.page serial sequence).encode ++ rest = before ++ (e'.page serial sequence).encode ++ rest') :
    e.granule = e'.granule := by
  rw [List.append_assoc, List.append_assoc] at heq
  have hread := OggPage.readPage_encode h rest
  rw [List.append_cancel_left heq, OggPage.readPage_encode h' rest'] at hread
  have hpage := congrArg OggPage.Page.granule (Prod.mk.inj (Option.some_inj.mp hread)).1
  exact (Int.ofNat_inj.mp hpage).symm

theorem addPacket_written (hne : ¬packet.isEmpty = true) (h : w.addPacket packet = (w', none)) :
    let e : Entry := ⟨headerType false false, w.granule + samplesPerFrame, packet⟩
    (e.page w.serial w.pageSeq).Fits ∧ w'.written = w.written ++ (e.page w.serial w.pageSeq).encode := by
  rw [addPacket, if_neg hne] at h
  dsimp only at h
  split at h
  · rename_i w₁ hpage
    obtain ⟨-, hgranule, hserial, hseq, hcount, rfl⟩ := writePage_eq_ok.mp hpage
    cases h
    exact ⟨Entry.fits (headerType_lt false false) hgranule hserial hseq hcount, rfl⟩
  · cases h

/-- The last page of a writer that has something to end. -/
theorem close_written_of (hpos : 0 < w.granule) (htakes : w.TakesPage) :
    let e : Entry := ⟨headerType false true, w.granule, []⟩
    (e.page w.serial w.pageSeq).Fits ∧ w.close.written = w.written ++ (e.page w.serial w.pageSeq).encode := by
  obtain ⟨hopen, hserial, hseq, hgranule⟩ := htakes
  have hpage : w.writePage [] false true w.granule = .ok _ :=
    writePage_eq_ok.mpr ⟨hopen, hgranule, hserial, hseq, show 0 / 255 + 1 < 2 ^ 8 by decide, rfl⟩
  refine ⟨Entry.fits (headerType_lt false true) hgranule hserial hseq (show 0 / 255 + 1 < 2 ^ 8 by decide), ?_⟩
  rw [close, if_pos hpos, hpage]
  rfl

theorem close_written_of_not (h : ¬(0 < w.granule ∧ w.TakesPage)) : w.close.written = w.written := by
  rw [close]
  split
  · rename_i w' hpage
    split at hpage
    · rename_i hpos
      obtain ⟨hopen, hgranule, hserial, hseq, -, -⟩ := writePage_eq_ok.mp hpage
      exact absurd ⟨hpos, hopen, hserial, hseq, hgranule⟩ h
    · cases hpage
      rfl
  · rfl

/-! ### Files only grow -/

theorem addPacket_grows (w : OggOpusWriter) (packet : Bytes) : w.written <+: (w.addPacket packet).1.written := by
  rw [addPacket]
  split
  · exact List.prefix_rfl
  · dsimp only
    split
    · rename_i w' hpage
      obtain ⟨-, -, -, -, -, rfl⟩ := writePage_eq_ok.mp hpage
      exact List.prefix_append _ _
    · exact List.prefix_rfl

theorem addPackets_grows {packets : List Bytes} : ∀ {w : OggOpusWriter}, w.addPackets packets = some w' →
    w.written <+: w'.written := by
  induction packets with
  | nil =>
    intro w h
    cases h
    exact List.prefix_rfl
  | cons packet packets ih =>
    intro w h
    rw [addPackets] at h
    split at h
    · rename_i w₁ hadd
      have hone := addPacket_grows w packet
      rw [hadd] at hone
      exact hone.trans (ih h)
    · cases h

theorem close_grows (w : OggOpusWriter) : w.written <+: w.close.written := by
  by_cases h : 0 < w.granule ∧ w.TakesPage
  · rw [(close_written_of h.1 h.2).2]
    exact List.prefix_append _ _
  · rw [close_written_of_not h]

theorem addPackets_cons_eq_some {packets : List Bytes} (h : w.addPackets (packet :: packets) = some w') :
    ∃ w₁, w.addPacket packet = (w₁, none) ∧ w₁.addPackets packets = some w' := by
  rw [addPackets] at h
  split at h
  · exact ⟨_, ‹_›, h⟩
  · cases h

theorem append_encode_ne (before : Bytes) (p : OggPage.Page) : before ++ p.encode ≠ before := by
  intro h
  have hlength := congrArg List.length h
  have := OggPage.length_encode_pos p
  rw [List.length_append] at hlength
  omega

/-- Closed at once, the file is the same exactly when the last page cannot be written. -/
theorem close_moved_iff {w : OggOpusWriter} : w.moved.close.written = w.close.written ↔ ¬w.TakesPage := by
  have hpos : 0 < w.moved.granule := Nat.add_pos_right _ (by decide)
  by_cases htakes : w.TakesPage
  · refine iff_of_false (fun heq => ?_) fun h => h htakes
    by_cases hsome : 0 < w.granule
    · obtain ⟨hfits, hlast⟩ := close_written_of hsome htakes
      rw [hlast] at heq
      by_cases hmoved : w.moved.TakesPage
      · obtain ⟨hfits', hlast'⟩ := close_written_of hpos hmoved
        rw [hlast', ← List.append_nil (_ ++ _), ← List.append_nil (w.written ++ _)] at heq
        have : w.granule + samplesPerFrame = w.granule := granule_of_encode hfits' hfits heq
        rw [samplesPerFrame] at this
        omega
      · rw [close_written_of_not fun h => hmoved h.2] at heq
        exact append_encode_ne _ _ heq.symm
    · -- without the refused packet there is no last page
      rw [close_written_of_not fun h => hsome h.1] at heq
      have hmoved : w.moved.TakesPage := by
        refine ⟨htakes.1, htakes.2.1, htakes.2.2.1, ?_⟩
        show w.granule + samplesPerFrame < 2 ^ 63
        rw [samplesPerFrame]
        omega
      rw [(close_written_of hpos hmoved).2] at heq
      exact append_encode_ne _ _ heq
  · have hmoved : ¬w.moved.TakesPage := by
      rintro ⟨hopen, hserial, hseq, hgranule⟩
      exact htakes ⟨hopen, hserial, hseq, Nat.lt_of_le_of_lt (Nat.le_add_right _ _) hgranule⟩
    rw [close_written_of_not fun h => htakes h.2, close_written_of_not fun h => hmoved h.2]
    exact iff_of_true rfl htakes

/-- A refused packet shows in the file as soon as another page is written. -/
theorem closed_file_iff {more : List Bytes} : ∀ {w w₁ w₂ : OggOpusWriter}, w.addPackets more = some w₁ →
    w.moved.addPackets more = some w₂ →
    (w₂.close.written = w₁.close.written ↔ nonEmpty more = [] ∧ ¬w.TakesPage) := by
  induction more with
  | nil =>
    intro w w₁ w₂ h₁ h₂
    cases h₁
    cases h₂
    rw [close_moved_iff]
    exact (and_iff_right rfl).symm
  | cons packet more ih =>
    intro w w₁ w₂ h₁ h₂
    obtain ⟨v₁, hadd₁, h₁⟩ := addPackets_cons_eq_some h₁
    obtain ⟨v₂, hadd₂, h₂⟩ := addPackets_cons_eq_some h₂
    by_cases hempty : packet.isEmpty = true
    · rw [addPacket, if_pos hempty] at hadd₁ hadd₂
      cases hadd₁
      cases hadd₂
      rw [nonEmpty, List.filter_cons_of_neg (by simp [hempty])]
      exact ih h₁ h₂
    · refine iff_of_false (fun heq => ?_) fun h => ?_
      · obtain ⟨hfits₁, hwritten₁⟩ := addPacket_written hempty hadd₁
        obtain ⟨hfits₂, hwritten₂⟩ := addPacket_written hempty hadd₂
        obtain ⟨rest₁, hrest₁⟩ := (addPackets_grows h₁).trans (close_grows w₁)
        obtain ⟨rest₂, hrest₂⟩ := (addPackets_grows h₂).trans (close_grows w₂)
        rw [← hrest₁, ← hrest₂, hwritten₁, hwritten₂] at heq
        have : w.granule + samplesPerFrame + samplesPerFrame = w.granule + samplesPerFrame :=
          granule_of_encode hfits₂ hfits₁ heq
        rw [samplesPerFrame] at this
        omega
      · rw [nonEmpty, List.filter_cons_of_pos (by simp [hempty])] at h
        exact List.cons_ne_nil _ _ h.1

end

/-- A packet of 65025 bytes or more raises in every state and leaves its trace: the state is never as before, and no file
    is, however many packets are accepted before it is closed, unless nothing can be written any more. -/
theorem rejected_leaves_trace (w : OggOpusWriter) (packet : Bytes) (hlong : 255 * 255 ≤ packet.length) :
    (w.addPacket packet).2.isSome ∧ ¬LeavesNoTrace w packet ∧
    ∀ more w₁ w₂, w.addPackets more = some w₁ → (w.addPacket packet).1.addPackets more = some w₂ →
      (w₂.close.written = w₁.close.written ↔ nonEmpty more = [] ∧ ¬w.TakesPage) := by
  obtain ⟨e, hadd⟩ := addPacket_long w hlong
  refine ⟨by rw [hadd]; rfl, fun h => ?_, fun more w₁ w₂ h₁ h₂ => ?_⟩
  · have hstate := h.state
    rw [hadd] at hstate
    exact moved_ne w hstate
  · rw [hadd] at h₂
    exact closed_file_iff h₁ h₂

/-- The shortest packet that does not fit in a page. -/
def longPacket : Bytes := List.replicate (255 * 255) 0

theorem length_longPacket : 255 * 255 ≤ longPacket.length := by
  rw [longPacket, List.length_replicate]

theorem rejected_leaves_trace_sample : ∃ w, init (fun _ => 7) = .ok w ∧ (w.addPacket longPacket).2.isSome ∧
    ¬LeavesNoTrace w longPacket ∧
    ∀ more w₁ w₂, w.addPackets more = some w₁ → (w.addPacket longPacket).1.addPackets more = some w₂ →
      (w₂.close.written = w₁.close.written ↔ nonEmpty more = [] ∧ ¬w.TakesPage) := by
  obtain ⟨w, _, _, hinit, -⟩ := init_recording fun _ => 7
  exact ⟨w, hinit, rejected_leaves_trace w longPacket length_longPacket⟩

/-- The granule position at the end of a file. -/
def lastGranule (file : Bytes) : Option Int := (OggPage.readFile file).bind fun pages => pages.getLast?.map OggPage.Page.granule

/-- One packet is accepted, the next refused: closed then, the file of one packet ends at sample 1920. -/
theorem refused_packet_is_counted : ∃ w v, init (fun _ => 7) = .ok w ∧ w.addPacket [0xB8] = (v, none) ∧
    (v.addPacket longPacket).1 ≠ v ∧ lastGranule v.close.written = some 960 ∧
    lastGranule (v.addPacket longPacket).1.close.written = some 1920 := by
  have hvalue : (init fun _ => 7).toOption.map (fun w =>
      let v := (w.addPacket [0xB8]).1
      ((w.addPacket [0xB8]).2, lastGranule v.close.written, lastGranule v.moved.close.written)) =
        some (none, some 960, some 1920) := by decide +kernel
  obtain ⟨w, hinit, hvalue⟩ := Option.map_eq_some_iff.mp hvalue
  generalize hadd : w.addPacket [0xB8] = added at hvalue
  obtain ⟨v, raised⟩ := added
  obtain ⟨rfl, hgranules⟩ := Prod.mk.inj hvalue
  obtain ⟨hlast, hmoved⟩ := Prod.mk.inj hgranules
  obtain ⟨e, hrefused⟩ := addPacket_long v length_longPacket
  refine ⟨w, v, toOption_eq_some.mp hinit, hadd, ?_, hlast, ?_⟩
  · rw [hrefused]
    exact moved_ne _
  · rw [hrefused]
    exact hmoved

end OggOpusWriter
end PendantClient
