import Mathlib.Tactic.NormNum
import PendantClient.Theorems.Sending

/-! The size of what is written to the link. Beside its payload a fragment has four tags and four varints; the more
    bytes its numbers take, the shorter its payload, so a margin of 30 bytes below the MTU is just enough. -/

namespace PendantClient
open Transition

/-! ### The wrapper -/

section
variable {p : Nat} {command : Bytes}

theorem length_chunk_le_payload {chunk : Bytes} (h : chunk ∈ commandChunks p command) : chunk.length ≤ p := by
  unfold commandChunks at h
  dsimp only at h
  split at h
  · rw [List.mem_singleton.mp h]
    exact Nat.zero_le p
  · obtain ⟨i, -, rfl⟩ := List.mem_map.mp h
    rw [slice_add]
    exact List.length_take_le ..

/-- All chunks but the last are full. -/
theorem commandChunks_before_last (hp : 0 < p) : ((commandChunks p command).length - 1) * p < max 1 command.length := by
  unfold commandChunks
  dsimp only
  split
  · simp
  · rw [List.length_map, rangeStep, List.length_map, List.length_range]
    have hle := Nat.div_mul_le_self (max 1 command.length + p - 1) p
    rw [Nat.sub_mul]
    omega

theorem length_encodeFragment (index seq numFrags : Nat) (payload : Bytes) :
    (encodeFragment index seq numFrags payload).length = 4 + (varintEncode index).length + ((varintEncode seq).length +
      (varintEncode numFrags).length + (varintEncode payload.length).length) + payload.length := by
  unfold encodeFragment
  simp only [List.length_append, List.length_singleton]
  omega

/-- Three numbers of a fragment: with a payload of 150 bytes or more they take at most 18 bytes together. -/
theorem length_numbers_le {seq numFrags length : Nat} (hseq : seq < numFrags) (hp : 150 ≤ p) (hlength : length ≤ p)
    (hmax : length ≤ maxsize) (hfull : (numFrags - 1) * p < maxsize) :
    (varintEncode seq).length + (varintEncode numFrags).length + (varintEncode length).length ≤ 18 := by
  unfold varintEncode maxsize at *
  have hsize : (2 : Nat) ^ 63 - 1 = 128 ^ 9 - 1 := by norm_num
  rw [hsize] at hmax hfull
  generalize hs : (Leb128.encode seq).length = s
  generalize ha : (Leb128.encode numFrags).length = a
  generalize hb : (Leb128.encode length).length = b
  have hsa : s ≤ a := hs ▸ ha ▸ Leb128.length_encode_mono (Nat.le_of_lt hseq)
  have ha8 : a ≤ 8 := by
    have : (numFrags - 1) * 150 ≤ (numFrags - 1) * p := Nat.mul_le_mul_left _ hp
    exact ha ▸ Leb128.length_encode_le (by decide) (by omega)
  have hb9 : b ≤ 9 := hb ▸ Leb128.length_encode_le (by decide) (by omega)
  have hproduct {x y : Nat} (hx : 128 ^ x ≤ numFrags - 1) (hy : 128 ^ y ≤ p) : x + y < 9 := by
    have := Nat.mul_le_mul hx hy
    rw [← Nat.pow_add] at this
    exact (Nat.pow_lt_pow_iff_right (by decide)).mp (show 128 ^ (x + y) < 128 ^ 9 by omega)
  rcases Nat.lt_or_ge b 2 with hb1 | hb2
  · omega
  · have hy : 128 ^ (b - 1) ≤ p := Nat.le_trans (Leb128.pow_le_of_lt_length (by omega) (by omega)) hlength
    rcases Nat.lt_or_ge a 2 with ha1 | ha2
    · omega
    · rcases Nat.lt_or_ge s a with hlt | hge
      · -- the count has a byte more than the number
        have hcount : 128 ^ (a - 1) ≤ numFrags := Leb128.pow_le_of_lt_length (by omega) (by omega)
        have hstep : 128 ^ (a - 2) < 128 ^ (a - 1) := Nat.pow_lt_pow_right (by decide) (by omega)
        have := hproduct (show 128 ^ (a - 2) ≤ numFrags - 1 by omega) hy
        omega
      · have hnumber : 128 ^ (s - 1) ≤ seq := Leb128.pow_le_of_lt_length (by omega) (by omega)
        have := hproduct (show 128 ^ (s - 1) ≤ numFrags - 1 by omega) hy
        omega

/-- A fragment of a command has at most 27 bytes beside its payload. -/
theorem length_fragment_le {index seq : Nat} {chunk : Bytes} (hp : 150 ≤ p) (hcommand : command.length ≤ maxsize)
    (hindex : index < 2 ^ 32) (hchunk : (commandChunks p command)[seq]? = some chunk) :
    (encodeFragment index seq (commandChunks p command).length chunk).length ≤ p + 27 := by
  obtain ⟨hseq, -⟩ := List.getElem?_eq_some_iff.mp hchunk
  have hmem := List.mem_of_getElem? hchunk
  have hlength := length_chunk_le_payload hmem
  have hwhole := length_chunk_le (by omega) hmem
  have hfull : ((commandChunks p command).length - 1) * p < max 1 command.length := commandChunks_before_last (by omega)
  have hindexLength : (varintEncode index).length ≤ 5 := Leb128.length_encode_le (by decide) (by omega)
  have hnumbers := length_numbers_le hseq hp hlength (by omega) (Nat.lt_of_lt_of_le hfull ?_)
  · rw [length_encodeFragment]
    omega
  · unfold maxsize at *
    omega

end

/-! ### The MTU -/

theorem settledPayload_some {m : Int} (h : 7 < m) :
    150 ≤ settledPayload (some m) ∧ ((settledPayload (some m) + 27 : Nat) : Int) = max m 180 - 3 := by
  rw [settledPayload, if_pos h]
  omega

/-- What a write puts on the wire is the call's next fragment. -/
theorem Sender.step_write {p k : Nat} {commands : PySeq (PySeq UInt8)} {s t : Sender} {c : SendCall} (hc : s.calls[k]? = some c)
    (h : Sender.step p commands s (.write k) = some t) : ∃ raw, c.nextFragment = some raw ∧ t.wire = s.wire ++ [raw] := by
  simp only [Sender.step, hc] at h
  split at h
  · rename_i chunk _ hchunk
    cases h
    exact ⟨_, by rw [SendCall.nextFragment, hchunk, Option.map_some], rfl⟩
  · cases h

/-- With an MTU over 7 no write is given a fragment over the MTU less 3 bytes, or over 177 bytes if the MTU is under 180. -/
theorem fragments_fit_link (read reread : Option Int) (m : Int) (hm : settledMtu read reread = some m) (hmtu : 7 < m)
    (commands : PySeq (PySeq UInt8)) (acts : List SendAct) (s : Sender)
    (hrun : run (Sender.step (settledPayload (settledMtu read reread)) commands) {} acts = some s) (k : Nat) (c : SendCall)
    (hc : s.calls[k]? = some c) (hindex : c.index < 2 ^ 32) :
    (∀ raw, c.nextFragment = some raw → (raw.length : Int) ≤ max m 180 - 3) ∧
    ∀ t, Sender.step (settledPayload (settledMtu read reread)) commands s (.write k) = some t →
      ∃ raw, c.nextFragment = some raw ∧ t.wire = s.wire ++ [raw] := by
  rw [hm] at hrun
  obtain ⟨hp, hlimit⟩ := settledPayload_some hmtu
  obtain ⟨arrivals, hinv⟩ := Sender.Inv.run (by omega) hrun
  refine ⟨fun raw hraw => ?_, fun t => Sender.step_write hc⟩
  have hok := hinv.calls k c hc
  obtain ⟨x, -, hcommand⟩ := hok.command
  obtain ⟨chunk, hchunk, rfl⟩ := Option.map_eq_some_iff.mp hraw
  rw [hok.chunks] at hchunk ⊢
  have := length_fragment_le hp (hcommand ▸ x.bounded) hindex hchunk
  omega

/-- A command of 200 bytes. -/
def longCommand : PySeq (PySeq UInt8) := ⟨[⟨List.replicate 200 7, List.length_replicate.trans_le (by decide)⟩], by decide⟩

/-- The client settles on an MTU of 247 after the pause: the command goes in one fragment. -/
theorem fragments_fit_link_sample : ∃ s c, run (Sender.step (settledPayload (settledMtu (some 23) (some 247))) longCommand) {}
    [.start] = some s ∧ s.calls[0]? = some c ∧ ∀ raw, c.nextFragment = some raw → (raw.length : Int) ≤ max 247 180 - 3 := by
  obtain ⟨s, hrun⟩ := Option.isSome_iff_exists.mp
    (show (run (Sender.step (settledPayload (settledMtu (some 23) (some 247))) longCommand) {} [.start]).isSome by decide)
  obtain ⟨c, hc, hindex⟩ : ∃ c, s.calls[0]? = some c ∧ c.index = 1 := by
    cases hrun
    exact ⟨_, rfl, rfl⟩
  exact ⟨s, c, hrun, hc, (fragments_fit_link (some 23) (some 247) 247 (by decide) (by decide) longCommand _ s hrun 0 c hc
    (by rw [hindex]; decide)).1⟩

/-- With an MTU of 23 a fragment of 159 bytes is written. -/
theorem floor_exceeds_link : settledMtu (some 23) none = some 23 ∧
    (run (Sender.step (settledPayload (some 23)) longCommand) {} [.start, .write 0]).map
      (fun s => (s.calls.map (·.index), s.wire.map List.length)) = some ([1], [159]) ∧
    ¬((159 : Int) ≤ 23 - 3) := by
  refine ⟨by decide, by decide +kernel, by decide⟩

end PendantClient
