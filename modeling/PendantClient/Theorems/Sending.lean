import Mathlib.Data.List.Dedup
import PendantClient.Lib.Pointwise
import PendantClient.Send
import PendantClient.Theorems.Reassembly

/-! Outgoing commands. However the writes of the calls interleave and whichever calls are cut short, the
    fragments of one call reach the wire in order and under an index of their own; a receiver that appends
    by index and one that collects by fragment number both get the fully written commands, each once. -/

namespace PendantClient
open Transition

/-! ### Chunks -/

section Chunks
variable {p : Nat} {command : Bytes}

theorem chunks_flatten_take (p : Nat) (command : Bytes) (n : Nat) :
    (((List.range n).map (· * p)).map fun i => slice command i (i + p)).flatten = command.take (n * p) := by
  induction n with
  | zero => simp
  | succ n ih =>
    rw [List.range_succ, List.map_append, List.map_append, List.flatten_append, ih, Nat.succ_mul, List.take_add]
    simp [slice_add]

theorem rangeStep_count (hp : 0 < p) (stop : Nat) :
    stop ≤ (stop + p - 1) / p * p ∧ (stop + p - 1) / p ≤ stop := by
  have hdiv := Nat.div_add_mod (stop + p - 1) p
  have hmod := Nat.mod_lt (stop + p - 1) hp
  have hle : stop ≤ p * stop := Nat.le_mul_of_pos_left stop hp
  rw [Nat.mul_comm] at hdiv
  refine ⟨by omega, Nat.lt_succ_iff.mp (Nat.div_lt_of_lt_mul ?_)⟩
  rw [Nat.mul_succ]
  omega

theorem commandChunks_ne_nil : commandChunks p command ≠ [] := by
  unfold commandChunks
  dsimp only
  split
  · simp
  · assumption

theorem commandChunks_flatten (hp : 0 < p) : (commandChunks p command).flatten = command := by
  have hlen := (rangeStep_count hp (max 1 command.length)).1
  have hflat : ((rangeStep (max 1 command.length) p).map fun i => slice command i (i + p)).flatten = command := by
    rw [rangeStep, chunks_flatten_take, List.take_of_length_le (by omega)]
  unfold commandChunks
  dsimp only
  split
  · rename_i hnil
    rw [hnil] at hflat
    rw [← hflat]
    rfl
  · exact hflat

theorem length_commandChunks_le (hp : 0 < p) : (commandChunks p command).length ≤ max 1 command.length := by
  unfold commandChunks
  dsimp only
  split
  · simp
  · rw [List.length_map, rangeStep, List.length_map, List.length_range]
    exact (rangeStep_count hp _).2

theorem length_chunk_le (hp : 0 < p) {chunk : Bytes} (h : chunk ∈ commandChunks p command) :
    chunk.length ≤ command.length := by
  have := (List.sublist_flatten_of_mem h).length_le
  rwa [commandChunks_flatten hp] at this

end Chunks

/-! ### Fragments in order -/

/-- The fragments of each message arrive in order, each once. -/
def InOrder (arrivals : List Arrival) : Prop :=
  ∀ pre a post, arrivals = pre ++ a :: post → seqsOf pre a.message = List.range a.seq

section
variable {arrivals : List Arrival} {a : Arrival} {m : Message}

theorem InOrder.nil : InOrder [] := by
  intro pre a post h
  simp at h

theorem InOrder.snoc (h : InOrder arrivals) (ha : seqsOf arrivals a.message = List.range a.seq) :
    InOrder (arrivals ++ [a]) := by
  intro pre b post he
  rcases List.eq_nil_or_concat post with rfl | ⟨post', c, rfl⟩
  · obtain ⟨rfl, hb⟩ := List.append_inj' he rfl
    cases hb
    exact ha
  · rw [List.concat_eq_append, ← List.cons_append, ← List.append_assoc] at he
    obtain ⟨rfl, -⟩ := List.append_inj' he rfl
    exact h pre b post' rfl

theorem InOrder.init (h : InOrder (arrivals ++ [a])) : InOrder arrivals ∧ seqsOf arrivals a.message = List.range a.seq := by
  refine ⟨fun pre b post he => h pre b (post ++ [a]) (by rw [he]; simp), h arrivals a [] rfl⟩

theorem allArrived_iff_last (h : seqsOf arrivals a.message = List.range a.seq) :
    (AllArrived (arrivals ++ [a]) a.message ↔ a.seq + 1 = a.message.fragments.length) ∧
      ¬AllArrived arrivals a.message := by
  have hlt := a.inRange
  have hsnoc : seqsOf (arrivals ++ [a]) a.message = List.range (a.seq + 1) := by
    rw [seqsOf_append_self, h, List.range_succ]
  unfold AllArrived
  rw [hsnoc, h]
  constructor
  · constructor
    · intro hc
      have := List.mem_range.mp (hc (a.message.fragments.length - 1) (by omega))
      omega
    · intro hl s hs
      exact List.mem_range.mpr (by omega)
  · intro hc
    have := List.mem_range.mp (hc a.seq hlt)
    omega

theorem InOrder.beforeComplete (h : InOrder arrivals) : BeforeComplete arrivals :=
  fun pre a post he => (allArrived_iff_last (h pre a post he)).2

theorem InOrder.take (h : InOrder (arrivals ++ [a])) :
    (a.message.fragments.take (seqsOf (arrivals ++ [a]) a.message).length).flatten =
      (a.message.fragments.take (seqsOf arrivals a.message).length).flatten ++ a.fragment := by
  have hlt := a.inRange
  rw [seqsOf_append_self, List.length_append, h.init.2, List.length_range, List.length_singleton,
    List.take_succ_eq_append_getElem hlt, List.flatten_append]
  simp [Arrival.fragment]

end

/-! ### The sender's side -/

/-- The message that the call at place `k` sends. -/
def callMessage (p k : Nat) (command : Bytes) : Message := ⟨k + 1, commandChunks p command, commandChunks_ne_nil⟩

/-- Call `k` sends the command of its place in the list, under the index `k + 1`. -/
structure SendCall.Ok (p : Nat) (commands : PySeq (PySeq UInt8)) (k : Nat) (c : SendCall) : Prop where
  index : c.index = k + 1
  command : ∃ x, commands.items[k]? = some x ∧ c.command = x.items
  chunks : c.chunks = commandChunks p c.command
  seq : c.seq ≤ c.chunks.length
  writing : c.status = .writing → c.seq < c.chunks.length
  returned : ∀ i, c.status = .returned i ↔ c.seq = c.chunks.length ∧ i = c.index

/-- The written fragments are those of the calls, in order within each call. -/
structure Sender.Inv (p : Nat) (commands : PySeq (PySeq UInt8)) (s : Sender) (arrivals : List Arrival) : Prop where
  next : s.nextOutgoingIndex = s.calls.length + 1
  calls : ∀ k (c : SendCall), s.calls[k]? = some c → c.Ok p commands k
  wire : s.wire = arrivals.map (·.raw)
  encoded : ∀ a ∈ arrivals, a.raw = encodeFragment a.message.index a.seq a.message.fragments.length a.fragment
  known : ∀ a ∈ arrivals, ∃ k c, s.calls[k]? = some c ∧ a.message = callMessage p k c.command
  inOrder : InOrder arrivals
  written : ∀ k c, s.calls[k]? = some c → seqsOf arrivals (callMessage p k c.command) = List.range c.seq

section
variable {p : Nat} {commands : PySeq (PySeq UInt8)} {s t : Sender} {arrivals : List Arrival}

theorem Sender.Inv.init : Sender.Inv p commands {} [] where
  next := rfl
  calls k c h := by simp at h
  wire := rfl
  encoded a h := by cases h
  known a h := by cases h
  inOrder := InOrder.nil
  written k c h := by simp at h

/-- The fragment that call `k` writes next, as it arrives at a receiver. -/
def nextArrival (hp : 0 < p) {k : Nat} {c : SendCall} (h : c.Ok p commands k) (hseq : c.seq < c.chunks.length) : Arrival where
  message := callMessage p k c.command
  seq := c.seq
  raw := encodeFragment c.index c.seq c.chunks.length (c.chunks.get ⟨c.seq, hseq⟩)
  inRange := by
    show c.seq < (commandChunks p c.command).length
    rw [← h.chunks]
    exact hseq
  decodes := by
    obtain ⟨x, hx, hcmd⟩ := h.command
    have hk : k < commands.items.length := (List.getElem?_eq_some_iff.mp hx).1
    have hchunks : c.chunks.length ≤ max 1 c.command.length := by
      rw [h.chunks]
      exact length_commandChunks_le hp
    have hchunk : (c.chunks.get ⟨c.seq, hseq⟩).length ≤ c.command.length :=
      length_chunk_le hp (h.chunks ▸ List.get_mem _ _)
    have hbound := commands.bounded
    have hxbound := x.bounded
    rw [hcmd] at hchunks hchunk
    have hmax : maxsize < 2 ^ 70 - 1 := by decide
    rw [decodeFragment_encodeFragment (by rw [h.index]; omega) (by omega) (by omega) (by omega), h.index]
    simp only [callMessage, ← h.chunks, List.get_eq_getElem]

/-- The counter gives a fresh index, so the calls made before keep their messages apart from a new one. -/
theorem Sender.Inv.start (h : s.Inv p commands arrivals) {x : PySeq UInt8}
    (hx : commands.items[s.calls.length]? = some x) {c : SendCall}
    (hc : c = { index := s.nextOutgoingIndex, command := x.items, chunks := commandChunks p x.items }) :
    Sender.Inv p commands
      { s with nextOutgoingIndex := s.nextOutgoingIndex + 1, calls := s.calls ++ [c] } arrivals := by
  subst hc
  have hpos : 0 < (commandChunks p x.items).length := List.length_pos_iff.mpr commandChunks_ne_nil
  refine ⟨by simp [h.next], fun k d hk => ?_, h.wire, h.encoded, fun a ha => ?_, h.inOrder, fun k d hk => ?_⟩
  · rcases getElem?_concat_eq_some.mp hk with hk | ⟨rfl, rfl⟩
    · exact h.calls k d hk
    · exact ⟨h.next, ⟨x, hx, rfl⟩, rfl, Nat.zero_le _, fun _ => hpos, fun i =>
        ⟨fun hi => (by cases hi), fun hi => absurd hi.1 (by dsimp only; omega)⟩⟩
  · obtain ⟨k, d, hk, hm⟩ := h.known a ha
    exact ⟨k, d, by rwa [List.getElem?_append_left (List.getElem?_eq_some_iff.mp hk).1], hm⟩
  · rcases getElem?_concat_eq_some.mp hk with hk | ⟨rfl, rfl⟩
    · exact h.written k d hk
    · rw [List.range_zero, List.eq_nil_iff_forall_not_mem]
      intro n hn
      obtain ⟨a, ha, hm, -⟩ := mem_seqsOf.mp hn
      obtain ⟨k, d, hk, hm'⟩ := h.known a ha
      have hlt := (List.getElem?_eq_some_iff.mp hk).1
      have hindex := congrArg Message.index (hm.symm.trans hm')
      simp only [callMessage] at hindex
      omega

theorem getElem?_set_command {k j : Nat} {c c' d : SendCall} (hk : s.calls[k]? = some c) (hd : (s.calls.set k c')[j]? = some d) :
    j = k ∧ d = c' ∨ j ≠ k ∧ s.calls[j]? = some d := by
  have hlt := (List.getElem?_eq_some_iff.mp hk).1
  by_cases hj : j = k
  · subst hj
    rw [List.getElem?_set_self hlt] at hd
    exact Or.inl ⟨rfl, (Option.some.inj hd).symm⟩
  · rw [List.getElem?_set_ne (Ne.symm hj)] at hd
    exact Or.inr ⟨hj, hd⟩

theorem Sender.Inv.write (hp : 0 < p) (h : s.Inv p commands arrivals) {k : Nat} {c : SendCall}
    (hk : s.calls[k]? = some c) (hseq : c.seq < c.chunks.length) {status : SendStatus}
    (hstatus : status = if c.seq + 1 = c.chunks.length then .returned c.index else .writing) : Sender.Inv p commands
      { s with
        calls := s.calls.set k { c with seq := c.seq + 1, status }
        wire := s.wire ++ [encodeFragment c.index c.seq c.chunks.length (c.chunks.get ⟨c.seq, hseq⟩)] }
      (arrivals ++ [nextArrival hp (h.calls k c hk) hseq]) := by
  have ok := h.calls k c hk
  have hlt := (List.getElem?_eq_some_iff.mp hk).1
  have hfresh : seqsOf arrivals (nextArrival hp ok hseq).message = List.range (nextArrival hp ok hseq).seq :=
    h.written k c hk
  have hset := List.getElem?_set_self (a := { c with seq := c.seq + 1, status }) hlt
  refine ⟨by simp [h.next], fun j d hd => ?_, by simp [h.wire, nextArrival], fun a ha => ?_, fun a ha => ?_,
    h.inOrder.snoc hfresh, fun j d hd => ?_⟩
  · rcases getElem?_set_command hk hd with ⟨rfl, rfl⟩ | ⟨-, hd⟩
    · subst hstatus
      refine ⟨ok.index, ok.command, ok.chunks, hseq, fun hw => ?_, fun i => ?_⟩
      · dsimp only at hw ⊢
        split at hw
        · cases hw
        · omega
      · dsimp only
        split <;> rename_i he
        · simp [he, eq_comm]
        · simp [he]
    · exact h.calls j d hd
  · rcases List.mem_append.mp ha with ha | ha
    · exact h.encoded a ha
    · rw [List.mem_singleton.mp ha]
      simp only [nextArrival, callMessage, Arrival.fragment, ok.index, ← ok.chunks, List.get_eq_getElem]
  · rcases List.mem_append.mp ha with ha | ha
    · obtain ⟨j, d, hd, hm⟩ := h.known a ha
      by_cases hj : j = k
      · subst hj
        obtain rfl := Option.some.inj (hk.symm.trans hd)
        exact ⟨j, _, hset, hm⟩
      · exact ⟨j, d, by rwa [List.getElem?_set_ne (Ne.symm hj)], hm⟩
    · rw [List.mem_singleton.mp ha]
      exact ⟨k, _, hset, rfl⟩
  · rcases getElem?_set_command hk hd with ⟨rfl, rfl⟩ | ⟨hj, hd⟩
    · have : seqsOf (arrivals ++ [nextArrival hp ok hseq]) (nextArrival hp ok hseq).message = _ := seqsOf_append_self
      rw [hfresh, ← List.range_succ] at this
      exact this
    · rw [seqsOf_append_ne fun he => hj ?_]
      · exact h.written j d hd
      · have := congrArg Message.index he
        simp only [nextArrival, callMessage] at this
        omega

theorem Sender.Inv.fail (h : s.Inv p commands arrivals) {k : Nat} {c : SendCall} (hk : s.calls[k]? = some c)
    (hw : c.status = .writing) :
    Sender.Inv p commands { s with calls := s.calls.set k { c with status := .raised } } arrivals := by
  have ok := h.calls k c hk
  have hlt := (List.getElem?_eq_some_iff.mp hk).1
  have hseq := ok.writing hw
  refine ⟨by simp [h.next], fun j d hd => ?_, h.wire, h.encoded, fun a ha => ?_, h.inOrder, fun j d hd => ?_⟩
  · rcases getElem?_set_command hk hd with ⟨rfl, rfl⟩ | ⟨-, hd⟩
    · exact ⟨ok.index, ok.command, ok.chunks, ok.seq, fun hr => (by cases hr), fun i =>
        ⟨fun hi => (by cases hi), fun hi => absurd hi.1 (by dsimp only; omega)⟩⟩
    · exact h.calls j d hd
  · obtain ⟨j, d, hd, hm⟩ := h.known a ha
    by_cases hj : j = k
    · subst hj
      obtain rfl := Option.some.inj (hk.symm.trans hd)
      exact ⟨j, _, List.getElem?_set_self hlt, hm⟩
    · exact ⟨j, d, by rwa [List.getElem?_set_ne (Ne.symm hj)], hm⟩
  · rcases getElem?_set_command hk hd with ⟨rfl, rfl⟩ | ⟨-, hd⟩
    · exact h.written j c hk
    · exact h.written j d hd

theorem Sender.Inv.step (hp : 0 < p) (h : s.Inv p commands arrivals) {act : SendAct}
    (hs : s.step p commands act = some t) : ∃ arrivals', t.Inv p commands arrivals' := by
  cases act with
  | start =>
    simp only [Sender.step] at hs
    split at hs
    · cases hs
    · rename_i x hx
      cases hs
      exact ⟨_, h.start hx rfl⟩
  | write k =>
    simp only [Sender.step] at hs
    split at hs
    · cases hs
    · rename_i c hk
      split at hs
      · rename_i chunk hstat hchunk
        obtain ⟨hseq, hget⟩ := List.getElem?_eq_some_iff.mp hchunk
        subst hget
        cases hs
        exact ⟨_, h.write hp hk hseq rfl⟩
      · cases hs
  | fail k =>
    simp only [Sender.step] at hs
    split at hs
    · cases hs
    · rename_i c hk
      split at hs
      · rename_i hstat
        cases hs
        exact ⟨_, h.fail hk hstat⟩
      · cases hs

theorem Sender.Inv.run (hp : 0 < p) {acts : List SendAct} (hrun : run (Sender.step p commands) {} acts = some s) :
    ∃ arrivals, s.Inv p commands arrivals :=
  run_invariant (P := fun s => ∃ arrivals, s.Inv p commands arrivals)
    (fun _ _ _ hs ht => by obtain ⟨arrivals, h⟩ := hs; exact h.step hp ht) hrun ⟨[], Sender.Inv.init⟩

end

/-! ### The pendant's rule -/

theorem under_append {i : Nat} {xs ys : List (Nat × Bytes)} : under i (xs ++ ys) = under i xs ++ under i ys := by
  simp [under]

theorem under_singleton_self {i : Nat} {x : Bytes} : under i [(i, x)] = [x] := by simp [under]

theorem under_singleton_ne {i j : Nat} {x : Bytes} (h : j ≠ i) : under i [(j, x)] = [] := by simp [under, h]

/-- The pendant's state after arrivals in order: under each index the part of the message that arrived,
    and the message handed on once it is complete. -/
structure PendantReceiver.Tracks (r : PendantReceiver) (arrivals : List Arrival) : Prop where
  buffer : ∀ m, (∀ a ∈ arrivals, a.message.index = m.index → a.message = m) →
    (r.buffers.lookup m.index).getD [] = (m.fragments.take (seqsOf arrivals m).length).flatten
  decoded : ∀ m, (∀ a ∈ arrivals, a.message.index = m.index → a.message = m) →
    under m.index r.decoded = if AllArrived arrivals m then [m.payload] else []

theorem PendantReceiver.Tracks.empty : PendantReceiver.Tracks {} [] where
  buffer m _ := by simp [AList.lookup_empty, seqsOf]
  decoded m _ := by
    rw [if_neg fun h => ?_]
    · rfl
    · have := h 0 (List.length_pos_iff.mpr m.cut)
      cases this

theorem PendantReceiver.Tracks.receive {r : PendantReceiver} {arrivals : List Arrival} {a : Arrival} (h : r.Tracks arrivals)
    (distinct : ∀ b ∈ arrivals, b.message.index = a.message.index → b.message = a.message)
    (inOrder : InOrder (arrivals ++ [a])) : (r.receive a.raw).Tracks (arrivals ++ [a]) := by
  have hlast := allArrived_iff_last inOrder.init.2
  have hbuffer : (r.buffers.lookup a.message.index).getD [] ++ a.fragment =
      (a.message.fragments.take (seqsOf (arrivals ++ [a]) a.message).length).flatten := by
    rw [h.buffer a.message distinct, inOrder.take]
  have old : ∀ {m : Message}, (∀ b ∈ arrivals ++ [a], b.message.index = m.index → b.message = m) →
      ∀ b ∈ arrivals, b.message.index = m.index → b.message = m := fun hm b hb => hm b (List.mem_append_left _ hb)
  have apart : ∀ {m : Message}, (∀ b ∈ arrivals ++ [a], b.message.index = m.index → b.message = m) →
      a.message ≠ m → a.message.index ≠ m.index := fun hm hne hi => hne (hm a (by simp) hi)
  unfold PendantReceiver.receive
  rw [a.decodeFragment_raw]
  refine ⟨fun m hm => ?_, fun m hm => ?_⟩
  · by_cases hma : a.message = m
    · subst hma
      rw [AList.lookup_insert, Option.getD_some]
      exact hbuffer
    · rw [AList.lookup_insert_ne (Ne.symm (apart hm hma)), h.buffer m (old hm), seqsOf_append_ne hma]
  · by_cases hma : a.message = m
    · subst hma
      dsimp only
      by_cases hl : a.seq + 1 = a.message.fragments.length
      · rw [if_pos hl, if_pos (hlast.1.mpr hl), under_append, h.decoded _ distinct, if_neg hlast.2, hbuffer,
          under_singleton_self, seqsOf_append_self, List.length_append, inOrder.init.2, List.length_range,
          List.length_singleton, hl, List.take_length]
        rfl
      · rw [if_neg hl, if_neg fun hc => hl (hlast.1.mp hc), h.decoded _ distinct, if_neg hlast.2]
    · rw [if_congr (allArrived_append_ne hma) rfl rfl, ← h.decoded m (old hm)]
      dsimp only
      split
      · rw [under_append, under_singleton_ne (apart hm hma), List.append_nil]
      · rfl

/-- The pendant gets each complete message once under its index, and nothing else. -/
theorem pendantReceive_arrivals {arrivals : List Arrival} (inOrder : InOrder arrivals)
    (distinct : ∀ a ∈ arrivals, ∀ b ∈ arrivals, a.message.index = b.message.index → a.message = b.message) :
    PendantReceiver.Tracks ((arrivals.map (·.raw)).foldl PendantReceiver.receive {}) arrivals := by
  induction arrivals using List.reverseRecOn with
  | nil => exact PendantReceiver.Tracks.empty
  | append_singleton arrivals a ih =>
    rw [List.map_append, List.foldl_append]
    exact (ih inOrder.init.1 fun b hb c hc => distinct b (List.mem_append_left _ hb) c (List.mem_append_left _ hc)).receive
      (fun b hb => distinct b (List.mem_append_left _ hb) a (by simp)) inOrder

/-! ### This client's rule -/

/-- What the notify handler dispatches under the index of a message is what it dispatches for the message. -/
theorem under_indexedDispatches {m : Message} : ∀ {arrivals : List Arrival} {outcomes : List NotifyOutcome},
    (∀ a ∈ arrivals, a.message.index = m.index → a.message = m) →
    under m.index (indexedDispatches (arrivals.map (·.raw)) outcomes) = dispatchesOf m arrivals outcomes := by
  intro arrivals
  induction arrivals with
  | nil =>
    intro outcomes _
    rfl
  | cons a arrivals ih =>
    intro outcomes distinct
    cases outcomes with
    | nil => rfl
    | cons o outcomes =>
      have hrest : under m.index (indexedDispatches (arrivals.map (·.raw)) outcomes) = dispatchesOf m arrivals outcomes :=
        ih fun b hb => distinct b (List.mem_cons_of_mem _ hb)
      cases o with
      | dispatched payload =>
        rw [List.map_cons, indexedDispatches, a.decodes, dispatchesOf, ← hrest]
        dsimp only
        by_cases hma : a.message = m
        · subst hma
          rw [if_pos rfl, ← List.singleton_append, under_append, under_singleton_self, List.singleton_append]
        · have hi : a.message.index ≠ m.index := fun hi => hma (distinct a (by simp) hi)
          rw [if_neg hma, ← List.singleton_append, under_append, under_singleton_ne hi, List.nil_append]
      | undecodable e => exact hrest
      | stored => exact hrest
      | raised e => exact hrest

/-! ### Every run of the sender -/

/-- Every fragment of the call is on the wire. -/
def FullyWritten (wire : List Bytes) (c : SendCall) : Prop :=
  ∀ i (h : i < c.chunks.length), encodeFragment c.index i c.chunks.length c.chunks[i] ∈ wire

section
variable {p : Nat} {commands : PySeq (PySeq UInt8)} {s : Sender} {arrivals : List Arrival}

theorem Sender.Inv.distinct (h : s.Inv p commands arrivals) {a : Arrival} (ha : a ∈ arrivals) {k : Nat} {c : SendCall}
    (hk : s.calls[k]? = some c) (hi : a.message.index = k + 1) : a.message = callMessage p k c.command := by
  obtain ⟨j, d, hj, hm⟩ := h.known a ha
  rw [hm] at hi
  have hjk : j = k := by
    simp only [callMessage] at hi
    omega
  subst hjk
  obtain rfl := Option.some.inj (hk.symm.trans hj)
  exact hm

theorem Sender.Inv.distinct' (h : s.Inv p commands arrivals) :
    ∀ a ∈ arrivals, ∀ b ∈ arrivals, a.message.index = b.message.index → a.message = b.message := by
  intro a ha b hb hi
  obtain ⟨k, c, hk, hm⟩ := h.known b hb
  rw [hm] at hi ⊢
  exact h.distinct ha hk hi

theorem Sender.Inv.fullyWritten_iff (h : s.Inv p commands arrivals) (hp : 0 < p) {k : Nat} {c : SendCall}
    (hk : s.calls[k]? = some c) : FullyWritten s.wire c ↔ c.seq = c.chunks.length := by
  have ok := h.calls k c hk
  have hwritten := h.written k c hk
  constructor
  · intro hw
    have hpos : 0 < c.chunks.length := by
      rw [ok.chunks]
      exact List.length_pos_iff.mpr commandChunks_ne_nil
    have hlast := hw (c.chunks.length - 1) (by omega)
    rw [h.wire] at hlast
    obtain ⟨a, ha, hraw⟩ := List.mem_map.mp hlast
    -- The last fragment on the wire decodes to one arrival of this call, so its number was reached.
    have hdec := a.decodeFragment_raw
    obtain ⟨x, hx, hcmd⟩ := ok.command
    have hkb := (List.getElem?_eq_some_iff.mp hx).1
    have hcb := commands.bounded
    have hxb := x.bounded
    have hn : c.chunks.length ≤ max 1 c.command.length := ok.chunks ▸ length_commandChunks_le hp
    have hm : c.chunks[c.chunks.length - 1].length ≤ c.command.length :=
      length_chunk_le hp (ok.chunks ▸ List.getElem_mem _)
    have hmax : maxsize < 2 ^ 70 - 1 := by decide
    have hindex := ok.index
    rw [hcmd] at hn hm
    rw [hraw, decodeFragment_encodeFragment (by omega) (by omega) (by omega) (by omega)] at hdec
    simp only [Except.ok.injEq, IncomingFragment.mk.injEq] at hdec
    have hmem : c.chunks.length - 1 ∈ seqsOf arrivals (callMessage p k c.command) :=
      mem_seqsOf.mpr ⟨a, ha, h.distinct ha hk (by omega), hdec.2.1.symm⟩
    rw [hwritten, List.mem_range] at hmem
    have := ok.seq
    omega
  · intro hseq i hi
    have hmem : i ∈ seqsOf arrivals (callMessage p k c.command) := by
      rw [hwritten, List.mem_range]
      omega
    obtain ⟨a, ha, hm, rfl⟩ := mem_seqsOf.mp hmem
    rw [h.wire]
    refine List.mem_map.mpr ⟨a, ha, ?_⟩
    rw [h.encoded a ha]
    simp only [Arrival.fragment, List.get_eq_getElem, hm, callMessage, ← ok.chunks, ok.index]

theorem Sender.Inv.allArrived_iff (h : s.Inv p commands arrivals) {k : Nat} {c : SendCall} (hk : s.calls[k]? = some c) :
    AllArrived arrivals (callMessage p k c.command) ↔ c.seq = c.chunks.length := by
  have ok := h.calls k c hk
  have hseq := ok.seq
  unfold AllArrived
  rw [h.written k c hk]
  show Parts.Complete (commandChunks p c.command).length _ ↔ _
  rw [← ok.chunks]
  constructor
  · intro hc
    by_contra hne
    have := List.mem_range.mp (hc c.seq (by omega))
    omega
  · intro he i hi
    exact List.mem_range.mpr (by omega)

/-- Both receivers get, under the index of a message that no arrival shares, what arrived of the message. -/
theorem Sender.Inv.received (h : s.Inv p commands arrivals) {m : Message}
    (hm : ∀ a ∈ arrivals, a.message.index = m.index → a.message = m) :
    under m.index (pendantReceive s.wire) = (if AllArrived arrivals m then [m.payload] else []) ∧
      under m.index (clientReceive s.wire) = if AllArrived arrivals m then [m.payload] else [] := by
  have hearly : ∀ pre a post, arrivals = pre ++ a :: post → ¬AllArrived ([] ++ pre) a.message := h.inOrder.beforeComplete
  have hnodup : ((arrivals.map (·.message)).dedup.map (·.index)).Nodup := by
    refine List.Nodup.map_on (fun x hx y hy hxy => ?_) (List.nodup_dedup _)
    obtain ⟨a, ha, rfl⟩ := List.mem_map.mp (List.mem_dedup.mp hx)
    obtain ⟨b, hb, rfl⟩ := List.mem_map.mp (List.mem_dedup.mp hy)
    exact h.distinct' a ha b hb hxy
  have hnone : ¬AllArrived [] m := fun hc => by
    have := hc 0 (List.length_pos_iff.mpr m.cut)
    cases this
  constructor
  · rw [h.wire]
    exact (pendantReceive_arrivals h.inOrder h.distinct').decoded m hm
  · obtain ⟨table, hout, -⟩ := Tracks.run hnodup Tracks.empty
      (fun a ha => List.mem_dedup.mpr (List.mem_map.mpr ⟨a, ha, rfl⟩)) hearly
    rw [clientReceive, h.wire, hout, under_indexedDispatches hm, dispatchesOf_expectedOutcomes hearly, List.nil_append]
    simp only [hnone, not_false_eq_true, and_true]

theorem Sender.Inv.received_call (h : s.Inv p commands arrivals) (hp : 0 < p) {k : Nat} {c : SendCall}
    (hk : s.calls[k]? = some c) :
    under c.index (pendantReceive s.wire) =
        (if AllArrived arrivals (callMessage p k c.command) then [c.command] else []) ∧
      under c.index (clientReceive s.wire) =
        if AllArrived arrivals (callMessage p k c.command) then [c.command] else [] := by
  have hindex : (callMessage p k c.command).index = c.index := (h.calls k c hk).index.symm
  have hpayload : (callMessage p k c.command).payload = c.command := commandChunks_flatten hp
  have hreceived := h.received (m := callMessage p k c.command) fun a ha hi => h.distinct ha hk hi
  rwa [hindex, hpayload] at hreceived

/-- Under an index that no call has, nothing arrives and nothing is received. -/
theorem Sender.Inv.received_other (h : s.Inv p commands arrivals) {i : Nat} (hi : ∀ c ∈ s.calls, c.index ≠ i) :
    under i (pendantReceive s.wire) = [] ∧ under i (clientReceive s.wire) = [] := by
  have hnone : ∀ a ∈ arrivals, a.message.index ≠ i := fun a ha he => by
    obtain ⟨k, c, hk, hm⟩ := h.known a ha
    refine hi c (List.mem_of_getElem? hk) ?_
    rw [(h.calls k c hk).index, ← he, hm]
    rfl
  have habsent : ¬AllArrived arrivals ⟨i, [[]], by decide⟩ := fun hc => by
    obtain ⟨a, ha, hm, -⟩ := mem_seqsOf.mp (hc 0 (by simp))
    exact hnone a ha (by rw [hm])
  have hreceived := h.received (m := ⟨i, [[]], by decide⟩) fun a ha he => absurd he (hnone a ha)
  rwa [if_neg habsent] at hreceived

theorem Sender.Inv.indices (h : s.Inv p commands arrivals) : s.calls.map (·.index) = List.range' 1 s.calls.length := by
  refine List.ext_getElem (by simp) fun k hk _ => ?_
  rw [List.length_map] at hk
  simp [(h.calls k s.calls[k] (List.getElem?_eq_getElem hk)).index, Nat.add_comm]

end

/-- For any commands, however the writes of the `send_command` calls interleave and whichever calls a
    write error cuts short: the receiver that follows the pendant's rule and this client's reassembly both
    get, under the index of each call, its command once if all its fragments were written and nothing
    otherwise, and nothing under any other index; a call returns its index exactly when it is fully
    written, and no two calls share one. -/
theorem send_command_lossless {p : Nat} (hp : 0 < p) (commands : PySeq (PySeq UInt8)) {acts : List SendAct} {s : Sender}
    (hrun : run (Sender.step p commands) {} acts = some s) :
    (∀ (k : Nat) (c : SendCall), s.calls[k]? = some c →
      (∃ x : PySeq UInt8, commands.items[k]? = some x ∧ c.command = x.items) ∧
      (∀ i, c.status = .returned i ↔ FullyWritten s.wire c ∧ i = c.index) ∧
      (FullyWritten s.wire c →
        under c.index (pendantReceive s.wire) = [c.command] ∧ under c.index (clientReceive s.wire) = [c.command]) ∧
      (¬FullyWritten s.wire c →
        under c.index (pendantReceive s.wire) = [] ∧ under c.index (clientReceive s.wire) = [])) ∧
    (∀ i, (∀ c ∈ s.calls, c.index ≠ i) →
      under i (pendantReceive s.wire) = [] ∧ under i (clientReceive s.wire) = []) ∧
    (s.calls.map (·.index)).Nodup := by
  obtain ⟨arrivals, h⟩ := Sender.Inv.run hp hrun
  refine ⟨fun k c hk => ?_, fun i hi => h.received_other hi, ?_⟩
  · have ok := h.calls k c hk
    have hfull := h.fullyWritten_iff hp hk
    have hall := h.allArrived_iff hk
    obtain ⟨hpendant, hclient⟩ := h.received_call hp hk
    refine ⟨ok.command, fun i => by rw [ok.returned, hfull], fun hw => ?_, fun hw => ?_⟩
    · rw [hpendant, hclient, if_pos (hall.mpr (hfull.mp hw))]
      exact ⟨rfl, rfl⟩
    · rw [hpendant, hclient, if_neg fun ha => hw (hfull.mpr (hall.mp ha))]
      exact ⟨rfl, rfl⟩
  · rw [h.indices]
    exact List.nodup_range'

/-- Three calls with two bytes a fragment: the first is interleaved with the second, which a write error
    cuts short, and the third sends the empty command. -/
def sampleActs : List SendAct :=
  [.start, .start, .write 0, .write 1, .fail 1, .start, .write 2, .write 0]

/-- Three commands, the last one empty. -/
def sampleCommands : PySeq (PySeq UInt8) :=
  ⟨[⟨[1, 2, 3], by decide⟩, ⟨[4, 5, 6, 7], by decide⟩, ⟨[], by decide⟩], by decide⟩

theorem send_sample : ∃ s, run (Sender.step 2 sampleCommands) {} sampleActs = some s ∧
    under 1 (pendantReceive s.wire) = [[1, 2, 3]] ∧ under 3 (clientReceive s.wire) = [[]] := by
  have hcalls : (run (Sender.step 2 sampleCommands) {} sampleActs).map (fun s => (s.calls[0]?, s.calls[2]?)) =
      some (some ⟨1, [1, 2, 3], [[1, 2], [3]], 2, .returned 1⟩, some ⟨3, [], [[]], 1, .returned 3⟩) := by decide +kernel
  obtain ⟨s, hs, hc⟩ := Option.map_eq_some_iff.mp hcalls
  obtain ⟨h0, h2⟩ := Prod.mk.inj hc
  have hsend := (send_command_lossless (by decide : 0 < 2) sampleCommands hs).1
  obtain ⟨-, hret0, hfull0, -⟩ := hsend 0 _ h0
  obtain ⟨-, hret2, hfull2, -⟩ := hsend 2 _ h2
  exact ⟨s, hs, (hfull0 ((hret0 1).mp rfl).1).1, (hfull2 ((hret2 3).mp rfl).1).2⟩

end PendantClient
