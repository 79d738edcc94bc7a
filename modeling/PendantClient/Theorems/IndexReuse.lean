import PendantClient.Theorems.Reassembly

/-! Reassembly when an index is used again: a message may take the index of an earlier one as soon as that one is complete.
    Messages are told apart by their place in a list. -/

namespace PendantClient

/-- A notification with a fragment of the message at place `k`. -/
structure Piece (msgs : List Message) where
  k : Nat
  arrival : Arrival
  isAt : msgs[k]? = some arrival.message

section
variable {msgs : List Message}

/-- The bytes of the notification. -/
def Piece.raw (p : Piece msgs) : Bytes := p.arrival.raw

/-- The fragment numbers that have arrived of the message at a place. -/
def seqsAt (pieces : List (Piece msgs)) (k : Nat) : List Nat := (pieces.filter fun p => p.k = k).map (·.arrival.seq)

/-- Every fragment of the message at a place has arrived. -/
def WholeAt (pieces : List (Piece msgs)) (k : Nat) (m : Message) : Prop := Parts.Complete m.fragments.length (seqsAt pieces k)

instance (pieces : List (Piece msgs)) (k : Nat) (m : Message) : Decidable (WholeAt pieces k m) :=
  inferInstanceAs (Decidable (Parts.Complete _ _))

/-- A fragment of the message at a place has arrived. -/
def BegunAt (pieces : List (Piece msgs)) (k : Nat) : Prop := ∃ p ∈ pieces, p.k = k

instance (pieces : List (Piece msgs)) (k : Nat) : Decidable (BegunAt pieces k) :=
  inferInstanceAs (Decidable (∃ p ∈ pieces, p.k = k))

/-- No fragment arrives for a message that is complete, and none while another message under its index is not. -/
structure OneAtATime (pieces : List (Piece msgs)) : Prop where
  early : ∀ pre p post, pieces = pre ++ p :: post → ¬WholeAt pre p.k p.arrival.message
  alone : ∀ pre p post, pieces = pre ++ p :: post → ∀ k m, msgs[k]? = some m → m.index = p.arrival.message.index →
    BegunAt pre k → k = p.k ∨ WholeAt pre k m

/-- What the handler is to do on a piece behind the pieces `pre`. -/
def outcomeAt (pre : List (Piece msgs)) (p : Piece msgs) : NotifyOutcome :=
  if WholeAt (pre ++ [p]) p.k p.arrival.message then .dispatched p.arrival.message.payload else .stored

/-- The outcomes of some pieces after others. -/
def outcomesAt (pre : List (Piece msgs)) : List (Piece msgs) → List NotifyOutcome
  | [] => []
  | p :: rest => outcomeAt pre p :: outcomesAt (pre ++ [p]) rest

/-- The messages that the pieces complete, in the order in which they do. -/
def completedAt (pre : List (Piece msgs)) : List (Piece msgs) → List Nat
  | [] => []
  | p :: rest => (if WholeAt (pre ++ [p]) p.k p.arrival.message then [p.k] else []) ++ completedAt (pre ++ [p]) rest

variable {pre rest pieces : List (Piece msgs)} {p : Piece msgs} {k : Nat} {m : Message}

theorem mem_seqsAt {s : Nat} : s ∈ seqsAt pieces k ↔ ∃ p ∈ pieces, p.k = k ∧ p.arrival.seq = s := by
  simp only [seqsAt, List.mem_map, List.mem_filter, decide_eq_true_eq, and_assoc]

theorem seqsAt_snoc_self : seqsAt (pre ++ [p]) p.k = seqsAt pre p.k ++ [p.arrival.seq] := by
  simp [seqsAt]

theorem seqsAt_snoc_ne (h : p.k ≠ k) : seqsAt (pre ++ [p]) k = seqsAt pre k := by
  simp [seqsAt, h]

theorem wholeAt_snoc_ne (h : p.k ≠ k) : WholeAt (pre ++ [p]) k m ↔ WholeAt pre k m := by
  unfold WholeAt
  rw [seqsAt_snoc_ne h]

theorem begunAt_snoc : BegunAt (pre ++ [p]) k ↔ BegunAt pre k ∨ p.k = k := by
  simp only [BegunAt, List.mem_append, List.mem_singleton]
  constructor
  · rintro ⟨q, hq | rfl, hk⟩
    · exact .inl ⟨q, hq, hk⟩
    · exact .inr hk
  · rintro (⟨q, hq, hk⟩ | hk)
    · exact ⟨q, .inl hq, hk⟩
    · exact ⟨p, .inr rfl, hk⟩

/-- A complete message stays complete. -/
theorem WholeAt.append (h : WholeAt pre k m) (rest : List (Piece msgs)) : WholeAt (pre ++ rest) k m :=
  h.mono fun s hs => by
    obtain ⟨p, hp, hk⟩ := mem_seqsAt.mp hs
    exact mem_seqsAt.mpr ⟨p, List.mem_append_left rest hp, hk⟩

theorem not_wholeAt_nil : ¬WholeAt ([] : List (Piece msgs)) k m := fun h =>
  absurd (h 0 (List.length_pos_iff.mpr m.cut)) List.not_mem_nil

theorem Piece.eq_message (h : msgs[p.k]? = some m) : p.arrival.message = m := Option.some.inj (p.isAt.symm.trans h)

/-! ### The table -/

/-- For each message with a fragment and not complete the table has its record, and nothing else. -/
structure TracksAt (msgs : List Message) (table : ReassemblyTable) (pieces : List (Piece msgs)) : Prop where
  record : ∀ k m, msgs[k]? = some m → BegunAt pieces k → ¬WholeAt pieces k m →
    ∃ r, table.lookup m.index = some r ∧ r.Holds m (seqsAt pieces k)
  only : ∀ i r, table.lookup i = some r → ∃ k m, msgs[k]? = some m ∧ m.index = i ∧ BegunAt pieces k ∧ ¬WholeAt pieces k m

theorem TracksAt.empty : TracksAt msgs ∅ [] where
  record k m _ hbegun _ := by
    obtain ⟨p, hp, -⟩ := hbegun
    cases hp
  only i r h := by
    rw [AList.lookup_empty] at h
    cases h

variable {table : ReassemblyTable}

/-- The record under the index of a piece is that of its message, or there is none yet. -/
theorem TracksAt.current (h : TracksAt msgs table pre) (early : ¬WholeAt pre p.k p.arrival.message)
    (alone : ∀ k m, msgs[k]? = some m → m.index = p.arrival.message.index → BegunAt pre k → k = p.k ∨ WholeAt pre k m) :
    ((table.lookup p.arrival.message.index).getD {}).Holds p.arrival.message (seqsAt pre p.k) := by
  by_cases hbegun : BegunAt pre p.k
  · obtain ⟨r, hr, hholds⟩ := h.record p.k _ p.isAt hbegun early
    rwa [hr, Option.getD_some]
  · have hnone : table.lookup p.arrival.message.index = none := by
      cases hl : table.lookup p.arrival.message.index with
      | none => rfl
      | some r =>
        obtain ⟨k, m, hm, hi, hk, hnot⟩ := h.only _ r hl
        rcases alone k m hm hi hk with rfl | hwhole
        · exact absurd hk hbegun
        · exact absurd hwhole hnot
    have hnil : seqsAt pre p.k = [] := by
      rw [List.eq_nil_iff_forall_not_mem]
      intro s hs
      obtain ⟨q, hq, hk, -⟩ := mem_seqsAt.mp hs
      exact hbegun ⟨q, hq, hk⟩
    rw [hnone, hnil]
    exact Reassembly.Holds.empty _

/-- Another message under way has another index: it keeps its record, stored or popped as the entry at this index may be. -/
theorem TracksAt.others (h : TracksAt msgs table pre)
    (alone : ∀ k m, msgs[k]? = some m → m.index = p.arrival.message.index → BegunAt pre k → k = p.k ∨ WholeAt pre k m)
    {t : ReassemblyTable} (ht : ∀ i, i ≠ p.arrival.message.index → t.lookup i = table.lookup i) {k : Nat} {m : Message}
    (hm : msgs[k]? = some m) (hne : p.k ≠ k) (hbegun : BegunAt (pre ++ [p]) k) (hnot : ¬WholeAt (pre ++ [p]) k m) :
    ∃ r, t.lookup m.index = some r ∧ r.Holds m (seqsAt (pre ++ [p]) k) := by
  rw [wholeAt_snoc_ne hne] at hnot
  have hbegun := (begunAt_snoc.mp hbegun).resolve_right hne
  have hi : m.index ≠ p.arrival.message.index := by
    intro hi
    rcases alone k m hm hi hbegun with hk | hwhole
    · exact hne hk.symm
    · exact hnot hwhole
  rw [seqsAt_snoc_ne hne, ht m.index hi]
  exact h.record k m hm hbegun hnot

theorem TracksAt.only_snoc (h : TracksAt msgs table pre) {i : Nat} {r : Reassembly} (hi : i ≠ p.arrival.message.index)
    (hr : table.lookup i = some r) :
    ∃ k m, msgs[k]? = some m ∧ m.index = i ∧ BegunAt (pre ++ [p]) k ∧ ¬WholeAt (pre ++ [p]) k m := by
  obtain ⟨k, m, hm, rfl, hbegun, hnot⟩ := h.only i r hr
  have hne : p.k ≠ k := fun hk => hi (congrArg Message.index (Piece.eq_message (hk ▸ hm))).symm
  exact ⟨k, m, hm, rfl, begunAt_snoc.mpr (.inl hbegun), by rwa [wholeAt_snoc_ne hne]⟩

/-- One piece: the outcome is the expected one, and the table tracks the pieces up to it. -/
theorem TracksAt.onData (h : TracksAt msgs table pre) (early : ¬WholeAt pre p.k p.arrival.message)
    (alone : ∀ k m, msgs[k]? = some m → m.index = p.arrival.message.index → BegunAt pre k → k = p.k ∨ WholeAt pre k m) :
    ∃ table', PendantClient.onData table p.raw = (table', outcomeAt pre p) ∧ TracksAt msgs table' (pre ++ [p]) := by
  obtain ⟨r', hr', hadd⟩ := (h.current early alone).add p.arrival.inRange
  rw [← seqsAt_snoc_self] at hr' hadd
  unfold PendantClient.onData outcomeAt Piece.raw
  rw [p.arrival.decodes]
  dsimp only
  rw [hadd]
  dsimp only
  by_cases hwhole : WholeAt (pre ++ [p]) p.k p.arrival.message
  · rw [if_pos hwhole, if_pos (show Parts.Complete _ (seqsAt (pre ++ [p]) p.k) from hwhole)]
    refine ⟨_, rfl, ?_, ?_⟩
    · intro k m hm hbegun hnot
      by_cases hk : p.k = k
      · subst hk
        exact absurd (Piece.eq_message hm ▸ hwhole) hnot
      · exact h.others alone (fun i hi => by rw [AList.lookup_erase_ne hi, AList.lookup_insert_ne hi]) hm hk hbegun hnot
    · intro i r hr
      by_cases hi : i = p.arrival.message.index
      · rw [hi, AList.lookup_erase] at hr
        cases hr
      · rw [AList.lookup_erase_ne hi, AList.lookup_insert_ne hi] at hr
        exact h.only_snoc hi hr
  · rw [if_neg hwhole, if_neg (show ¬Parts.Complete _ (seqsAt (pre ++ [p]) p.k) from hwhole)]
    refine ⟨_, rfl, ?_, ?_⟩
    · intro k m hm hbegun hnot
      by_cases hk : p.k = k
      · subst hk
        obtain rfl := Piece.eq_message hm
        exact ⟨r', AList.lookup_insert _, hr'⟩
      · exact h.others alone (fun i hi => AList.lookup_insert_ne hi) hm hk hbegun hnot
    · intro i r hr
      by_cases hi : i = p.arrival.message.index
      · exact ⟨p.k, _, p.isAt, hi.symm, begunAt_snoc.mpr (.inr rfl), hwhole⟩
      · rw [AList.lookup_insert_ne hi] at hr
        exact h.only_snoc hi hr

theorem OneAtATime.next (h : OneAtATime (pre ++ p :: rest)) :
    ¬WholeAt pre p.k p.arrival.message ∧
      ∀ k m, msgs[k]? = some m → m.index = p.arrival.message.index → BegunAt pre k → k = p.k ∨ WholeAt pre k m :=
  ⟨h.early pre p rest rfl, h.alone pre p rest rfl⟩

theorem OneAtATime.of_take
    (early : ∀ i (hi : i < pieces.length), ¬WholeAt (pieces.take i) pieces[i].k pieces[i].arrival.message)
    (alone : ∀ i (hi : i < pieces.length) k (hk : k < msgs.length), msgs[k].index = pieces[i].arrival.message.index →
      BegunAt (pieces.take i) k → k = pieces[i].k ∨ WholeAt (pieces.take i) k msgs[k]) : OneAtATime pieces where
  early := by
    rintro pre p post rfl
    simpa using early pre.length (by simp)
  alone := by
    rintro pre p post rfl k m hm hindex hbegun
    obtain ⟨hk, rfl⟩ := List.getElem?_eq_some_iff.mp hm
    simpa using alone pre.length (by simp) k hk (by simpa using hindex) (by simpa using hbegun)

/-- A run of the handler. -/
theorem TracksAt.run : ∀ {rest pre : List (Piece msgs)} {table : ReassemblyTable}, TracksAt msgs table pre →
    OneAtATime (pre ++ rest) → ∃ table', onNotifications table (rest.map Piece.raw) = (table', outcomesAt pre rest) ∧
      TracksAt msgs table' (pre ++ rest) := by
  intro rest
  induction rest with
  | nil =>
    intro pre table h _
    exact ⟨table, rfl, by rwa [List.append_nil]⟩
  | cons p rest ih =>
    intro pre table h hpieces
    obtain ⟨early, alone⟩ := hpieces.next
    obtain ⟨t₁, h₁, ht₁⟩ := h.onData early alone
    obtain ⟨t₂, h₂, ht₂⟩ := ih ht₁ (by rwa [← List.append_cons])
    refine ⟨t₂, ?_, by rwa [List.append_cons]⟩
    rw [List.map_cons, onNotifications, h₁]
    dsimp only
    rw [h₂, outcomesAt]

/-! ### The messages that are dispatched -/

/-- The payload that is dispatched. -/
def NotifyOutcome.payload? : NotifyOutcome → Option Bytes
  | dispatched payload => some payload
  | _ => none

/-- The payloads of the messages at some places. -/
def payloadsAt (msgs : List Message) (ks : List Nat) : List Bytes := ks.filterMap fun k => msgs[k]?.map Message.payload

theorem payloadsAt_append (ks ks' : List Nat) : payloadsAt msgs (ks ++ ks') = payloadsAt msgs ks ++ payloadsAt msgs ks' :=
  List.filterMap_append

theorem payloadsAt_singleton (p : Piece msgs) : payloadsAt msgs [p.k] = [p.arrival.message.payload] := by
  rw [payloadsAt, List.filterMap_cons_some (by rw [p.isAt]; rfl)]
  rfl

theorem payloads_outcomesAt : ∀ {rest pre : List (Piece msgs)},
    (outcomesAt pre rest).filterMap NotifyOutcome.payload? = payloadsAt msgs (completedAt pre rest) := by
  intro rest
  induction rest with
  | nil => exact fun {_} => rfl
  | cons p rest ih =>
    intro pre
    rw [outcomesAt, completedAt, payloadsAt_append, ← ih, outcomeAt]
    split
    · rw [payloadsAt_singleton]
      rfl
    · rfl

/-- What is completed behind the pieces `pre`: each message once, and those that were not whole before and are then. -/
theorem completedAt_spec : ∀ {rest pre : List (Piece msgs)}, OneAtATime (pre ++ rest) →
    (completedAt pre rest).Nodup ∧ ∀ k m, msgs[k]? = some m →
      (k ∈ completedAt pre rest ↔ ¬WholeAt pre k m ∧ WholeAt (pre ++ rest) k m) := by
  intro rest
  induction rest with
  | nil =>
    intro pre _
    refine ⟨List.nodup_nil, fun k m _ => ⟨fun hk => absurd hk List.not_mem_nil, fun h => ?_⟩⟩
    rw [List.append_nil] at h
    exact absurd h.2 h.1
  | cons p rest ih =>
    intro pre h
    obtain ⟨early, -⟩ := h.next
    have hcons : pre ++ p :: rest = (pre ++ [p]) ++ rest := List.append_cons pre p rest
    rw [hcons] at h ⊢
    obtain ⟨hnodup, hmem⟩ := ih h
    rw [completedAt]
    split
    · rename_i hwhole
      have hnot : p.k ∉ completedAt (pre ++ [p]) rest := fun hk => ((hmem p.k _ p.isAt).mp hk).1 hwhole
      refine ⟨List.nodup_cons.mpr ⟨hnot, hnodup⟩, fun k m hm => ?_⟩
      rw [List.singleton_append, List.mem_cons, hmem k m hm]
      by_cases hk : p.k = k
      · subst hk
        obtain rfl := Piece.eq_message hm
        exact iff_of_true (.inl rfl) ⟨early, hwhole.append rest⟩
      · rw [wholeAt_snoc_ne hk]
        exact or_iff_right fun heq => hk heq.symm
    · rename_i hwhole
      refine ⟨hnodup, fun k m hm => ?_⟩
      rw [List.nil_append, hmem k m hm]
      by_cases hk : p.k = k
      · subst hk
        obtain rfl := Piece.eq_message hm
        exact and_congr_left fun _ => iff_of_true hwhole early
      · rw [wholeAt_snoc_ne hk]

end

/-- Over any interleaving in which an index is used by one incomplete message at a time, the handler dispatches each message
    whose fragments all arrive, once, in the order in which they become complete, and nothing else; what is left in the table
    are the messages of which some fragments have arrived and not all. -/
theorem reused_indices_deliver (msgs : List Message) (pieces : List (Piece msgs)) (h : OneAtATime pieces) :
    ∃ table outcomes, onNotifications ∅ (pieces.map Piece.raw) = (table, outcomes) ∧
      (∀ pre p post, pieces = pre ++ p :: post → outcomes[pre.length]? = some (outcomeAt pre p)) ∧
      (∃ order : List Nat, outcomes.filterMap NotifyOutcome.payload? = payloadsAt msgs order ∧ order.Nodup ∧
        ∀ k m, msgs[k]? = some m → (k ∈ order ↔ WholeAt pieces k m)) ∧
      ∀ i, i ∈ table ↔ ∃ k m, msgs[k]? = some m ∧ m.index = i ∧ BegunAt pieces k ∧ ¬WholeAt pieces k m := by
  obtain ⟨table, hrun, htable⟩ := TracksAt.run TracksAt.empty (List.nil_append pieces ▸ h)
  obtain ⟨hnodup, hmem⟩ := completedAt_spec (List.nil_append pieces ▸ h)
  rw [List.nil_append] at htable
  refine ⟨table, _, hrun, ?_, ⟨_, payloads_outcomesAt, hnodup, fun k m hm => ?_⟩, fun i => ⟨fun hi => ?_, ?_⟩⟩
  · have hplace : ∀ {rest pre : List (Piece msgs)} before p after, rest = before ++ p :: after →
        (outcomesAt pre rest)[before.length]? = some (outcomeAt (pre ++ before) p) := by
      intro rest
      induction rest with
      | nil => exact fun before p after heq => absurd heq (by simp)
      | cons q rest ih =>
        intro pre before p after heq
        cases before with
        | nil =>
          obtain ⟨rfl, -⟩ := List.cons.inj heq
          rw [List.append_nil]
          rfl
        | cons c before =>
          obtain ⟨rfl, hrest⟩ := List.cons.inj heq
          rw [outcomesAt, List.length_cons, List.getElem?_cons_succ, ih before p after hrest, List.append_assoc]
          rfl
    exact fun pre p post heq => hplace pre p post heq
  · rw [hmem k m hm]
    exact and_iff_right not_wholeAt_nil
  · obtain ⟨r, hr⟩ := Option.isSome_iff_exists.mp (AList.lookup_isSome.mpr hi)
    exact htable.only i r hr
  · rintro ⟨k, m, hm, rfl, hbegun, hnot⟩
    obtain ⟨r, hr, -⟩ := htable.record k m hm hbegun hnot
    exact AList.lookup_isSome.mp (by rw [hr]; rfl)

/-- The last two messages have the index of the first. -/
def reusedMessages : List Message :=
  [⟨7, [[0x41], [0x42]], List.cons_ne_nil _ _⟩, ⟨8, [[0x43], [0x44]], List.cons_ne_nil _ _⟩, ⟨7, [[0x45]], List.cons_ne_nil _ _⟩,
    ⟨7, [[0x46], [0x47]], List.cons_ne_nil _ _⟩]

/-- Fragments of the second message arrive in between, and one of the last is lost. -/
def reusedPieces : List (Piece reusedMessages) :=
  [⟨0, ⟨reusedMessages[0], 1, encodeFragment 7 1 2 [0x42], by decide, by decide +kernel⟩, rfl⟩,
    ⟨1, ⟨reusedMessages[1], 0, encodeFragment 8 0 2 [0x43], by decide, by decide +kernel⟩, rfl⟩,
    ⟨0, ⟨reusedMessages[0], 0, encodeFragment 7 0 2 [0x41], by decide, by decide +kernel⟩, rfl⟩,
    ⟨2, ⟨reusedMessages[2], 0, encodeFragment 7 0 1 [0x45], by decide, by decide +kernel⟩, rfl⟩,
    ⟨3, ⟨reusedMessages[3], 1, encodeFragment 7 1 2 [0x47], by decide, by decide +kernel⟩, rfl⟩,
    ⟨1, ⟨reusedMessages[1], 1, encodeFragment 8 1 2 [0x44], by decide, by decide +kernel⟩, rfl⟩]

theorem reusedPieces_oneAtATime : OneAtATime reusedPieces := .of_take (by decide) (by decide)

theorem reused_indices_deliver_sample : ∃ table outcomes,
    onNotifications ∅ (reusedPieces.map Piece.raw) = (table, outcomes) ∧ outcomes[3]? = some (.dispatched [0x45]) ∧
      7 ∈ table ∧ 8 ∉ table := by
  obtain ⟨table, outcomes, hrun, hout, -, htable⟩ := reused_indices_deliver reusedMessages reusedPieces reusedPieces_oneAtATime
  refine ⟨table, outcomes, hrun, ?_, (htable 7).mpr ⟨3, _, rfl, rfl, by decide, by decide⟩, fun h => ?_⟩
  · exact hout (reusedPieces.take 3) reusedPieces[3] (reusedPieces.drop 4) rfl
  · obtain ⟨k, m, hm, hindex, -, hnot⟩ := (htable 8).mp h
    obtain ⟨hk, rfl⟩ := List.getElem?_eq_some_iff.mp hm
    revert hindex hnot
    revert k
    decide

end PendantClient
