import Mathlib.Data.List.Defs
import PendantClient.Lib.Parts
import PendantClient.Theorems.Fragment

/-! Reassembly of incoming messages. The record of a message holds exactly the fragments that arrived;
    the count of distinct fragment numbers reaches the expected count with the last missing fragment. -/

namespace PendantClient

/-! ### Messages and arrivals -/

/-- A message as its sender cuts it: its index and its payload in fragment order, at least one fragment. -/
structure Message where
  index : Nat
  fragments : List Bytes
  cut : fragments ≠ []
  deriving DecidableEq

/-- The fragments one after the other. -/
def Message.payload (m : Message) : Bytes := m.fragments.flatten

/-- One notification: some bytes that decode to fragment `seq` of a message. -/
structure Arrival where
  message : Message
  seq : Nat
  raw : Bytes
  inRange : seq < message.fragments.length
  decodes : decodeFragment raw = .ok ⟨message.index, seq, message.fragments.length, message.fragments[seq]⟩

/-- The bytes of the fragment that arrives. -/
def Arrival.fragment (a : Arrival) : Bytes := a.message.fragments.get ⟨a.seq, a.inRange⟩

theorem Arrival.decodeFragment_raw (a : Arrival) :
    decodeFragment a.raw = .ok ⟨a.message.index, a.seq, a.message.fragments.length, a.fragment⟩ := a.decodes

/-- The fragment numbers of `m` among the arrivals. -/
def seqsOf (arrivals : List Arrival) (m : Message) : List Nat :=
  (arrivals.filter fun a => a.message = m).map (·.seq)

/-- Every fragment of `m` is among the arrivals. -/
def AllArrived (arrivals : List Arrival) (m : Message) : Prop := Parts.Complete m.fragments.length (seqsOf arrivals m)

instance (arrivals : List Arrival) (m : Message) : Decidable (AllArrived arrivals m) :=
  inferInstanceAs (Decidable (Parts.Complete _ _))

/-- A fragment of the message has arrived. -/
def SomeArrived (arrivals : List Arrival) (m : Message) : Prop := ∃ a ∈ arrivals, a.message = m

/-- No fragment arrives for a message that is already complete. -/
def BeforeComplete (arrivals : List Arrival) : Prop :=
  ∀ pre a post, arrivals = pre ++ a :: post → ¬AllArrived pre a.message

section
variable {arrivals : List Arrival} {a : Arrival} {m : Message}

theorem mem_seqsOf {s : Nat} : s ∈ seqsOf arrivals m ↔ ∃ a ∈ arrivals, a.message = m ∧ a.seq = s := by
  simp only [seqsOf, List.mem_map, List.mem_filter, decide_eq_true_eq, and_assoc]

theorem seqsOf_append_self : seqsOf (arrivals ++ [a]) a.message = seqsOf arrivals a.message ++ [a.seq] := by
  simp [seqsOf]

theorem seqsOf_append_ne (h : a.message ≠ m) : seqsOf (arrivals ++ [a]) m = seqsOf arrivals m := by
  simp [seqsOf, h]

theorem allArrived_append_ne (h : a.message ≠ m) : AllArrived (arrivals ++ [a]) m ↔ AllArrived arrivals m := by
  unfold AllArrived
  rw [seqsOf_append_ne h]

theorem someArrived_append : SomeArrived (arrivals ++ [a]) m ↔ SomeArrived arrivals m ∨ a.message = m := by
  simp only [SomeArrived, List.mem_append, List.mem_singleton]
  constructor
  · rintro ⟨b, hb | rfl, hm⟩
    · exact Or.inl ⟨b, hb, hm⟩
    · exact Or.inr hm
  · rintro (⟨b, hb, hm⟩ | hm)
    · exact ⟨b, Or.inl hb, hm⟩
    · exact ⟨a, Or.inr rfl, hm⟩

end

theorem beforeComplete_of_take {arrivals : List Arrival}
    (h : ∀ i (hi : i < arrivals.length), ¬AllArrived (arrivals.take i) arrivals[i].message) : BeforeComplete arrivals := by
  rintro pre a post rfl
  simpa using h pre.length (by simp)

/-! ### The record of one message -/

/-- The record holds exactly the fragments `got` of the message. -/
structure Reassembly.Holds (r : Reassembly) (m : Message) (got : List Nat) : Prop where
  below : ∀ s ∈ got, s < m.fragments.length
  expected : r.expectedFragments = if got = [] then 0 else m.fragments.length
  received : ∀ s, r.received.lookup s = if s ∈ got then m.fragments[s]? else none

theorem Reassembly.Holds.empty (m : Message) : Reassembly.Holds {} m [] where
  below s hs := by cases hs
  expected := rfl
  received s := by simp [AList.lookup_empty]

theorem joinReceived_of_lookup {received : AList fun _ : Nat => Bytes} {keys : List Nat} {f : Nat → Bytes}
    (h : ∀ k ∈ keys, received.lookup k = some (f k)) : joinReceived received keys = .ok (keys.map f).flatten := by
  induction keys with
  | nil => rfl
  | cons k keys ih =>
    rw [joinReceived, h k List.mem_cons_self, ih fun k' hk => h k' (List.mem_cons_of_mem k hk)]
    rfl

/-- Adding fragment `s` stores it, and completes the message exactly when no other fragment is missing. -/
theorem Reassembly.Holds.add {r : Reassembly} {m : Message} {got : List Nat} (h : r.Holds m got) {s : Nat}
    (hs : s < m.fragments.length) :
    ∃ r' : Reassembly, r'.Holds m (got ++ [s]) ∧
      r.add ⟨m.index, s, m.fragments.length, m.fragments[s]⟩ =
        (r', .ok (if Parts.Complete m.fragments.length (got ++ [s]) then some m.payload else none)) := by
  have hpos : m.fragments.length ≠ 0 := by omega
  have hexp : (if m.fragments.length ≠ 0 ∧ r.expectedFragments = 0 then m.fragments.length
      else r.expectedFragments) = m.fragments.length := by
    rw [h.expected]
    by_cases hg : got = []
    · rw [if_pos hg, if_pos ⟨hpos, rfl⟩]
    · rw [if_neg hg, if_neg fun hn => hpos hn.2]
  have hr' : (⟨m.fragments.length, r.received.insert s m.fragments[s]⟩ : Reassembly).Holds m (got ++ [s]) := by
    refine ⟨fun t ht => ?_, by simp, fun t => ?_⟩
    · rcases List.mem_append.mp ht with ht | ht
      · exact h.below t ht
      · exact List.mem_singleton.mp ht ▸ hs
    · by_cases hts : t = s
      · subst hts
        simp [AList.lookup_insert, hs]
      · rw [AList.lookup_insert_ne hts, h.received]
        simp [hts]
  refine ⟨_, hr', ?_⟩
  -- The keys are the distinct numbers received, so their count decides completeness.
  have hkeys : ∀ t, t ∈ (r.received.insert s m.fragments[s]).keys ↔ t ∈ got ++ [s] := fun t => by
    rw [← AList.mem_keys, ← AList.lookup_isSome, hr'.received t]
    split
    · rename_i ht
      simp [ht, hr'.below t ht]
    · rename_i ht
      simp [ht]
  have hcount := Parts.complete_iff_length (AList.keys_nodup (r.received.insert s m.fragments[s]))
    (n := m.fragments.length) fun k hk => hr'.below k ((hkeys k).mp hk)
  rw [Parts.complete_congr hkeys] at hcount
  simp only [Reassembly.add, hexp]
  by_cases hc : Parts.Complete m.fragments.length (got ++ [s])
  · have hfragments : (List.range m.fragments.length).map (fun i => m.fragments[i]?.getD []) = m.fragments := by
      apply List.ext_getElem
      · simp
      · intro i _ hi
        simp [hi]
    rw [if_pos ⟨hpos, hcount.mp hc⟩, if_pos hc, joinReceived_of_lookup (f := fun i => m.fragments[i]?.getD []), hfragments]
    · rfl
    · intro i hi
      have hlt := List.mem_range.mp hi
      rw [hr'.received i, if_pos (hc i hlt), List.getElem?_eq_getElem hlt]
      rfl
  · rw [if_neg fun hn => hc (hcount.mpr hn.2), if_neg hc]

/-! ### The table over a run -/

/-- The table after some arrivals: for each message with a fragment and not complete its record, and
    nothing else. -/
structure Tracks (table : ReassemblyTable) (msgs : List Message) (arrivals : List Arrival) : Prop where
  record : ∀ m ∈ msgs, SomeArrived arrivals m → ¬AllArrived arrivals m →
    ∃ r, table.lookup m.index = some r ∧ r.Holds m (seqsOf arrivals m)
  only : ∀ i r, table.lookup i = some r → ∃ m ∈ msgs, m.index = i ∧ SomeArrived arrivals m ∧ ¬AllArrived arrivals m

/-- What the handler is to do on arrival `a` after the arrivals `pre`. -/
def expectedOutcome (pre : List Arrival) (a : Arrival) : NotifyOutcome :=
  if AllArrived (pre ++ [a]) a.message then .dispatched a.message.payload else .stored

section
variable {table : ReassemblyTable} {msgs : List Message} {pre : List Arrival} {a : Arrival}

theorem Tracks.empty : Tracks ∅ msgs [] where
  record m _ hs _ := by
    obtain ⟨a, ha, -⟩ := hs
    cases ha
  only i r h := by
    rw [AList.lookup_empty] at h
    cases h

theorem message_eq_of_index (distinct : (msgs.map (·.index)).Nodup) {m m' : Message} (hm : m ∈ msgs) (hm' : m' ∈ msgs)
    (h : m.index = m'.index) : m = m' := List.inj_on_of_nodup_map distinct hm hm' h

theorem Tracks.current (h : Tracks table msgs pre) (distinct : (msgs.map (·.index)).Nodup) (ha : a.message ∈ msgs)
    (early : ¬AllArrived pre a.message) :
    ((table.lookup a.message.index).getD {}).Holds a.message (seqsOf pre a.message) := by
  by_cases hs : SomeArrived pre a.message
  · obtain ⟨r, hr, hh⟩ := h.record a.message ha hs early
    rwa [hr, Option.getD_some]
  · have hnone : table.lookup a.message.index = none := by
      cases hl : table.lookup a.message.index with
      | none => rfl
      | some r =>
        obtain ⟨m, hm, hi, hsm, -⟩ := h.only _ r hl
        exact absurd (message_eq_of_index distinct hm ha hi ▸ hsm) hs
    have hnil : seqsOf pre a.message = [] := by
      rw [List.eq_nil_iff_forall_not_mem]
      intro s hmem
      obtain ⟨b, hb, hbm, -⟩ := mem_seqsOf.mp hmem
      exact hs ⟨b, hb, hbm⟩
    rw [hnone, hnil]
    exact Reassembly.Holds.empty _

/-- One arrival: the outcome is the expected one, and the table tracks the arrivals up to it. -/
theorem Tracks.onData (h : Tracks table msgs pre) (distinct : (msgs.map (·.index)).Nodup) (ha : a.message ∈ msgs)
    (early : ¬AllArrived pre a.message) :
    ∃ table', PendantClient.onData table a.raw = (table', expectedOutcome pre a) ∧ Tracks table' msgs (pre ++ [a]) := by
  obtain ⟨r', hr', hadd⟩ := (h.current distinct ha early).add a.inRange
  rw [← seqsOf_append_self] at hr' hadd
  -- Another message keeps its record, whether the entry at this index is stored or popped.
  have others : ∀ {t : ReassemblyTable}, (∀ i, i ≠ a.message.index → t.lookup i = table.lookup i) →
      ∀ m ∈ msgs, m ≠ a.message → SomeArrived (pre ++ [a]) m → ¬AllArrived (pre ++ [a]) m →
        ∃ r, t.lookup m.index = some r ∧ r.Holds m (seqsOf (pre ++ [a]) m) := by
    intro t ht m hm hne hs hc
    rw [seqsOf_append_ne (Ne.symm hne), ht m.index fun hi => hne (message_eq_of_index distinct hm ha hi)]
    rw [allArrived_append_ne (Ne.symm hne)] at hc
    exact h.record m hm ((someArrived_append.mp hs).resolve_right (Ne.symm hne)) hc
  have othersOnly : ∀ {i : Nat} {r : Reassembly}, i ≠ a.message.index → table.lookup i = some r →
      ∃ m ∈ msgs, m.index = i ∧ SomeArrived (pre ++ [a]) m ∧ ¬AllArrived (pre ++ [a]) m := by
    intro i r hi hr
    obtain ⟨m, hm, rfl, hs, hc⟩ := h.only i r hr
    have hne : a.message ≠ m := fun he => hi (by rw [he])
    exact ⟨m, hm, rfl, someArrived_append.mpr (Or.inl hs), by rwa [allArrived_append_ne hne]⟩
  unfold PendantClient.onData expectedOutcome
  rw [a.decodes]
  dsimp only
  rw [hadd]
  dsimp only
  by_cases hc : AllArrived (pre ++ [a]) a.message
  · rw [if_pos hc, if_pos (show Parts.Complete _ (seqsOf (pre ++ [a]) a.message) from hc)]
    refine ⟨_, rfl, ?_, ?_⟩
    · intro m hm hs hm'
      by_cases hma : m = a.message
      · exact absurd (hma ▸ hc) hm'
      · exact others (fun i hi => by rw [AList.lookup_erase_ne hi, AList.lookup_insert_ne hi]) m hm hma hs hm'
    · intro i r hr
      by_cases hi : i = a.message.index
      · rw [hi, AList.lookup_erase] at hr
        cases hr
      · rw [AList.lookup_erase_ne hi, AList.lookup_insert_ne hi] at hr
        exact othersOnly hi hr
  · rw [if_neg hc, if_neg (show ¬Parts.Complete _ (seqsOf (pre ++ [a]) a.message) from hc)]
    refine ⟨_, rfl, ?_, ?_⟩
    · intro m hm hs hm'
      by_cases hma : m = a.message
      · subst hma
        exact ⟨r', AList.lookup_insert _, hr'⟩
      · exact others (fun i hi => AList.lookup_insert_ne hi) m hm hma hs hm'
    · intro i r hr
      by_cases hi : i = a.message.index
      · exact ⟨a.message, ha, hi.symm, someArrived_append.mpr (Or.inr rfl), hc⟩
      · rw [AList.lookup_insert_ne hi] at hr
        exact othersOnly hi hr

end

/-- The outcomes of some arrivals after others. -/
def expectedOutcomes (pre : List Arrival) : List Arrival → List NotifyOutcome
  | [] => []
  | a :: rest => expectedOutcome pre a :: expectedOutcomes (pre ++ [a]) rest

/-- A run of the handler: every outcome is the expected one and the table tracks all arrivals. -/
theorem Tracks.run {msgs : List Message} (distinct : (msgs.map (·.index)).Nodup) : ∀ {rest pre : List Arrival}
    {table : ReassemblyTable}, Tracks table msgs pre → (∀ a ∈ rest, a.message ∈ msgs) →
    (∀ pre' a post, rest = pre' ++ a :: post → ¬AllArrived (pre ++ pre') a.message) →
    ∃ table', onNotifications table (rest.map (·.raw)) = (table', expectedOutcomes pre rest) ∧
      Tracks table' msgs (pre ++ rest) := by
  intro rest
  induction rest with
  | nil =>
    intro pre table h _ _
    exact ⟨table, rfl, by rwa [List.append_nil]⟩
  | cons a rest ih =>
    intro pre table h known early
    obtain ⟨t₁, h₁, ht₁⟩ := h.onData distinct (known a (by simp)) (by simpa using early [] a rest rfl)
    obtain ⟨t₂, h₂, ht₂⟩ := ih ht₁ (fun b hb => known b (List.mem_cons_of_mem _ hb)) fun pre' b post he => by
      have := early (a :: pre') b post (by rw [he, List.cons_append])
      rwa [List.append_cons] at this
    refine ⟨t₂, ?_, by rwa [List.append_cons]⟩
    rw [List.map_cons, onNotifications, h₁]
    dsimp only
    rw [h₂, expectedOutcomes]

/-! ### The dispatches of a run -/

theorem expectedOutcomes_getElem? : ∀ {rest pre : List Arrival} (pre' : List Arrival) (a : Arrival) (post : List Arrival),
    rest = pre' ++ a :: post → (expectedOutcomes pre rest)[pre'.length]? = some (expectedOutcome (pre ++ pre') a) := by
  intro rest
  induction rest with
  | nil => intro pre pre' a post h; simp at h
  | cons b rest ih =>
    intro pre pre' a post h
    cases pre' with
    | nil =>
      obtain ⟨rfl, rfl⟩ := List.cons.inj h
      rw [List.append_nil]
      rfl
    | cons c pre' =>
      obtain ⟨rfl, hrest⟩ := List.cons.inj h
      rw [expectedOutcomes, List.length_cons, List.getElem?_cons_succ, ih pre' a post hrest, List.append_assoc]
      rfl

/-- The payloads dispatched at the arrivals of one message. -/
def dispatchesOf (m : Message) : List Arrival → List NotifyOutcome → List Bytes
  | a :: arrivals, .dispatched payload :: outcomes =>
    if a.message = m then payload :: dispatchesOf m arrivals outcomes else dispatchesOf m arrivals outcomes
  | _ :: arrivals, _ :: outcomes => dispatchesOf m arrivals outcomes
  | _, _ => []

theorem dispatchesOf_stored {m : Message} {a : Arrival} {arrivals : List Arrival} {outcomes : List NotifyOutcome} :
    dispatchesOf m (a :: arrivals) (.stored :: outcomes) = dispatchesOf m arrivals outcomes := rfl

/-- A message is dispatched once if its last missing fragment is among the arrivals, and else never. -/
theorem dispatchesOf_expectedOutcomes {m : Message} : ∀ {rest pre : List Arrival},
    (∀ pre' a post, rest = pre' ++ a :: post → ¬AllArrived (pre ++ pre') a.message) →
    dispatchesOf m rest (expectedOutcomes pre rest) =
      if AllArrived (pre ++ rest) m ∧ ¬AllArrived pre m then [m.payload] else [] := by
  intro rest
  induction rest with
  | nil =>
    intro pre _
    rw [List.append_nil, if_neg fun h => h.2 h.1]
    rfl
  | cons a rest ih =>
    intro pre early
    have hrest : dispatchesOf m rest (expectedOutcomes (pre ++ [a]) rest) =
        if AllArrived (pre ++ [a] ++ rest) m ∧ ¬AllArrived (pre ++ [a]) m then [m.payload] else [] :=
      ih fun pre' b post he => by
        have := early (a :: pre') b post (by rw [he, List.cons_append])
        rwa [List.append_cons] at this
    have ha : ¬AllArrived pre a.message := by simpa using early [] a rest rfl
    rw [← List.append_cons] at hrest
    have hmono : AllArrived (pre ++ [a]) m → AllArrived (pre ++ a :: rest) m := fun h =>
      Parts.Complete.mono h fun s hs => by
        obtain ⟨b, hb, hbm⟩ := mem_seqsOf.mp hs
        exact mem_seqsOf.mpr ⟨b, by rw [List.append_cons]; exact List.mem_append_left _ hb, hbm⟩
    rw [expectedOutcomes]
    by_cases hm : a.message = m
    · subst hm
      by_cases hc : AllArrived (pre ++ [a]) a.message
      · rw [expectedOutcome, if_pos hc, dispatchesOf, if_pos rfl, hrest, if_neg fun h => h.2 hc, if_pos ⟨hmono hc, ha⟩]
      · rw [expectedOutcome, if_neg hc, dispatchesOf_stored, hrest]
        simp only [hc, ha]
    · have hsame : AllArrived (pre ++ [a]) m ↔ AllArrived pre m := allArrived_append_ne hm
      rw [← if_congr (and_congr_right fun _ => not_congr hsame) rfl rfl, ← hrest]
      unfold expectedOutcome
      split
      · rw [dispatchesOf, if_neg hm]
      · rw [dispatchesOf_stored]

/-- Over any interleaving of the fragments of any messages, with losses and with repetitions before
    completion, the handler dispatches each complete message once, at the arrival of its last missing
    fragment, with its payload; afterwards the table holds the incomplete messages and nothing else. -/
theorem notify_delivers_complete_messages (msgs : List Message) (distinct : (msgs.map (·.index)).Nodup)
    (arrivals : List Arrival) (known : ∀ a ∈ arrivals, a.message ∈ msgs) (early : BeforeComplete arrivals) :
    ∃ table outcomes, onNotifications ∅ (arrivals.map (·.raw)) = (table, outcomes) ∧
      (∀ pre a post, arrivals = pre ++ a :: post → outcomes[pre.length]? =
        some (if AllArrived (pre ++ [a]) a.message then .dispatched a.message.payload else .stored)) ∧
      (∀ m ∈ msgs, dispatchesOf m arrivals outcomes = if AllArrived arrivals m then [m.payload] else []) ∧
      (∀ i, i ∈ table ↔ ∃ m ∈ msgs, m.index = i ∧ SomeArrived arrivals m ∧ ¬AllArrived arrivals m) ∧
      (∀ m ∈ msgs, ∀ r, table.lookup m.index = some r → r.Holds m (seqsOf arrivals m)) := by
  have hearly : ∀ pre a post, arrivals = pre ++ a :: post → ¬AllArrived ([] ++ pre) a.message := early
  obtain ⟨table, hrun, htable⟩ := Tracks.run distinct Tracks.empty known hearly
  rw [List.nil_append] at htable
  refine ⟨table, _, hrun, fun pre a post h => ?_, fun m _ => ?_, fun i => ⟨fun hi => ?_, ?_⟩, fun m hm r hr => ?_⟩
  · rw [expectedOutcomes_getElem? pre a post h]
    rfl
  · have hnone : ¬AllArrived [] m := fun h => by
      have := h 0 (List.length_pos_iff.mpr m.cut)
      cases this
    rw [dispatchesOf_expectedOutcomes hearly, List.nil_append]
    simp only [hnone, not_false_eq_true, and_true]
  · obtain ⟨r, hr⟩ := Option.isSome_iff_exists.mp (AList.lookup_isSome.mpr hi)
    exact htable.only i r hr
  · rintro ⟨m, hm, rfl, hs, hc⟩
    obtain ⟨r, hr, -⟩ := htable.record m hm hs hc
    exact AList.lookup_isSome.mp (by rw [hr]; rfl)
  · obtain ⟨m', hm', hi, hs, hc⟩ := htable.only _ r hr
    obtain rfl := message_eq_of_index distinct hm' hm hi
    obtain ⟨r', hr', hh⟩ := htable.record m' hm hs hc
    rw [hr] at hr'
    cases hr'
    exact hh

/-- Two messages of two fragments and one of one. -/
def sampleMessages : List Message :=
  [⟨7, [[1], [2]], by decide⟩, ⟨8, [[3]], by decide⟩, ⟨9, [[], [4]], by decide⟩]

/-- They arrive interleaved: the first out of order with a repetition, the last without its second half. -/
def sampleArrivals : List Arrival :=
  [⟨⟨7, [[1], [2]], by decide⟩, 1, encodeFragment 7 1 2 [2], by decide, by decide +kernel⟩,
    ⟨⟨9, [[], [4]], by decide⟩, 0, encodeFragment 9 0 2 [], by decide, by decide +kernel⟩,
    ⟨⟨7, [[1], [2]], by decide⟩, 1, encodeFragment 7 1 2 [2], by decide, by decide +kernel⟩,
    ⟨⟨8, [[3]], by decide⟩, 0, encodeFragment 8 0 1 [3], by decide, by decide +kernel⟩,
    ⟨⟨7, [[1], [2]], by decide⟩, 0, encodeFragment 7 0 2 [1], by decide, by decide +kernel⟩]

theorem notify_delivers_sample : ∃ table outcomes, onNotifications ∅ (sampleArrivals.map (·.raw)) = (table, outcomes) ∧
    outcomes[4]? = some (.dispatched [1, 2]) ∧ (9 ∈ table ∧ 7 ∉ table) := by
  obtain ⟨table, outcomes, hrun, hout, -, htable, -⟩ := notify_delivers_complete_messages sampleMessages (by decide)
    sampleArrivals (by decide) (beforeComplete_of_take (by decide))
  refine ⟨table, outcomes, hrun, ?_, ?_, ?_⟩
  · exact hout (sampleArrivals.take 4) sampleArrivals[4] [] rfl
  · exact (htable 9).mpr (by unfold SomeArrived; decide)
  · exact fun h => absurd ((htable 7).mp h) (by unfold SomeArrived; decide)

end PendantClient
