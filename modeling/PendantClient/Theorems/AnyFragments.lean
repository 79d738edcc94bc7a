import PendantClient.Theorems.Reassembly

/-! Reassembly of whatever fragments arrive. The record counts distinct fragment numbers, and a number from beyond the
    message counts like one of its own: the message is complete too early when such strays stand in for what is
    missing. -/

namespace PendantClient

/-! ### What is due -/

section
variable (frags : List IncomingFragment)

/-- The first number of fragments that is not 0. -/
def announced : Nat := ((frags.find? fun frag => frag.numFragments ≠ 0).map (·.numFragments)).getD 0

/-- The payload received last under a number. -/
def latest (seq : Nat) : Option Bytes := (frags.reverse.find? fun frag => frag.seq = seq).map (·.payload)

/-- The numbers of the fragments. -/
def seqs : List Nat := frags.map (·.seq)

/-- The message, once a count has been announced and every number below it has been received. -/
def assembled : Option Bytes :=
  if announced frags ≠ 0 ∧ Parts.Complete (announced frags) (seqs frags) then
    some ((List.range (announced frags)).map fun seq => (latest frags seq).getD []).flatten
  else none

/-- Numbers are missing, and no fewer numbers from beyond the count have been received. -/
def StraysStandIn : Prop :=
  Parts.missing (announced frags) (seqs frags) ≠ [] ∧
    (Parts.missing (announced frags) (seqs frags)).length ≤ (Parts.strays (announced frags) (seqs frags)).length

instance : Decidable (StraysStandIn frags) := inferInstanceAs (Decidable (_ ∧ _))

/-- One record after these fragments, whatever `add` made of each. -/
def Reassembly.collect : Reassembly := frags.foldl (fun r frag => (r.add frag).1) {}

end

/-! ### The record -/

/-- The record holds the announced count and for each number the last payload. -/
structure Reassembly.Collects (r : Reassembly) (frags : List IncomingFragment) : Prop where
  expected : r.expectedFragments = announced frags
  received : ∀ seq, r.received.lookup seq = latest frags seq

section
variable {r : Reassembly} {frags : List IncomingFragment} {frag : IncomingFragment} {seq : Nat}

theorem announced_concat : announced (frags ++ [frag]) = if announced frags = 0 then frag.numFragments else announced frags := by
  unfold announced
  rw [List.find?_append]
  cases h : frags.find? fun frag => frag.numFragments ≠ 0 with
  | none =>
    rw [Option.none_or, List.find?_singleton]
    by_cases hzero : frag.numFragments = 0 <;> simp [hzero]
  | some first =>
    have := List.find?_some h
    simp_all

theorem latest_concat : latest (frags ++ [frag]) seq = if seq = frag.seq then some frag.payload else latest frags seq := by
  unfold latest
  rw [List.reverse_append, List.reverse_singleton, List.singleton_append, List.find?_cons]
  by_cases h : frag.seq = seq
  · simp [h]
  · simp [h, Ne.symm h]

theorem latest_isSome : (latest frags seq).isSome ↔ seq ∈ seqs frags := by
  simp [latest, seqs]

theorem Reassembly.Collects.empty : Reassembly.Collects {} [] where
  expected := rfl
  received _ := AList.lookup_empty _

/-- What `add` leaves of the record. -/
def Reassembly.stored (r : Reassembly) (frag : IncomingFragment) : Reassembly :=
  ⟨if r.expectedFragments = 0 then frag.numFragments else r.expectedFragments, r.received.insert frag.seq frag.payload⟩

/-- What it returns: the join of the expected numbers, when as many numbers are stored. -/
def Reassembly.joined (r : Reassembly) : Except PyError (Option Bytes) :=
  if r.expectedFragments ≠ 0 ∧ r.expectedFragments ≤ r.received.keys.length then
    (joinReceived r.received (List.range r.expectedFragments)).map some
  else .ok none

theorem Reassembly.add_eq (r : Reassembly) (frag : IncomingFragment) : r.add frag = (r.stored frag, (r.stored frag).joined) := by
  have hexpected : (if frag.numFragments ≠ 0 ∧ r.expectedFragments = 0 then frag.numFragments else r.expectedFragments) =
      if r.expectedFragments = 0 then frag.numFragments else r.expectedFragments := by
    by_cases hn : frag.numFragments = 0 <;> by_cases he : r.expectedFragments = 0 <;> simp [hn, he]
  rw [Reassembly.add, hexpected, Reassembly.stored, Reassembly.joined]
  exact (apply_ite (Prod.mk _) _ _ _).symm

theorem Reassembly.Collects.stored (h : r.Collects frags) (frag : IncomingFragment) :
    (r.stored frag).Collects (frags ++ [frag]) where
  expected := by
    rw [announced_concat, ← h.expected]
    rfl
  received seq := by
    rw [latest_concat]
    by_cases hseq : seq = frag.seq
    · rw [if_pos hseq, hseq]
      exact AList.lookup_insert _
    · rw [if_neg hseq]
      exact (AList.lookup_insert_ne hseq).trans (h.received seq)

theorem Reassembly.collects_collect (frags : List IncomingFragment) : (Reassembly.collect frags).Collects frags := by
  induction frags using List.reverseRecOn with
  | nil => exact .empty
  | append_singleton frags frag ih =>
    rw [Reassembly.collect, List.foldl_append, List.foldl_cons, List.foldl_nil, Reassembly.add_eq]
    exact ih.stored frag

theorem Reassembly.Collects.length_keys (h : r.Collects frags) : r.received.keys.length = (seqs frags).dedup.length := by
  refine List.Perm.length_eq ((List.perm_ext_iff_of_nodup (AList.keys_nodup _) (List.nodup_dedup _)).mpr fun seq => ?_)
  rw [← AList.mem_keys, ← AList.lookup_isSome, h.received, latest_isSome, List.mem_dedup]

/-! ### The join -/

variable {received : AList fun _ : Nat => Bytes} {keys : List Nat}

theorem joinReceived_of_missing (h : ∃ k ∈ keys, received.lookup k = none) :
    ∃ k ∈ keys, joinReceived received keys = .error (.keyError k) := by
  induction keys with
  | nil =>
    obtain ⟨k, hk, -⟩ := h
    cases hk
  | cons k keys ih =>
    cases hlookup : received.lookup k with
    | none => exact ⟨k, List.mem_cons_self, by rw [joinReceived, hlookup]⟩
    | some payload =>
      obtain ⟨k', hk', hnone⟩ := h
      have hne : k' ≠ k := by
        rintro rfl
        rw [hlookup] at hnone
        cases hnone
      obtain ⟨j, hj, herror⟩ := ih ⟨k', (List.mem_cons.mp hk').resolve_left hne, hnone⟩
      refine ⟨j, List.mem_cons_of_mem k hj, ?_⟩
      rw [joinReceived, hlookup, herror]
      rfl

end

/-! ### Every call -/

/-- The join gives what is due, unless strays stand in for missing fragments: then it raises `KeyError`. -/
theorem Reassembly.Collects.joined {r : Reassembly} {frags : List IncomingFragment} (h : r.Collects frags) :
    (¬StraysStandIn frags → r.joined = .ok (assembled frags)) ∧
    (StraysStandIn frags → ∃ seq, r.joined = .error (.keyError seq)) := by
  have hcount : r.expectedFragments ≤ r.received.keys.length ↔
      (Parts.missing (announced frags) (seqs frags)).length ≤ (Parts.strays (announced frags) (seqs frags)).length := by
    rw [h.expected, h.length_keys, Parts.le_length_dedup_iff]
  have hcomplete : Parts.Complete (announced frags) (seqs frags) ↔ Parts.missing (announced frags) (seqs frags) = [] :=
    Parts.complete_iff_missing
  unfold Reassembly.joined
  by_cases hmissing : Parts.missing (announced frags) (seqs frags) = []
  · refine ⟨fun _ => ?_, fun hstrays => absurd hmissing hstrays.1⟩
    rw [hmissing] at hcount
    rw [assembled, ← h.expected]
    by_cases hzero : r.expectedFragments = 0
    · rw [if_neg fun hc => hc.1 hzero, if_neg fun hc => hc.1 hzero]
    · rw [if_pos ⟨hzero, hcount.mpr (Nat.zero_le _)⟩, if_pos ⟨hzero, h.expected ▸ hcomplete.mpr hmissing⟩,
        joinReceived_of_lookup (f := fun seq => (latest frags seq).getD [])]
      · rfl
      · intro seq hseq
        obtain ⟨payload, hlatest⟩ := Option.isSome_iff_exists.mp
          (latest_isSome.mpr (hcomplete.mpr hmissing seq (h.expected ▸ List.mem_range.mp hseq)))
        rw [h.received, hlatest]
        rfl
  · have hdue : assembled frags = none := if_neg fun hc => hmissing (hcomplete.mp hc.2)
    constructor
    · intro hstrays
      rw [if_neg fun hc => hstrays ⟨hmissing, hcount.mp hc.2⟩, hdue]
    · intro hstrays
      obtain ⟨seq, hseq⟩ := List.exists_mem_of_ne_nil _ hmissing
      obtain ⟨hlt, hnone⟩ := List.mem_filter.mp hseq
      have hzero : r.expectedFragments ≠ 0 := by
        rw [h.expected]
        exact Nat.ne_of_gt (Nat.zero_lt_of_lt (List.mem_range.mp hlt))
      have hlookup : r.received.lookup seq = none := by
        rw [h.received, ← Option.not_isSome_iff_eq_none, latest_isSome]
        exact of_decide_eq_true hnone
      obtain ⟨k, -, herror⟩ := joinReceived_of_missing ⟨seq, h.expected ▸ hlt, hlookup⟩
      rw [if_pos ⟨hzero, hcount.mpr hstrays.2⟩, herror]
      exact ⟨k, rfl⟩

/-- A call gives what is due exactly when no strays stand in for missing fragments. -/
theorem add_gives_assembled_iff (before : List IncomingFragment) (frag : IncomingFragment) :
    ((Reassembly.collect before).add frag).2 = .ok (assembled (before ++ [frag])) ↔ ¬StraysStandIn (before ++ [frag]) := by
  obtain ⟨hdue, hraises⟩ := ((Reassembly.collects_collect before).stored frag).joined
  rw [Reassembly.add_eq]
  refine ⟨fun hok hstrays => ?_, hdue⟩
  obtain ⟨seq, herror⟩ := hraises hstrays
  dsimp only at hok
  rw [herror] at hok
  cases hok

/-- A fragment number from beyond the count completes the count: `add` raises, and the handler with it. -/
theorem stray_fragment_raises :
    ((Reassembly.collect [⟨7, 0, 2, [1]⟩]).add ⟨7, 5, 2, [2]⟩).2 = .error (.keyError 1) ∧
    assembled [⟨7, 0, 2, [1]⟩, ⟨7, 5, 2, [2]⟩] = none ∧
    (onNotifications ∅ [encodeFragment 7 0 2 [1], encodeFragment 7 5 2 [2]]).2 = [.stored, .raised (.keyError 1)] := by
  refine ⟨by decide +kernel, by decide +kernel, by decide +kernel⟩

end PendantClient
