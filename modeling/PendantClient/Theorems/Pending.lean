import PendantClient.Theorems.Routing

/-! The tables of pending requests. An entry is taken out by the message it waits for, or by the clean-up of its call;
    what the end of a call leaves in them follows from the messages that came before. -/

namespace PendantClient
open Transition

/-! ### Table lookups after a message -/

section
variable {s : Session} {msg : PendantAllMsg}

theorem lookup_pendingAfter_eq {rid : Int} (h : rid ≠ 0) :
    (s.pendingAfter msg).lookup rid = if msg.requestId = rid then none else s.pending.lookup rid := by
  rw [Session.pendingAfter]
  by_cases heq : msg.requestId = rid
  · rw [if_pos (heq ▸ h), if_pos heq, heq, AList.lookup_erase]
  · rw [if_neg heq]
    split
    · rw [AList.lookup_erase_ne (Ne.symm heq)]
    · rfl

theorem lookup_pendingByOneofAfter_eq (kind : ContentKind) :
    (s.pendingByOneofAfter msg).lookup kind =
      if msg.whichOneof = some kind ∧ s.liveById msg = none then none else s.pendingByOneof.lookup kind := by
  rw [Session.pendingByOneofAfter]
  split
  · rename_i kind' hlive hwhich
    rw [hwhich]
    by_cases hk : kind = kind'
    · rw [hk, AList.lookup_erase, if_pos ⟨rfl, hlive⟩]
    · rw [AList.lookup_erase_ne hk, if_neg fun h => hk (Option.some.inj h.1).symm]
  · rename_i hno
    rw [if_neg]
    rintro ⟨hwhich, hlive⟩
    exact hno kind hlive hwhich

end

/-! ### Replies by kind -/

/-- An outstanding call without an answer, for which a message of the kind would be one. -/
def Waits (s : SessionState) (k : Nat) (kind : ContentKind) : Prop :=
  ∃ c, s.calls[k]? = some c ∧ c.Outstanding ∧ c.expectedOneof = some kind ∧ s.session.futures[k]? = some FutureState.pending

/-- A message without request id, of a kind that some outstanding unanswered call expects, is set as the result of such
    a call. -/
def KindRepliesDelivered (parse : Bytes → Option PendantAllMsg) (acts : List SessionAct) : Prop :=
  ∀ pre payload post t msg kind, acts = pre ++ .inbound payload :: post →
    run (SessionState.step parse) {} pre = some t → parse payload = some msg → msg.requestId = 0 →
    msg.whichOneof = some kind → (∃ k, Waits t k kind) →
    ∃ k, Waits t k kind ∧ (t.session.onInbound parse payload).futures[k]? = some (FutureState.result msg) ∧
      (t.session.onInbound parse payload).inbox = t.session.inbox

/-- A call that expects a kind is made while no call is registered under the kind. -/
def RegistersKind (s : SessionState) : SessionAct → Prop
  | .request (some kind) => kind ∉ s.session.pendingByOneof
  | _ => True

instance (s : SessionState) (a : SessionAct) : Decidable (RegistersKind s a) := by
  unfold RegistersKind
  split <;> infer_instance

/-- The calls that wait for a kind are registered under it. -/
structure WaitersRegistered (s : SessionState) : Prop where
  futures : s.session.futures.length = s.calls.length
  registered : ∀ k kind, Waits s k kind → s.session.pendingByOneof.lookup kind = some k

section
variable {parse : Bytes → Option PendantAllMsg} {s t : SessionState} {a : SessionAct}

theorem Waits.lt {k : Nat} {kind : ContentKind} (h : Waits s k kind) : k < s.calls.length := by
  obtain ⟨c, hc, -⟩ := h
  exact (List.getElem?_eq_some_iff.mp hc).1

theorem WaitersRegistered.quiet (h : WaitersRegistered s) (hq : Quiet s t) : WaitersRegistered t where
  futures := hq.futures.trans (h.futures.trans hq.calls.symm)
  registered k kind := by
    rintro ⟨d, hd, ho, hexp, hpend⟩
    obtain ⟨c, hc, -, hexp', hopen⟩ := hq.same k d hd
    exact hq.kept kind k d (h.registered k kind ⟨c, hc, hopen ho, hexp'.symm.trans hexp, hq.undone k hpend⟩) hd ho

theorem WaitersRegistered.request {expectedOneof : Option ContentKind} (h : WaitersRegistered s)
    (hreg : RegistersKind s (.request expectedOneof)) (hlt : s.session.lastRequestId + 1 < 2 ^ 63) :
    WaitersRegistered (s.request expectedOneof) := by
  rw [request_made hlt]
  constructor
  · dsimp only
    rw [List.length_append, List.length_append, h.futures]
    rfl
  · rintro k kind ⟨c, hc, ho, hexp, hpend⟩
    dsimp only at hc hpend ⊢
    rcases getElem?_concat_eq_some.mp hc with hc | ⟨rfl, rfl⟩
    · have hk := (List.getElem?_eq_some_iff.mp hc).1
      rw [List.getElem?_append_left (h.futures.symm ▸ hk)] at hpend
      exact lookup_registered_of (h.registered k kind ⟨c, hc, ho, hexp, hpend⟩)
    · dsimp only at hexp
      rw [hexp] at hreg ⊢
      rw [SessionState.registered, if_neg hreg, AList.lookup_insert]

/-- A message of a kind is taken by the call registered under it, if that call waits. -/
theorem taker_of_waits {msg : PendantAllMsg} {k : Nat} {kind : ContentKind} (hlive : s.session.liveById msg = none)
    (hkind : msg.whichOneof = some kind) (hl : s.session.pendingByOneof.lookup kind = some k) (hw : Waits s k kind) :
    s.session.taker msg = some k := by
  obtain ⟨-, -, -, -, hpend⟩ := hw
  rw [Session.taker, hlive, Option.none_or, Session.liveByKind, hkind, Option.bind_some, hl]
  exact Session.live_eq_some.mpr ⟨rfl, hpend⟩

theorem WaitersRegistered.inbound {payload : Bytes} {msg : PendantAllMsg} (h : WaitersRegistered s)
    (hmsg : parse payload = some msg) : WaitersRegistered { s with session := s.session.onInbound parse payload } := by
  rw [Session.onInbound_eq hmsg]
  constructor
  · dsimp only
    split
    · rw [List.length_set]
      exact h.futures
    · exact h.futures
  · rintro k kind ⟨c, hc, ho, hexp, hpend⟩
    dsimp only at hc hpend ⊢
    -- a call that still waits is not the one that took the message
    have hbefore : s.session.futures[k]? = some FutureState.pending ∧ s.session.taker msg ≠ some k := by
      split at hpend
      · rename_i f hf
        by_cases hfk : f = k
        · subst hfk
          rw [List.getElem?_set] at hpend
          simp at hpend
        · rw [List.getElem?_set_ne hfk] at hpend
          exact ⟨hpend, fun h => hfk (Option.some.inj (hf.symm.trans h))⟩
      · rename_i hnone
        exact ⟨hpend, by rw [hnone]; simp⟩
    have hw : Waits s k kind := ⟨c, hc, ho, hexp, hbefore.1⟩
    have hl := h.registered k kind hw
    rw [lookup_pendingByOneofAfter_eq, if_neg]
    · exact hl
    · rintro ⟨hkind, hlive⟩
      exact hbefore.2 (taker_of_waits hlive hkind hl hw)

theorem WaitersRegistered.step (h : WaitersRegistered s) (hreg : RegistersKind s a) (hstep : s.step parse a = some t) :
    WaitersRegistered t := by
  obtain ⟨expectedOneof, rfl, hlt, rfl⟩ | ⟨payload, msg, rfl, hmsg, rfl⟩ | ⟨-, -, hquiet⟩ := step_cases hstep
  · exact h.request hreg hlt
  · exact h.inbound hmsg
  · exact h.quiet hquiet

end

/-- In a run in which no call is made while its kind has an entry, the fallback loses no reply. -/
theorem kind_replies_delivered (parse : Bytes → Option PendantAllMsg) (acts : List SessionAct)
    (hcond : Meets (SessionState.step parse) RegistersKind {} acts) : KindRepliesDelivered parse acts := by
  rintro pre payload post t msg kind rfl hrun hmsg hid hkind ⟨k, hw⟩
  have hstart : WaitersRegistered {} := ⟨rfl, by rintro k kind ⟨c, hc, -⟩; cases hc⟩
  have hreg : WaitersRegistered t :=
    run_invariant_of_meets (fun _ _ _ h hc hs => WaitersRegistered.step h hc hs) hcond.of_append hrun hstart
  have hlive : t.session.liveById msg = none := by
    rw [Session.liveById, if_neg (by simp [hid])]
  have htaker := taker_of_waits hlive hkind (hreg.registered k kind hw) hw
  have hlt : k < t.session.futures.length := hreg.futures.symm ▸ hw.lt
  refine ⟨k, hw, ?_⟩
  rw [Session.onInbound_eq hmsg, htaker]
  exact ⟨List.getElem?_set_self hlt, rfl⟩

/-- A `device_info` reply without `response_data`, on the wire. -/
def namelessReply : Bytes := [0x0A, 0x00]

/-- A reply of the device's kind without a request id. -/
def namelessReplyMsg : PendantAllMsg := { content := some (.other .deviceInfo nofun) }

/-- The parser on that reply. -/
def parseNamelessReply (payload : Bytes) : Option PendantAllMsg :=
  if payload = namelessReply then some namelessReplyMsg else none

/-- Two requests of a kind, one after the other, each answered without an id. -/
theorem kind_replies_delivered_sample :
    let acts : List SessionAct := [.request (some .deviceInfo), .sent 0, .inbound namelessReply, .complete 0,
      .request (some .deviceInfo), .inbound namelessReply, .sent 1, .complete 1]
    KindRepliesDelivered parseNamelessReply acts ∧
      (run (SessionState.step parseNamelessReply) {} acts).map (fun s => (s.calls.map (·.phase), s.session.inbox)) =
        some ([.returned namelessReplyMsg, .returned namelessReplyMsg], []) :=
  ⟨kind_replies_delivered parseNamelessReply _ (by decide +kernel), by decide +kernel⟩

/-- The second of two requests of a kind is not registered, nor is a request after one whose send failed: their
    replies are lost. -/
theorem kind_reply_lost :
    ¬KindRepliesDelivered parseNamelessReply [.request (some .deviceInfo), .request (some .deviceInfo), .sent 0, .sent 1,
        .inbound namelessReply, .inbound namelessReply] ∧
    ¬KindRepliesDelivered parseNamelessReply [.request (some .deviceInfo), .sendFails 0, .request (some .deviceInfo),
        .sent 1, .inbound namelessReply] := by
  constructor
  · intro h
    obtain ⟨k, ⟨-, -, -, -, hpend⟩, hres, -⟩ := h [.request (some .deviceInfo), .request (some .deviceInfo), .sent 0,
      .sent 1, .inbound namelessReply] namelessReply [] _ namelessReplyMsg .deviceInfo rfl rfl rfl rfl rfl
      ⟨1, _, rfl, .inr rfl, rfl, rfl⟩
    exact absurd (hpend.symm.trans hres) (by simp)
  · intro h
    obtain ⟨k, hw, hres, -⟩ := h [.request (some .deviceInfo), .sendFails 0, .request (some .deviceInfo), .sent 1]
      namelessReply [] _ namelessReplyMsg .deviceInfo rfl rfl rfl rfl rfl ⟨1, _, rfl, .inr rfl, rfl, rfl⟩
    match k with
    | 0 =>
      obtain ⟨c, hc, ho, -⟩ := hw
      cases hc
      rcases ho with ho | ho <;> cases ho
    | 1 => cases hres
    | k + 2 => cases hres

/-! ### What a call leaves in the tables -/

/-- Both tables refer only to futures of calls that have not returned or raised. -/
def TablesLive (s : SessionState) : Prop :=
  ∀ f, (∃ rid, s.session.pending.lookup rid = some f) ∨ (∃ kind, s.session.pendingByOneof.lookup kind = some f) →
    ∃ c, s.calls[f]? = some c ∧ c.Outstanding

/-- A message arrives that carries the request id of the `k`-th call. -/
def BringsId (parse : Bytes → Option PendantAllMsg) (k : Nat) (s : SessionState) (a : SessionAct) : Prop :=
  ∃ payload msg c, a = .inbound payload ∧ parse payload = some msg ∧ s.calls[k]? = some c ∧ msg.requestId = c.requestId

/-- A message arrives of the kind that the `k`-th call expects, and no future waits for it by request id; or the call is
    made while its kind has an entry. -/
def BringsKind (parse : Bytes → Option PendantAllMsg) (k : Nat) (s : SessionState) (a : SessionAct) : Prop :=
  (∃ payload msg c kind, a = .inbound payload ∧ parse payload = some msg ∧ s.calls[k]? = some c ∧
    c.expectedOneof = some kind ∧ msg.whichOneof = some kind ∧ s.session.liveById msg = none) ∨
  ∃ kind, a = .request (some kind) ∧ s.session.lastRequestId + 1 < 2 ^ 63 ∧ s.calls.length = k ∧
    kind ∈ s.session.pendingByOneof

/-- The step ends the `k`-th call `c`. -/
def EndsCall (s t : SessionState) (k : Nat) (c : RequestCall) : Prop :=
  s.calls[k]? = some c ∧ c.Outstanding ∧ ∃ d, t.calls[k]? = some d ∧ ¬d.Outstanding

/-- Whenever a call ends, a message with its request id has come since it was made; and if it ends inside
    `send_command`, the fallback has been taken from it, or never was its own. -/
def EndsCollected (parse : Bytes → Option PendantAllMsg) (acts : List SessionAct) : Prop :=
  ∀ pre a post s t k c, acts = pre ++ a :: post → run (SessionState.step parse) {} pre = some s →
    s.step parse a = some t → EndsCall s t k c →
    Happens (SessionState.step parse) (BringsId parse k) {} pre ∧
      (c.phase = .sending → c.expectedOneof.isSome →
        Happens (SessionState.step parse) (BringsKind parse k) {} pre)

/-- What is in the tables, from the steps that led to the state. -/
structure Tables (parse : Bytes → Option PendantAllMsg) (pre : List SessionAct) (s : SessionState) : Prop where
  ids : ∀ (k : Nat) c, s.calls[k]? = some c → 0 < c.requestId ∧ c.requestId ≤ s.session.lastRequestId
  byId : ∀ rid f, s.session.pending.lookup rid = some f → ∃ c, s.calls[f]? = some c ∧ (c.requestId : Int) = rid
  byKind : ∀ kind f, s.session.pendingByOneof.lookup kind = some f →
    ∃ c, s.calls[f]? = some c ∧ c.expectedOneof = some kind
  pending : ∀ (k : Nat) c, s.calls[k]? = some c → (s.session.pending.lookup (c.requestId : Int) = some k ↔
    ¬Happens (SessionState.step parse) (BringsId parse k) {} pre)
  fallback : ∀ (k : Nat) c kind, s.calls[k]? = some c → c.Outstanding → c.expectedOneof = some kind →
    (s.session.pendingByOneof.lookup kind = some k ↔
      ¬Happens (SessionState.step parse) (BringsKind parse k) {} pre)
  idMade : ∀ k, Happens (SessionState.step parse) (BringsId parse k) {} pre → k < s.calls.length
  kindMade : ∀ k, Happens (SessionState.step parse) (BringsKind parse k) {} pre → k < s.calls.length

section
variable {parse : Bytes → Option PendantAllMsg} {pre : List SessionAct} {s t : SessionState} {a : SessionAct}

theorem BringsId.lt {k : Nat} (h : BringsId parse k s a) : k < s.calls.length := by
  obtain ⟨payload, msg, c, -, -, hc, -⟩ := h
  exact (List.getElem?_eq_some_iff.mp hc).1

theorem not_bringsId {k : Nat} (h : ∀ payload msg, a = .inbound payload → parse payload ≠ some msg) :
    ¬BringsId parse k s a := by
  rintro ⟨payload, msg, c, ha, hmsg, -⟩
  exact h payload msg ha hmsg

theorem bringsId_inbound {payload : Bytes} {msg : PendantAllMsg} {k : Nat} {c : RequestCall}
    (hmsg : parse payload = some msg) (hc : s.calls[k]? = some c) :
    BringsId parse k s (.inbound payload) ↔ msg.requestId = c.requestId := by
  constructor
  · rintro ⟨payload', msg', c', ha, hmsg', hc', heq⟩
    cases ha
    cases hmsg.symm.trans hmsg'
    cases hc.symm.trans hc'
    exact heq
  · exact fun heq => ⟨payload, msg, c, rfl, hmsg, hc, heq⟩

theorem bringsKind_inbound {payload : Bytes} {msg : PendantAllMsg} {k : Nat} {c : RequestCall} {kind : ContentKind}
    (hmsg : parse payload = some msg) (hc : s.calls[k]? = some c) (hexp : c.expectedOneof = some kind) :
    BringsKind parse k s (.inbound payload) ↔ msg.whichOneof = some kind ∧ s.session.liveById msg = none := by
  constructor
  · rintro (⟨payload', msg', c', kind', ha, hmsg', hc', hexp', hwhich, hlive⟩ | ⟨_, ha, -⟩)
    · cases ha
      cases hmsg.symm.trans hmsg'
      cases hc.symm.trans hc'
      cases hexp.symm.trans hexp'
      exact ⟨hwhich, hlive⟩
    · cases ha
  · rintro ⟨hwhich, hlive⟩
    exact .inl ⟨payload, msg, c, kind, rfl, hmsg, hc, hexp, hwhich, hlive⟩

theorem bringsKind_request {expectedOneof : Option ContentKind} {k : Nat} :
    BringsKind parse k s (.request expectedOneof) ↔ s.session.lastRequestId + 1 < 2 ^ 63 ∧ s.calls.length = k ∧
      ∃ kind, expectedOneof = some kind ∧ kind ∈ s.session.pendingByOneof := by
  constructor
  · rintro (⟨_, _, _, _, ha, -⟩ | ⟨kind, ha, hlt, hk, hmem⟩)
    · cases ha
    · cases ha
      exact ⟨hlt, hk, kind, rfl, hmem⟩
  · rintro ⟨hlt, hk, kind, rfl, hmem⟩
    exact .inr ⟨kind, rfl, hlt, hk, hmem⟩

theorem BringsKind.lt {payload : Bytes} {k : Nat} (h : BringsKind parse k s (.inbound payload)) : k < s.calls.length := by
  obtain ⟨_, _, c, _, -, -, hc, -⟩ | ⟨_, ha, -⟩ := h
  · exact (List.getElem?_eq_some_iff.mp hc).1
  · cases ha

theorem Tables.quiet (h : Tables parse pre s) (hrun : run (SessionState.step parse) {} pre = some s) (hq : Quiet s t)
    (hid : ∀ k, ¬BringsId parse k s a) (hkind : ∀ k, ¬BringsKind parse k s a) : Tables parse (pre ++ [a]) t where
  ids k d hd := by
    obtain ⟨c, hc, heq, -⟩ := hq.same k d hd
    have := h.ids k c hc
    rw [heq]
    exact ⟨this.1, Nat.le_trans this.2 hq.lastRequestId⟩
  byId rid f hl := by
    rw [hq.pending] at hl
    obtain ⟨c, hc, heq⟩ := h.byId rid f hl
    obtain ⟨d, hd, hid, -⟩ := hq.call hc
    exact ⟨d, hd, by rw [hid, heq]⟩
  byKind kind f hl := by
    obtain ⟨c, hc, heq⟩ := h.byKind kind f (hq.byKind kind f hl)
    obtain ⟨d, hd, -, hexp⟩ := hq.call hc
    exact ⟨d, hd, hexp.trans heq⟩
  pending k d hd := by
    obtain ⟨c, hc, heq, -⟩ := hq.same k d hd
    rw [happens_snoc hrun, hq.pending, heq, or_iff_left (hid k)]
    exact h.pending k c hc
  fallback k d kind hd ho hexp := by
    obtain ⟨c, hc, -, heq, hopen⟩ := hq.same k d hd
    rw [happens_snoc hrun, or_iff_left (hkind k), ← h.fallback k c kind hc (hopen ho) (heq.symm.trans hexp)]
    exact ⟨hq.byKind kind k, fun hl => hq.kept kind k d hl hd ho⟩
  idMade k hk := by
    rw [happens_snoc hrun, or_iff_left (hid k)] at hk
    exact hq.calls ▸ h.idMade k hk
  kindMade k hk := by
    rw [happens_snoc hrun, or_iff_left (hkind k)] at hk
    exact hq.calls ▸ h.kindMade k hk

/-- A new call owns the entry of its kind when there was none. -/
theorem Tables.registered_new (h : Tables parse pre s) (kind : ContentKind) :
    (s.registered (some kind)).lookup kind = some s.calls.length ↔ kind ∉ s.session.pendingByOneof := by
  constructor
  · intro hl hmem
    rw [SessionState.registered, if_pos hmem] at hl
    obtain ⟨c, hc, -⟩ := h.byKind kind _ hl
    exact Nat.lt_irrefl _ (List.getElem?_eq_some_iff.mp hc).1
  · intro hmem
    rw [SessionState.registered, if_neg hmem, AList.lookup_insert]

theorem Tables.request {expectedOneof : Option ContentKind} (h : Tables parse pre s)
    (hrun : run (SessionState.step parse) {} pre = some s) (hlt : s.session.lastRequestId + 1 < 2 ^ 63) :
    Tables parse (pre ++ [.request expectedOneof]) (s.request expectedOneof) := by
  have hid (k : Nat) : ¬BringsId parse k s (.request expectedOneof) := not_bringsId nofun
  have hkind (k : Nat) : BringsKind parse k s (.request expectedOneof) ↔
      s.calls.length = k ∧ ∃ kind, expectedOneof = some kind ∧ kind ∈ s.session.pendingByOneof :=
    bringsKind_request.trans (and_iff_right hlt)
  rw [request_made hlt]
  have hold {f : Nat} {c d : RequestCall} (hc : s.calls[f]? = some c) : (s.calls ++ [d])[f]? = some c :=
    getElem?_concat_eq_some.mpr (.inl hc)
  have hnew (d : RequestCall) : (s.calls ++ [d])[s.calls.length]? = some d := List.getElem?_concat_length
  constructor
  · intro k c hc
    rcases getElem?_concat_eq_some.mp hc with hc | ⟨-, rfl⟩
    · have := h.ids k c hc
      exact ⟨this.1, Nat.le_succ_of_le this.2⟩
    · exact ⟨Nat.succ_pos _, Nat.le_refl _⟩
  · intro rid f hl
    by_cases hr : rid = ((s.session.lastRequestId + 1 : Nat) : Int)
    · rw [hr, AList.lookup_insert] at hl
      cases hl
      exact ⟨_, hnew _, hr.symm⟩
    · rw [AList.lookup_insert_ne hr] at hl
      obtain ⟨c, hc, heq⟩ := h.byId rid f hl
      exact ⟨c, hold hc, heq⟩
  · intro kind f hl
    rcases lookup_registered hl with hl | ⟨hexp, rfl⟩
    · obtain ⟨c, hc, heq⟩ := h.byKind kind f hl
      exact ⟨c, hold hc, heq⟩
    · exact ⟨_, hnew _, hexp⟩
  · intro k c hc
    rw [happens_snoc hrun, or_iff_left (hid k)]
    rcases getElem?_concat_eq_some.mp hc with hc | ⟨rfl, rfl⟩
    · have hne : (c.requestId : Int) ≠ ((s.session.lastRequestId + 1 : Nat) : Int) := by
        have := (h.ids k c hc).2
        omega
      dsimp only
      rw [AList.lookup_insert_ne hne]
      exact h.pending k c hc
    · dsimp only
      rw [AList.lookup_insert]
      exact iff_of_true rfl fun hk => Nat.lt_irrefl _ (h.idMade _ hk)
  · intro k c kind hc ho hexp
    rw [happens_snoc hrun, hkind]
    rcases getElem?_concat_eq_some.mp hc with hc | ⟨rfl, rfl⟩
    · have hk : k < s.calls.length := (List.getElem?_eq_some_iff.mp hc).1
      rw [or_iff_left (fun h => Nat.ne_of_gt hk h.1), ← h.fallback k c kind hc ho hexp]
      refine ⟨fun hl => ?_, lookup_registered_of⟩
      exact (lookup_registered hl).elim id fun heq => absurd heq.2 (Nat.ne_of_lt hk)
    · dsimp only at hexp ⊢
      rw [or_iff_right fun hk => Nat.lt_irrefl _ (h.kindMade _ hk), hexp]
      simpa using h.registered_new kind
  · intro k hk
    rw [happens_snoc hrun, or_iff_left (hid k)] at hk
    rw [List.length_append]
    exact Nat.lt_add_right _ (h.idMade k hk)
  · intro k hk
    rw [happens_snoc hrun, hkind] at hk
    rw [List.length_append, List.length_singleton]
    rcases hk with hk | ⟨rfl, -⟩
    · exact Nat.lt_succ_of_lt (h.kindMade k hk)
    · exact Nat.lt_succ_self _

theorem Tables.inbound {payload : Bytes} {msg : PendantAllMsg} (h : Tables parse pre s)
    (hrun : run (SessionState.step parse) {} pre = some s) (hmsg : parse payload = some msg) :
    Tables parse (pre ++ [.inbound payload]) { s with session := s.session.onInbound parse payload } := by
  rw [Session.onInbound_eq hmsg]
  constructor
  · exact h.ids
  · exact fun rid f hl => h.byId rid f (Session.lookup_pendingAfter hl)
  · exact fun kind f hl => h.byKind kind f (Session.lookup_pendingByOneofAfter hl)
  · intro k c hc
    have hpos : (c.requestId : Int) ≠ 0 := by
      have := (h.ids k c hc).1
      omega
    dsimp only at hc ⊢
    rw [happens_snoc hrun, bringsId_inbound hmsg hc, lookup_pendingAfter_eq hpos]
    split
    · rename_i heq
      exact iff_of_false nofun fun hno => hno (.inr heq)
    · rename_i hne
      rw [or_iff_left hne]
      exact h.pending k c hc
  · intro k c kind hc ho hexp
    dsimp only at hc ⊢
    rw [happens_snoc hrun, bringsKind_inbound hmsg hc hexp, lookup_pendingByOneofAfter_eq]
    split
    · rename_i heq
      exact iff_of_false nofun fun hno => hno (.inr heq)
    · rename_i hne
      rw [or_iff_left hne]
      exact h.fallback k c kind hc ho hexp
  · intro k hk
    rcases (happens_snoc hrun).mp hk with hk | hk
    · exact h.idMade k hk
    · exact hk.lt
  · intro k hk
    rcases (happens_snoc hrun).mp hk with hk | hk
    · exact h.kindMade k hk
    · exact hk.lt

theorem Tables.step (h : Tables parse pre s) (hrun : run (SessionState.step parse) {} pre = some s)
    (hstep : s.step parse a = some t) : Tables parse (pre ++ [a]) t := by
  obtain ⟨expectedOneof, rfl, hlt, rfl⟩ | ⟨payload, msg, rfl, hmsg, rfl⟩ | ⟨hreq, hin, hquiet⟩ := step_cases hstep
  · exact h.request hrun hlt
  · exact h.inbound hrun hmsg
  · have hno (payload : Bytes) (msg : PendantAllMsg) (ha : a = .inbound payload) : parse payload ≠ some msg := by
      rw [hin payload ha]
      nofun
    refine h.quiet hrun hquiet (fun k => not_bringsId hno) fun k => ?_
    rintro (⟨payload, msg, _, _, ha, hmsg, -⟩ | ⟨kind, ha, hlt, -⟩)
    · exact hno payload msg ha hmsg
    · exact Nat.not_lt_of_le (hreq _ ha) hlt

theorem tables (hrun : run (SessionState.step parse) {} pre = some s) : Tables parse pre s := by
  refine run_induction (P := Tables parse) ?_ (fun _ _ _ _ hrun h hstep => h.step hrun hstep) hrun
  have hcalls (k : Nat) (c : RequestCall) : ({} : SessionState).calls[k]? ≠ some c := by simp
  refine ⟨fun k c hc => absurd hc (hcalls k c), ?_, ?_, fun k c hc => absurd hc (hcalls k c),
    fun k c kind hc => absurd hc (hcalls k c), fun k hk => absurd hk Happens.not_nil, fun k hk => absurd hk Happens.not_nil⟩
  · intro rid f hl
    cases hl
  · intro kind f hl
    cases hl

/-! ### The end of a call -/

theorem EndsCall.self {j k : Nat} {c x : RequestCall} (h : EndsCall s t k c) (ht : t.calls = s.calls.set j x) : j = k := by
  obtain ⟨hc, ho, d, hd, hno⟩ := h
  by_contra hne
  rw [ht, List.getElem?_set_ne hne, hc] at hd
  cases hd
  exact hno ho

/-- Inside `send_command` the tables are left as they are; after the wait the fallback entry is gone. -/
theorem endsCall_cases {k : Nat} {c : RequestCall} (hstep : s.step parse a = some t) (h : EndsCall s t k c) :
    Quiet s t ∧ (c.phase = .sending ∧ t.session = s.session ∨
      c.phase = .waiting ∧ ∀ kind, c.expectedOneof = some kind → t.session.pendingByOneof.lookup kind ≠ some k) := by
  obtain ⟨hc, ho, d, hd, hno⟩ := h
  have hends : EndsCall s t k c := ⟨hc, ho, d, hd, hno⟩
  have hleave {session : Session} {phase : CallPhase} (kind : ContentKind) (hexp : c.expectedOneof = some kind) :
      (({ s with session } : SessionState).leave k c phase).session.pendingByOneof.lookup kind ≠ some k := by
    show (session.cleanUp c.expectedOneof k).pendingByOneof.lookup kind ≠ some k
    rw [hexp]
    exact lookup_cleanUp_self kind k
  obtain ⟨expectedOneof, rfl, hlt, rfl⟩ | ⟨payload, msg, rfl, -, rfl⟩ | ⟨hreq, hin, hquiet⟩ := step_cases hstep
  · exfalso
    rw [request_made hlt] at hd
    dsimp only at hd
    rw [List.getElem?_append_left (List.getElem?_eq_some_iff.mp hc).1, hc] at hd
    cases hd
    exact hno ho
  · cases hc.symm.trans hd
    exact absurd ho hno
  · refine ⟨hquiet, ?_⟩
    cases SessionState.stepped hstep with
    | request expectedOneof =>
      rw [request_refused (hreq expectedOneof rfl)] at hd
      cases hc.symm.trans hd
      exact absurd ho hno
    | inbound payload =>
      cases hc.symm.trans hd
      exact absurd ho hno
    | takeId =>
      cases hc.symm.trans hd
      exact absurd ho hno
    | sent hc' =>
      obtain rfl := hends.self rfl
      cases (List.getElem?_set_self (List.getElem?_eq_some_iff.mp hc).1).symm.trans hd
      exact absurd (.inr rfl) hno
    | sendFails hc' hphase =>
      obtain rfl := hends.self rfl
      cases hc.symm.trans hc'
      exact .inl ⟨hphase, rfl⟩
    | complete hc' _ hphase =>
      obtain rfl := hends.self rfl
      cases hc.symm.trans hc'
      exact .inr ⟨hphase, hleave⟩
    | timeout hc' hphase =>
      obtain rfl := hends.self rfl
      cases hc.symm.trans hc'
      exact .inr ⟨hphase, hleave⟩
    | cancelSending hc' hphase =>
      obtain rfl := hends.self rfl
      cases hc.symm.trans hc'
      exact .inl ⟨hphase, rfl⟩
    | cancelWaiting hc' hphase =>
      obtain rfl := hends.self rfl
      cases hc.symm.trans hc'
      exact .inr ⟨hphase, hleave⟩

theorem TablesLive.request {expectedOneof : Option ContentKind} (h : TablesLive s)
    (hlt : s.session.lastRequestId + 1 < 2 ^ 63) : TablesLive (s.request expectedOneof) := by
  rw [request_made hlt]
  intro f hf
  have hold (hf : (∃ rid, s.session.pending.lookup rid = some f) ∨ ∃ kind, s.session.pendingByOneof.lookup kind = some f)
      {d : RequestCall} : ∃ c, (s.calls ++ [d])[f]? = some c ∧ c.Outstanding := by
    obtain ⟨c, hc, ho⟩ := h f hf
    exact ⟨c, getElem?_concat_eq_some.mpr (.inl hc), ho⟩
  have hnew (hf : f = s.calls.length) : ∃ c, (s.calls ++ [{ requestId := s.session.lastRequestId + 1, expectedOneof }])[f]? =
      some c ∧ c.Outstanding := by
    rw [hf]
    exact ⟨_, List.getElem?_concat_length, .inl rfl⟩
  rcases hf with ⟨rid, hl⟩ | ⟨kind, hl⟩
  · by_cases hr : rid = ((s.session.lastRequestId + 1 : Nat) : Int)
    · rw [hr, AList.lookup_insert] at hl
      exact hnew (Option.some.inj hl).symm
    · rw [AList.lookup_insert_ne hr] at hl
      exact hold (.inl ⟨rid, hl⟩)
  · rcases lookup_registered hl with hl | ⟨-, hf⟩
    · exact hold (.inr ⟨kind, hl⟩)
    · exact hnew hf

theorem TablesLive.step (h : TablesLive s) (htables : Tables parse pre s) (hstep : s.step parse a = some t)
    (hends : ∀ k c, EndsCall s t k c → Happens (SessionState.step parse) (BringsId parse k) {} pre ∧
      (c.phase = .sending → c.expectedOneof.isSome → Happens (SessionState.step parse) (BringsKind parse k) {} pre)) :
    TablesLive t := by
  intro f hf
  obtain ⟨expectedOneof, rfl, hlt, rfl⟩ | ⟨payload, msg, rfl, hmsg, rfl⟩ | ⟨-, -, hquiet⟩ := step_cases hstep
  · exact h.request hlt f hf
  · rw [Session.onInbound_eq hmsg] at hf
    exact h f (hf.imp (fun ⟨rid, hl⟩ => ⟨rid, Session.lookup_pendingAfter hl⟩)
      fun ⟨kind, hl⟩ => ⟨kind, Session.lookup_pendingByOneofAfter hl⟩)
  · have hbefore : (∃ rid, s.session.pending.lookup rid = some f) ∨ ∃ kind, s.session.pendingByOneof.lookup kind = some f :=
      hf.imp (fun ⟨rid, hl⟩ => ⟨rid, hquiet.pending ▸ hl⟩) fun ⟨kind, hl⟩ => ⟨kind, hquiet.byKind kind f hl⟩
    obtain ⟨c, hc, ho⟩ := h f hbefore
    obtain ⟨d, hd, -⟩ := hquiet.call hc
    by_cases hopen : d.Outstanding
    · exact ⟨d, hd, hopen⟩
    -- the step ends the call, and all of its entries have been collected
    exfalso
    have hend : EndsCall s t f c := ⟨hc, ho, d, hd, hopen⟩
    obtain ⟨hid, hkind⟩ := hends f c hend
    rcases hf with ⟨rid, hl⟩ | ⟨kind, hl⟩
    · rw [hquiet.pending] at hl
      obtain ⟨c', hc', rfl⟩ := htables.byId rid f hl
      cases hc.symm.trans hc'
      exact (htables.pending f c hc).mp hl hid
    · have hl' := hquiet.byKind kind f hl
      obtain ⟨c', hc', hexp⟩ := htables.byKind kind f hl'
      cases hc.symm.trans hc'
      rcases (endsCall_cases hstep hend).2 with ⟨hphase, -⟩ | ⟨-, hgone⟩
      · exact (htables.fallback f c kind hc ho hexp).mp hl' (hkind hphase (by rw [hexp]; rfl))
      · exact hgone kind hexp hl

theorem EndsCollected.of_append {post : List SessionAct} (h : EndsCollected parse (pre ++ post)) : EndsCollected parse pre := by
  intro before a after s t k c heq hrun hstep hend
  exact h before a (after ++ post) s t k c (by rw [heq, List.append_assoc, List.cons_append]) hrun hstep hend

end

/-- The tables refer only to outstanding calls in every state of a run exactly when every call that ends in it has been
    collected. -/
theorem tables_live_iff (parse : Bytes → Option PendantAllMsg) (acts : List SessionAct) :
    (∀ pre post s, acts = pre ++ post → run (SessionState.step parse) {} pre = some s → TablesLive s) ↔
      EndsCollected parse acts := by
  constructor
  · rintro h pre a post s t k c rfl hrun hstep ⟨hc, ho, d, hd, hno⟩
    have hend : EndsCall s t k c := ⟨hc, ho, d, hd, hno⟩
    have hlive : TablesLive t := h (pre ++ [a]) post t (by simp) (run_snoc hrun hstep)
    have hgone : ¬((∃ rid, t.session.pending.lookup rid = some k) ∨ ∃ kind, t.session.pendingByOneof.lookup kind = some k) := by
      intro hf
      obtain ⟨c', hc', ho'⟩ := hlive k hf
      cases hd.symm.trans hc'
      exact hno ho'
    have htables := tables hrun
    obtain ⟨hquiet, hcases⟩ := endsCall_cases hstep hend
    constructor
    · by_contra hnone
      have := (htables.pending k c hc).mpr hnone
      exact hgone (.inl ⟨c.requestId, hquiet.pending ▸ this⟩)
    · intro hphase hsome
      by_contra hnone
      obtain ⟨kind, hexp⟩ := Option.isSome_iff_exists.mp hsome
      have hl := (htables.fallback k c kind hc ho hexp).mpr hnone
      rcases hcases with ⟨-, hsame⟩ | ⟨hwaiting, -⟩
      · exact hgone (.inr ⟨kind, hsame ▸ hl⟩)
      · rw [hphase] at hwaiting
        cases hwaiting
  · rintro h pre post s rfl hrun
    refine run_induction (P := fun pre s => EndsCollected parse pre → TablesLive s) ?_ ?_ hrun h.of_append
    · rintro - f (⟨rid, hl⟩ | ⟨kind, hl⟩) <;> cases hl
    · intro before a s t hrun ih hstep hends
      exact (ih hends.of_append).step (tables hrun) hstep fun k c hend =>
        hends before a [] s t k c rfl hrun hstep hend

/-- A request that times out stays in `_pending`; one whose send fails stays in both tables. -/
theorem ended_call_stays_registered :
    ((run (SessionState.step parseNamelessReply) {} [.request (some .deviceInfo), .sent 0, .timeout 0]).map fun s =>
        (s.calls.map (·.phase), s.session.pending.lookup 1)) = some ([.raised], some 0) ∧
    ((run (SessionState.step parseNamelessReply) {} [.request (some .deviceInfo), .sendFails 0]).map fun s =>
        (s.calls.map (·.phase), s.session.pending.lookup 1, s.session.pendingByOneof.lookup .deviceInfo)) =
      some ([.raised], some 0, some 0) ∧
    ¬∀ pre post s, ([.request (some .deviceInfo), .sent 0, .timeout 0] : List SessionAct) = pre ++ post →
      run (SessionState.step parseNamelessReply) {} pre = some s → TablesLive s := by
  refine ⟨by decide +kernel, by decide +kernel, fun h => ?_⟩
  obtain ⟨c, hc, ho⟩ := h _ [] _ (List.append_nil _).symm rfl 0 (.inl ⟨1, rfl⟩)
  cases hc
  rcases ho with ho | ho <;> cases ho

end PendantClient
