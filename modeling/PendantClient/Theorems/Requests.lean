import PendantClient.Lib.Pointwise
import PendantClient.Session

/-! Replies and the requests they answer. -/

namespace PendantClient

/-! ### Where an inbound message goes -/

namespace Session

/-- The future, if it is still pending. -/
def live (s : Session) (fut : Option Nat) : Option Nat :=
  fut.bind fun f => if s.futures[f]? = some FutureState.pending then some f else none

/-- The future that the request id of a message leads to. -/
def liveById (s : Session) (msg : PendantAllMsg) : Option Nat :=
  if msg.requestId ≠ 0 then s.live (s.pending.lookup msg.requestId) else none

/-- The future that the kind of a message leads to. -/
def liveByKind (s : Session) (msg : PendantAllMsg) : Option Nat :=
  msg.whichOneof.bind fun kind => s.live (s.pendingByOneof.lookup kind)

/-- The future that gets the message. -/
def taker (s : Session) (msg : PendantAllMsg) : Option Nat := (s.liveById msg).or (s.liveByKind msg)

/-- The table of request ids behind a message. -/
def pendingAfter (s : Session) (msg : PendantAllMsg) : AList (fun _ : Int => Nat) :=
  if msg.requestId ≠ 0 then s.pending.erase msg.requestId else s.pending

/-- The fallback table is only looked at when no request id matches. -/
def pendingByOneofAfter (s : Session) (msg : PendantAllMsg) : AList (fun _ : ContentKind => Nat) :=
  match s.liveById msg, msg.whichOneof with
  | none, some kind => s.pendingByOneof.erase kind
  | _, _ => s.pendingByOneof

variable {s : Session} {msg : PendantAllMsg} {parse : Bytes → Option PendantAllMsg} {payload : Bytes}

theorem setResult_eq (pending : AList fun _ : Int => Nat) (pendingByOneof : AList fun _ : ContentKind => Nat)
    (fut : Option Nat) (msg : PendantAllMsg) :
    ({ s with pending, pendingByOneof } : Session).setResult fut msg =
      (s.live fut).map fun f => { s with pending, pendingByOneof, futures := s.futures.set f (.result msg) } := by
  cases fut with
  | none => rfl
  | some f =>
    simp only [setResult, live, Option.bind_some]
    split
    · rename_i h
      rw [if_pos h]
      rfl
    · rename_i h
      rw [if_neg h]
      rfl

theorem onInbound_eq (h : parse payload = some msg) :
    s.onInbound parse payload =
      { s with
        pending := s.pendingAfter msg
        pendingByOneof := s.pendingByOneofAfter msg
        futures := match s.taker msg with
          | some f => s.futures.set f (.result msg)
          | none => s.futures
        inbox := match s.taker msg with
          | some _ => s.inbox
          | none => s.inbox ++ [(payload, msg)] } := by
  have hid : (if msg.requestId ≠ 0 then (s.pending.lookup msg.requestId, { s with pending := s.pending.erase msg.requestId })
      else (none, s)) = (if msg.requestId ≠ 0 then s.pending.lookup msg.requestId else none,
        { s with pending := s.pendingAfter msg }) := by
    rw [pendingAfter]
    split <;> rfl
  have hlive : s.live (if msg.requestId ≠ 0 then s.pending.lookup msg.requestId else none) = s.liveById msg := by
    rw [liveById]
    split <;> rfl
  rw [onInbound, h]
  dsimp only
  rw [hid]
  dsimp only
  rw [setResult_eq, hlive, taker]
  cases hp : s.liveById msg with
  | some f =>
    rw [pendingByOneofAfter, hp]
    rfl
  | none =>
    cases hk : msg.whichOneof with
    | none => simp only [Option.map_none, setResult, Option.none_or, liveByKind, hk, Option.bind_none, pendingByOneofAfter, hp]
    | some kind =>
      simp only [Option.map_none, Option.none_or, liveByKind, hk, Option.bind_some, pendingByOneofAfter, hp]
      rw [setResult_eq]
      cases s.live (s.pendingByOneof.lookup kind) <;> rfl

theorem onInbound_none (h : parse payload = none) : s.onInbound parse payload = s := by
  rw [onInbound, h]

theorem live_eq_some {fut : Option Nat} {f : Nat} : s.live fut = some f ↔ fut = some f ∧ s.futures[f]? = some FutureState.pending := by
  rw [live, Option.bind_eq_some_iff]
  constructor
  · rintro ⟨g, hg, h⟩
    split at h
    · obtain rfl := Option.some.inj h
      exact ⟨hg, ‹_›⟩
    · cases h
  · rintro ⟨hf, hp⟩
    exact ⟨f, hf, if_pos hp⟩

theorem lookup_pendingAfter {rid : Int} {f : Nat} (h : (s.pendingAfter msg).lookup rid = some f) :
    s.pending.lookup rid = some f := by
  rw [pendingAfter] at h
  split at h
  · by_cases hr : rid = msg.requestId
    · rw [hr, AList.lookup_erase] at h
      cases h
    · rwa [AList.lookup_erase_ne hr] at h
  · exact h

theorem lookup_pendingByOneofAfter {kind : ContentKind} {f : Nat} (h : (s.pendingByOneofAfter msg).lookup kind = some f) :
    s.pendingByOneof.lookup kind = some f := by
  rw [pendingByOneofAfter] at h
  split at h
  · rename_i kind' _ _
    by_cases hk : kind = kind'
    · rw [hk, AList.lookup_erase] at h
      cases h
    · rwa [AList.lookup_erase_ne hk] at h
  · exact h

end Session

/-! ### Steps -/

/-- What a step of a session does, and what it needs of the state it starts from. -/
inductive SessionState.Stepped (parse : Bytes → Option PendantAllMsg) (s : SessionState) : SessionAct → SessionState → Prop
  | request (expectedOneof : Option ContentKind) : Stepped parse s (.request expectedOneof) (s.request expectedOneof)
  | takeId : Stepped parse s .takeId { s with session := { s.session with lastRequestId := s.session.lastRequestId + 1 } }
  | sent {k : Nat} {c : RequestCall} (hc : s.calls[k]? = some c) (hphase : c.phase = .sending) :
    Stepped parse s (.sent k) (s.setPhase k c .waiting)
  | sendFails {k : Nat} {c : RequestCall} (hc : s.calls[k]? = some c) (hphase : c.phase = .sending) :
    Stepped parse s (.sendFails k) (s.setPhase k c .raised)
  | inbound (payload : Bytes) : Stepped parse s (.inbound payload) { s with session := s.session.onInbound parse payload }
  | complete {k : Nat} {c : RequestCall} {msg : PendantAllMsg} (hc : s.calls[k]? = some c)
    (hresult : s.session.futures[k]? = some (.result msg)) (hphase : c.phase = .waiting) :
    Stepped parse s (.complete k) (s.leave k c (.returned msg))
  | timeout {k : Nat} {c : RequestCall} (hc : s.calls[k]? = some c) (hphase : c.phase = .waiting) :
    Stepped parse s (.timeout k) (s.abandon k c)
  | cancelSending {k : Nat} {c : RequestCall} (hc : s.calls[k]? = some c) (hphase : c.phase = .sending) :
    Stepped parse s (.cancel k) (s.setPhase k c .raised)
  | cancelWaiting {k : Nat} {c : RequestCall} (hc : s.calls[k]? = some c) (hphase : c.phase = .waiting) :
    Stepped parse s (.cancel k) (s.abandon k c)

theorem SessionState.stepped {parse : Bytes → Option PendantAllMsg} {s t : SessionState} {a : SessionAct}
    (h : s.step parse a = some t) : s.Stepped parse a t := by
  cases a with
  | request expectedOneof =>
    cases h
    exact .request expectedOneof
  | takeId =>
    cases h
    exact .takeId
  | sent k =>
    simp only [SessionState.step] at h
    split at h
    · split at h <;> cases h
      exact .sent ‹_› ‹_›
    · cases h
  | sendFails k =>
    simp only [SessionState.step] at h
    split at h
    · split at h <;> cases h
      exact .sendFails ‹_› ‹_›
    · cases h
  | inbound payload =>
    cases h
    exact .inbound payload
  | complete k =>
    simp only [SessionState.step] at h
    split at h
    · split at h <;> cases h
      exact .complete ‹_› ‹_› ‹_›
    · cases h
  | timeout k =>
    simp only [SessionState.step] at h
    split at h
    · split at h <;> cases h
      exact .timeout ‹_› ‹_›
    · cases h
  | cancel k =>
    simp only [SessionState.step] at h
    split at h
    · split at h
      · cases h
        exact .cancelSending ‹_› ‹_›
      · split at h <;> cases h
        exact .cancelWaiting ‹_› ‹_›
    · cases h

/-! ### Steps that make a call -/

section
variable {s : SessionState} {expectedOneof : Option ContentKind}

/-- The entries by kind once the call has registered. -/
def SessionState.registered (s : SessionState) (expectedOneof : Option ContentKind) : AList fun _ : ContentKind => Nat :=
  match expectedOneof with
  | none => s.session.pendingByOneof
  | some kind =>
    if kind ∈ s.session.pendingByOneof then s.session.pendingByOneof
    else s.session.pendingByOneof.insert kind s.calls.length

theorem request_refused (h : 2 ^ 63 ≤ s.session.lastRequestId + 1) :
    s.request expectedOneof = { s with session := { s.session with lastRequestId := s.session.lastRequestId + 1 } } := by
  unfold SessionState.request
  dsimp only
  rw [if_pos h]

theorem request_made (h : s.session.lastRequestId + 1 < 2 ^ 63) :
    s.request expectedOneof =
      { session := { s.session with
          lastRequestId := s.session.lastRequestId + 1
          pending := s.session.pending.insert ((s.session.lastRequestId + 1 : Nat) : Int) s.calls.length
          pendingByOneof := s.registered expectedOneof
          futures := s.session.futures ++ [.pending] }
        calls := s.calls ++ [{ requestId := s.session.lastRequestId + 1, expectedOneof }] } := by
  unfold SessionState.request
  dsimp only
  rw [if_neg (by omega)]
  rfl

theorem lookup_registered {kind : ContentKind} {f : Nat} (h : (s.registered expectedOneof).lookup kind = some f) :
    s.session.pendingByOneof.lookup kind = some f ∨ expectedOneof = some kind ∧ f = s.calls.length := by
  cases expectedOneof with
  | none => exact .inl h
  | some kind' =>
    rw [SessionState.registered] at h
    split at h
    · exact .inl h
    · by_cases hk : kind = kind'
      · rw [hk, AList.lookup_insert] at h
        exact .inr ⟨congrArg some hk.symm, (Option.some.inj h).symm⟩
      · rw [AList.lookup_insert_ne hk] at h
        exact .inl h

theorem lookup_registered_of {kind : ContentKind} {f : Nat} (h : s.session.pendingByOneof.lookup kind = some f) :
    (s.registered expectedOneof).lookup kind = some f := by
  cases expectedOneof with
  | none => exact h
  | some kind' =>
    rw [SessionState.registered]
    split
    · exact h
    · rename_i hmem
      have hne : kind ≠ kind' := by
        rintro rfl
        exact hmem (AList.lookup_isSome.mp (by rw [h]; rfl))
      rw [AList.lookup_insert_ne hne]
      exact h

theorem getElem?_request_cases {f : Nat} {d : RequestCall} (h : (s.request expectedOneof).calls[f]? = some d) :
    s.calls[f]? = some d ∨ d = { requestId := s.session.lastRequestId + 1, expectedOneof } := by
  rcases Nat.lt_or_ge (s.session.lastRequestId + 1) (2 ^ 63) with hlt | hge
  · rw [request_made hlt] at h
    exact (getElem?_concat_eq_some.mp h).imp id And.right
  · rw [request_refused hge] at h
    exact .inl h

theorem inbox_request : (s.request expectedOneof).session.inbox = s.session.inbox := by
  rcases Nat.lt_or_ge (s.session.lastRequestId + 1) (2 ^ 63) with h | h
  · rw [request_made h]
  · rw [request_refused h]

theorem results_request (f : Nat) (msg : PendantAllMsg) :
    (s.request expectedOneof).session.futures[f]? = some (FutureState.result msg) ↔
      s.session.futures[f]? = some (FutureState.result msg) := by
  rcases Nat.lt_or_ge (s.session.lastRequestId + 1) (2 ^ 63) with h | h
  · rw [request_made h]
    dsimp only
    rw [List.getElem?_append]
    split
    · rfl
    · rename_i hge
      rw [List.getElem?_eq_none (Nat.le_of_not_lt hge)]
      cases hi : f - s.session.futures.length <;> simp
  · rw [request_refused h]

end

/-! ### Own replies -/

/-- The message answers the call: it carries its request id, or no id and the content the call expects. -/
def OwnReply (c : RequestCall) (msg : PendantAllMsg) : Prop :=
  msg.requestId = c.requestId ∨
    msg.requestId = 0 ∧ ∃ kind, c.expectedOneof = some kind ∧ msg.whichOneof = some kind

/-- A message with a request id that nobody waits for, of a kind that somebody waits for. -/
def Session.StrayReply (s : Session) (msg : PendantAllMsg) : Prop :=
  msg.requestId ≠ 0 ∧ (s.live (s.pending.lookup msg.requestId)).isNone = true ∧
    ∃ kind, msg.whichOneof = some kind ∧ (s.live (s.pendingByOneof.lookup kind)).isSome = true

/-- No step brings a reply that the fallback gives to another request. -/
def NoStrayReply (parse : Bytes → Option PendantAllMsg) (s : SessionState) (a : SessionAct) : Prop :=
  ∀ payload msg, a = .inbound payload → parse payload = some msg → ¬ s.session.StrayReply msg

/-- The tables lead to the calls that registered in them, and every result is the reply of its call. -/
structure RepliesMatch (s : SessionState) : Prop where
  futures : s.session.futures.length = s.calls.length
  byId : ∀ rid f, s.session.pending.lookup rid = some f → ∃ c, s.calls[f]? = some c ∧ (c.requestId : Int) = rid
  byKind : ∀ kind f, s.session.pendingByOneof.lookup kind = some f →
    ∃ c, s.calls[f]? = some c ∧ c.expectedOneof = some kind
  results : ∀ (f : Nat) msg, s.session.futures[f]? = some (FutureState.result msg) → ∃ c, s.calls[f]? = some c ∧ OwnReply c msg
  returned : ∀ c msg, c ∈ s.calls → c.phase = .returned msg → OwnReply c msg

section
variable {s : SessionState} {t : Session} {c : RequestCall} {k : Nat} {parse : Bytes → Option PendantAllMsg}

/-- Another session over the same calls: entries of the tables may go, and new results are own replies. -/
theorem RepliesMatch.session (h : RepliesMatch s) (hlen : t.futures.length = s.session.futures.length)
    (hid : ∀ rid f, t.pending.lookup rid = some f → s.session.pending.lookup rid = some f)
    (hkind : ∀ kind f, t.pendingByOneof.lookup kind = some f → s.session.pendingByOneof.lookup kind = some f)
    (hres : ∀ (f : Nat) msg, t.futures[f]? = some (FutureState.result msg) → s.session.futures[f]? = some (FutureState.result msg) ∨
      ∃ c, s.calls[f]? = some c ∧ OwnReply c msg) : RepliesMatch { s with session := t } where
  futures := hlen.trans h.futures
  byId rid f hl := h.byId rid f (hid rid f hl)
  byKind kind f hl := h.byKind kind f (hkind kind f hl)
  results f msg hf := (hres f msg hf).elim (h.results f msg) id
  returned := h.returned

theorem getElem?_setPhase (phase : CallPhase) (hc : s.calls[k]? = some c) {f : Nat} {d : RequestCall}
    (hd : s.calls[f]? = some d) : ∃ d', (s.setPhase k c phase).calls[f]? = some d' ∧ d'.requestId = d.requestId ∧
      d'.expectedOneof = d.expectedOneof := by
  have hlt : k < s.calls.length := (List.getElem?_eq_some_iff.mp hc).1
  by_cases hf : f = k
  · subst hf
    rw [hc] at hd
    obtain rfl := Option.some.inj hd
    exact ⟨_, List.getElem?_set_self hlt, rfl, rfl⟩
  · exact ⟨d, (List.getElem?_set_ne (Ne.symm hf)).trans hd, rfl, rfl⟩

theorem RepliesMatch.setPhase {phase : CallPhase} (h : RepliesMatch s) (hc : s.calls[k]? = some c)
    (hphase : ∀ msg, phase = .returned msg → OwnReply c msg) : RepliesMatch (s.setPhase k c phase) where
  futures := h.futures.trans (List.length_set ..).symm
  byId rid f hl := by
    obtain ⟨d, hd, hid⟩ := h.byId rid f hl
    obtain ⟨d', hd', hid', -⟩ := getElem?_setPhase phase hc hd
    exact ⟨d', hd', hid'.symm ▸ hid⟩
  byKind kind f hl := by
    obtain ⟨d, hd, hkind⟩ := h.byKind kind f hl
    obtain ⟨d', hd', -, hkind'⟩ := getElem?_setPhase phase hc hd
    exact ⟨d', hd', hkind'.trans hkind⟩
  results f msg hf := by
    obtain ⟨d, hd, hown⟩ := h.results f msg hf
    obtain ⟨d', hd', hid', hkind'⟩ := getElem?_setPhase phase hc hd
    refine ⟨d', hd', ?_⟩
    rw [OwnReply, hid', hkind']
    exact hown
  returned d msg hd hret := by
    rcases List.mem_or_eq_of_mem_set hd with hd | rfl
    · exact h.returned d msg hd hret
    · exact hphase msg hret

theorem RepliesMatch.cleanUp (h : RepliesMatch s) (expectedOneof : Option ContentKind) (k : Nat) :
    RepliesMatch { s with session := s.session.cleanUp expectedOneof k } := by
  cases expectedOneof with
  | none => exact h
  | some kind =>
    rw [Session.cleanUp]
    split
    · refine h.session rfl (fun _ _ hl => hl) (fun kind' f hl => ?_) (fun _ _ hf => .inl hf)
      by_cases hk : kind' = kind
      · rw [hk, AList.lookup_erase] at hl
        cases hl
      · exact (AList.lookup_erase_ne hk).symm.trans hl
    · exact h

theorem RepliesMatch.cancelFuture (h : RepliesMatch s) (k : Nat) :
    RepliesMatch { s with session := s.session.cancelFuture k } := by
  rw [Session.cancelFuture]
  split
  · refine h.session (List.length_set ..) (fun _ _ hl => hl) (fun _ _ hl => hl) (fun f msg hf => .inl ?_)
    by_cases hk : f = k
    · subst hk
      rw [List.getElem?_set_self (List.getElem?_eq_some_iff.mp ‹_›).1] at hf
      cases hf
    · exact (List.getElem?_set_ne (Ne.symm hk)).symm.trans hf
  · exact h

theorem RepliesMatch.leave {phase : CallPhase} (h : RepliesMatch s) (hc : s.calls[k]? = some c)
    (hphase : ∀ msg, phase = .returned msg → OwnReply c msg) : RepliesMatch (s.leave k c phase) :=
  (h.cleanUp c.expectedOneof k).setPhase hc hphase

theorem RepliesMatch.abandon (h : RepliesMatch s) (hc : s.calls[k]? = some c) : RepliesMatch (s.abandon k c) :=
  (h.cancelFuture k).leave hc fun _ hphase => by cases hphase

theorem RepliesMatch.request (h : RepliesMatch s) (expectedOneof : Option ContentKind) :
    RepliesMatch (s.request expectedOneof) := by
  rcases Nat.lt_or_ge (s.session.lastRequestId + 1) (2 ^ 63) with hlt | hge
  · rw [request_made hlt]
    have hold {f : Nat} {d new : RequestCall} (hd : s.calls[f]? = some d) : (s.calls ++ [new])[f]? = some d :=
      getElem?_concat_eq_some.mpr (.inl hd)
    have hnew (new : RequestCall) : (s.calls ++ [new])[s.calls.length]? = some new := List.getElem?_concat_length
    constructor
    · dsimp only
      rw [List.length_append, List.length_append, h.futures]
      rfl
    · intro rid f hl
      by_cases hr : rid = ((s.session.lastRequestId + 1 : Nat) : Int)
      · rw [hr, AList.lookup_insert] at hl
        obtain rfl := Option.some.inj hl
        exact ⟨_, hnew _, hr.symm⟩
      · rw [AList.lookup_insert_ne hr] at hl
        obtain ⟨d, hd, hid⟩ := h.byId rid f hl
        exact ⟨d, hold hd, hid⟩
    · intro kind f hl
      rcases lookup_registered hl with hl | ⟨hkind, rfl⟩
      · obtain ⟨d, hd, hkind⟩ := h.byKind kind f hl
        exact ⟨d, hold hd, hkind⟩
      · exact ⟨_, hnew _, hkind⟩
    · intro f msg hf
      rcases getElem?_concat_eq_some.mp hf with hf | ⟨-, hpend⟩
      · obtain ⟨d, hd, hown⟩ := h.results f msg hf
        exact ⟨d, hold hd, hown⟩
      · cases hpend
    · intro d msg hd hret
      rcases List.mem_append.mp hd with hd | hd
      · exact h.returned d msg hd hret
      · obtain rfl := List.mem_singleton.mp hd
        cases hret
  · rw [request_refused hge]
    exact h.session rfl (fun _ _ hl => hl) (fun _ _ hl => hl) (fun _ _ hf => .inl hf)

/-- A message that is no stray reply goes to its own call, or to none. -/
theorem RepliesMatch.inbound (h : RepliesMatch s) {payload : Bytes}
    (hstray : ∀ msg, parse payload = some msg → ¬ s.session.StrayReply msg) :
    RepliesMatch { s with session := s.session.onInbound parse payload } := by
  cases hp : parse payload with
  | none =>
    rw [Session.onInbound_none hp]
    exact h
  | some msg =>
    rw [Session.onInbound_eq hp]
    refine h.session ?_ (fun _ _ => Session.lookup_pendingAfter) (fun _ _ => Session.lookup_pendingByOneofAfter) ?_
    · dsimp only
      split
      · exact List.length_set ..
      · rfl
    · intro f msg' hf
      dsimp only at hf
      split at hf
      · rename_i g hg
        by_cases hfg : f = g
        · subst hfg
          right
          rcases Option.or_eq_some_iff.mp hg with hid | ⟨hnone, hkind⟩
          · rw [Session.liveById] at hid
            split at hid
            · obtain ⟨hl, hpend⟩ := Session.live_eq_some.mp hid
              rw [List.getElem?_set_self (List.getElem?_eq_some_iff.mp hpend).1] at hf
              cases hf
              obtain ⟨d, hd, hrid⟩ := h.byId _ _ hl
              exact ⟨d, hd, .inl hrid.symm⟩
            · cases hid
          · obtain ⟨kind, hk, hlive⟩ := Option.bind_eq_some_iff.mp hkind
            obtain ⟨hl, hpend⟩ := Session.live_eq_some.mp hlive
            rw [List.getElem?_set_self (List.getElem?_eq_some_iff.mp hpend).1] at hf
            cases hf
            obtain ⟨d, hd, hexp⟩ := h.byKind _ _ hl
            refine ⟨d, hd, .inr ⟨?_, kind, hexp, hk⟩⟩
            by_contra hrid
            rw [Session.liveById, if_pos hrid] at hnone
            exact hstray msg hp ⟨hrid, by rw [hnone]; rfl, kind, hk, by rw [hlive]; rfl⟩
        · rw [List.getElem?_set_ne (Ne.symm hfg)] at hf
          exact .inl hf
      · exact .inl hf

theorem RepliesMatch.step {a : SessionAct} {u : SessionState} (h : RepliesMatch s) (hcond : NoStrayReply parse s a)
    (hstep : s.step parse a = some u) : RepliesMatch u := by
  cases SessionState.stepped hstep with
  | request expectedOneof => exact h.request expectedOneof
  | takeId => exact h.session rfl (fun _ _ hl => hl) (fun _ _ hl => hl) (fun _ _ hf => .inl hf)
  | sent hc => exact h.setPhase hc fun _ hphase => by cases hphase
  | sendFails hc => exact h.setPhase hc fun _ hphase => by cases hphase
  | inbound payload => exact h.inbound fun msg hmsg => hcond payload msg rfl hmsg
  | complete hc hresult =>
    refine h.leave hc fun msg hphase => ?_
    cases hphase
    obtain ⟨d, hd, hown⟩ := h.results _ _ hresult
    rw [hc] at hd
    cases hd
    exact hown
  | timeout hc => exact h.abandon hc
  | cancelSending hc => exact h.setPhase hc fun _ hphase => by cases hphase
  | cancelWaiting hc => exact h.abandon hc

theorem RepliesMatch.start : RepliesMatch {} where
  futures := rfl
  byId _ _ hl := by cases hl
  byKind _ _ hl := by cases hl
  results _ _ hf := by cases hf
  returned _ _ hc := by cases hc

end

/-- In a run in which no stray reply arrives, a call that returns has been given its own reply. -/
theorem request_returns_own_reply (parse : Bytes → Option PendantAllMsg) (acts : List SessionAct) (s : SessionState)
    (hrun : Transition.run (SessionState.step parse) {} acts = some s)
    (hcond : Transition.Meets (SessionState.step parse) (NoStrayReply parse) {} acts) :
    ∀ c msg, c ∈ s.calls → c.phase = .returned msg → OwnReply c msg :=
  (Transition.run_invariant_of_meets (P := RepliesMatch) (fun _ _ _ h hc hs => h.step hc hs) hcond hrun .start).returned

/-- A `device_info` reply to the request with id 1, on the wire. -/
def firstReply : Bytes := [0x0A, 0x00, 0x32, 0x02, 0x08, 0x01]

/-- The parser on that reply. -/
def parseFirstReply (payload : Bytes) : Option PendantAllMsg :=
  if payload = firstReply then some { responseData := some { requestId := 1 }, content := some (.other .deviceInfo (by decide)) }
  else none

/-- A request that is answered. -/
theorem request_returns_own_reply_sample :
    ∃ s c msg, Transition.run (SessionState.step parseFirstReply) {}
        [.request (some .deviceInfo), .sent 0, .inbound firstReply, .complete 0] = some s ∧
      c ∈ s.calls ∧ c.phase = .returned msg ∧ OwnReply c msg := by
  refine ⟨_, ⟨1, some .deviceInfo, .returned ⟨some ⟨1⟩, some (.other .deviceInfo (by decide))⟩⟩, _, rfl,
    List.mem_singleton.mpr rfl, rfl, request_returns_own_reply parseFirstReply
      [.request (some .deviceInfo), .sent 0, .inbound firstReply, .complete 0] _ rfl ?_ _ _ (List.mem_singleton.mpr rfl) rfl⟩
  refine .intro (by rintro _ _ ⟨⟩) fun t ht => ?_
  cases ht
  refine .intro (by rintro _ _ ⟨⟩) fun t ht => ?_
  cases ht
  refine .intro ?_ fun t ht => .intro (by rintro _ _ ⟨⟩) fun _ _ => .nil
  rintro _ msg ⟨⟩ hmsg ⟨-, hnone, -⟩
  cases hmsg
  exact absurd hnone (by decide)

/-- A first query times out, a second one is made, and the late answer to the first resolves it. -/
theorem late_reply_resolves_next_request :
    ∃ s c msg, Transition.run (SessionState.step parseFirstReply) {}
        [.request (some .deviceInfo), .sent 0, .timeout 0, .request (some .deviceInfo), .sent 1, .inbound firstReply,
          .complete 1] = some s ∧
      c ∈ s.calls ∧ c.requestId = 2 ∧ c.phase = .returned msg ∧ msg.requestId = 1 ∧ ¬ OwnReply c msg := by
  refine ⟨_, ⟨2, some .deviceInfo, .returned ⟨some ⟨1⟩, some (.other .deviceInfo (by decide))⟩⟩, _, rfl, ?_, rfl, rfl, rfl, ?_⟩
  · exact List.mem_cons_of_mem _ (List.mem_singleton.mpr rfl)
  · rintro (h | ⟨h, -⟩)
    · exact absurd h (by decide)
    · exact absurd h (by decide)

end PendantClient
