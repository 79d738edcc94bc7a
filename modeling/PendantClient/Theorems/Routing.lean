import PendantClient.Theorems.Requests

/-! Where inbound messages go. Only a message that arrives sets a result or adds to the inbox; it does exactly one of
    the two, so over a run every message has one place and every future at most one message. -/

namespace PendantClient

/-! ### Steps that bring no message -/

/-- The call has not returned or raised. -/
def RequestCall.Outstanding (c : RequestCall) : Prop := c.phase = .sending ∨ c.phase = .waiting

instance (c : RequestCall) : Decidable c.Outstanding := by
  unfold RequestCall.Outstanding
  infer_instance

/-- What a step leaves as it was that neither makes a call nor brings a message. An entry by kind goes only with the
    call it belongs to. -/
structure Quiet (t u : SessionState) : Prop where
  lastRequestId : t.session.lastRequestId ≤ u.session.lastRequestId
  pending : u.session.pending = t.session.pending
  inbox : u.session.inbox = t.session.inbox
  byKind : ∀ kind f, u.session.pendingByOneof.lookup kind = some f → t.session.pendingByOneof.lookup kind = some f
  kept : ∀ kind f c, t.session.pendingByOneof.lookup kind = some f → u.calls[f]? = some c → c.Outstanding →
    u.session.pendingByOneof.lookup kind = some f
  futures : u.session.futures.length = t.session.futures.length
  results : ∀ (f : Nat) msg, u.session.futures[f]? = some (FutureState.result msg) ↔
    t.session.futures[f]? = some (FutureState.result msg)
  undone : ∀ f : Nat, u.session.futures[f]? = some FutureState.pending → t.session.futures[f]? = some FutureState.pending
  calls : u.calls.length = t.calls.length
  same : ∀ (f : Nat) d, u.calls[f]? = some d → ∃ c, t.calls[f]? = some c ∧ d.requestId = c.requestId ∧
    d.expectedOneof = c.expectedOneof ∧ (d.Outstanding → c.Outstanding)

section
variable {s t u v : SessionState} {c : RequestCall} {k : Nat} {parse : Bytes → Option PendantAllMsg}

theorem Quiet.trans (h : Quiet t v) (h' : Quiet v u) : Quiet t u where
  lastRequestId := Nat.le_trans h.lastRequestId h'.lastRequestId
  pending := h'.pending.trans h.pending
  inbox := h'.inbox.trans h.inbox
  byKind kind f hl := h.byKind kind f (h'.byKind kind f hl)
  kept kind f c hl hc ho := by
    obtain ⟨d, hd, -, -, hopen⟩ := h'.same f c hc
    exact h'.kept kind f c (h.kept kind f d hl hd (hopen ho)) hc ho
  futures := h'.futures.trans h.futures
  results f msg := (h'.results f msg).trans (h.results f msg)
  undone f hf := h.undone f (h'.undone f hf)
  calls := h'.calls.trans h.calls
  same f d hd := by
    obtain ⟨c, hc, hid, hexp, hopen⟩ := h'.same f d hd
    obtain ⟨b, hb, hid', hexp', hopen'⟩ := h.same f c hc
    exact ⟨b, hb, hid.trans hid', hexp.trans hexp', fun ho => hopen' (hopen ho)⟩

theorem Quiet.call (h : Quiet t u) (hc : t.calls[k]? = some c) :
    ∃ d, u.calls[k]? = some d ∧ d.requestId = c.requestId ∧ d.expectedOneof = c.expectedOneof := by
  have hlt : k < u.calls.length := h.calls.symm ▸ (List.getElem?_eq_some_iff.mp hc).1
  obtain ⟨b, hb, hid, hexp, -⟩ := h.same k _ (List.getElem?_eq_getElem hlt)
  rw [hc] at hb
  cases hb
  exact ⟨_, List.getElem?_eq_getElem hlt, hid, hexp⟩

theorem Quiet.session {session : Session} (hlast : t.session.lastRequestId ≤ session.lastRequestId)
    (hpending : session.pending = t.session.pending) (hkind : session.pendingByOneof = t.session.pendingByOneof)
    (hinbox : session.inbox = t.session.inbox) (hlen : session.futures.length = t.session.futures.length)
    (hresults : ∀ (f : Nat) msg, session.futures[f]? = some (FutureState.result msg) ↔
      t.session.futures[f]? = some (FutureState.result msg))
    (hundone : ∀ f : Nat, session.futures[f]? = some FutureState.pending →
      t.session.futures[f]? = some FutureState.pending) : Quiet t { t with session := session } where
  lastRequestId := hlast
  pending := hpending
  inbox := hinbox
  byKind kind f hl := by
    rw [hkind] at hl
    exact hl
  kept kind f c hl _ _ := by
    rw [hkind]
    exact hl
  futures := hlen
  results := hresults
  undone := hundone
  calls := rfl
  same f d hd := ⟨d, hd, rfl, rfl, id⟩

theorem quiet_cancelFuture (s : SessionState) (k : Nat) : Quiet s { s with session := s.session.cancelFuture k } := by
  rw [Session.cancelFuture]
  split
  · rename_i hpend
    have hlt := (List.getElem?_eq_some_iff.mp hpend).1
    refine .session (Nat.le_refl _) rfl rfl rfl (List.length_set ..) (fun f msg => ?_) fun f hf => ?_
    · by_cases hk : f = k
      · subst hk
        dsimp only
        rw [List.getElem?_set_self hlt, hpend]
        simp
      · dsimp only
        rw [List.getElem?_set_ne (Ne.symm hk)]
    · by_cases hk : f = k
      · subst hk
        exact hpend
      · dsimp only at hf
        rwa [List.getElem?_set_ne (Ne.symm hk)] at hf
  · exact .session (Nat.le_refl _) rfl rfl rfl rfl (fun _ _ => Iff.rfl) fun _ => id

theorem same_setPhase {phase : CallPhase} (hc : s.calls[k]? = some c) (hphase : ({ c with phase } : RequestCall).Outstanding → c.Outstanding) :
    ∀ (f : Nat) d, (s.setPhase k c phase).calls[f]? = some d → ∃ c, s.calls[f]? = some c ∧ d.requestId = c.requestId ∧
      d.expectedOneof = c.expectedOneof ∧ (d.Outstanding → c.Outstanding) := by
  intro f d hd
  have hlt := (List.getElem?_eq_some_iff.mp hc).1
  by_cases hk : f = k
  · subst hk
    have := (List.getElem?_set_self hlt).symm.trans hd
    cases this
    exact ⟨c, hc, rfl, rfl, hphase⟩
  · exact ⟨d, (List.getElem?_set_ne (Ne.symm hk)).symm.trans hd, rfl, rfl, id⟩

theorem quiet_setPhase {phase : CallPhase} (hc : s.calls[k]? = some c)
    (hphase : ({ c with phase } : RequestCall).Outstanding → c.Outstanding) : Quiet s (s.setPhase k c phase) where
  lastRequestId := Nat.le_refl _
  pending := rfl
  inbox := rfl
  byKind _ _ := id
  kept _ _ _ hl _ _ := hl
  futures := rfl
  results _ _ := Iff.rfl
  undone _ := id
  calls := List.length_set ..
  same := same_setPhase hc hphase

theorem cleanUp_eq (session : Session) (expectedOneof : Option ContentKind) (k : Nat) :
    session.cleanUp expectedOneof k =
      { session with pendingByOneof := (session.cleanUp expectedOneof k).pendingByOneof } := by
  cases expectedOneof with
  | none => rfl
  | some kind =>
    rw [Session.cleanUp]
    split <;> rfl

theorem lookup_of_cleanUp {session : Session} {expectedOneof : Option ContentKind} {kind : ContentKind} {f : Nat}
    (h : (session.cleanUp expectedOneof k).pendingByOneof.lookup kind = some f) :
    session.pendingByOneof.lookup kind = some f := by
  cases expectedOneof with
  | none => exact h
  | some kind' =>
    rw [Session.cleanUp] at h
    split at h
    · by_cases hkind : kind = kind'
      · rw [hkind, AList.lookup_erase] at h
        cases h
      · rwa [AList.lookup_erase_ne hkind] at h
    · exact h

theorem lookup_cleanUp_ne {session : Session} {expectedOneof : Option ContentKind} {kind : ContentKind} {f : Nat}
    (h : session.pendingByOneof.lookup kind = some f) (hne : f ≠ k) :
    (session.cleanUp expectedOneof k).pendingByOneof.lookup kind = some f := by
  cases expectedOneof with
  | none => exact h
  | some kind' =>
    rw [Session.cleanUp]
    split
    · rename_i hown
      have hkind : kind ≠ kind' := by
        rintro rfl
        exact hne (Option.some.inj (h.symm.trans hown))
      exact (AList.lookup_erase_ne hkind).trans h
    · exact h

theorem lookup_cleanUp_self {session : Session} (kind : ContentKind) (k : Nat) :
    (session.cleanUp (some kind) k).pendingByOneof.lookup kind ≠ some k := by
  rw [Session.cleanUp]
  split
  · dsimp only
    rw [AList.lookup_erase]
    intro h
    cases h
  · assumption

/-- A call that leaves takes its own entry by kind with it. -/
theorem quiet_leave {phase : CallPhase} (hc : s.calls[k]? = some c) (hphase : ¬({ c with phase } : RequestCall).Outstanding) :
    Quiet s (s.leave k c phase) := by
  have hlt := (List.getElem?_eq_some_iff.mp hc).1
  have hself : (s.leave k c phase).calls[k]? = some { c with phase } := List.getElem?_set_self hlt
  have hframe : (s.leave k c phase).session = { s.session with
      pendingByOneof := (s.session.cleanUp c.expectedOneof k).pendingByOneof } := cleanUp_eq _ _ _
  constructor
  · rw [hframe]
  · rw [hframe]
  · rw [hframe]
  · rw [hframe]
    exact fun _ _ => lookup_of_cleanUp
  · intro kind f d hl hd ho
    have hne : f ≠ k := by
      rintro rfl
      rw [hself] at hd
      cases hd
      exact hphase ho
    rw [hframe]
    exact lookup_cleanUp_ne hl hne
  · rw [hframe]
  · intro f msg
    rw [hframe]
  · intro f
    rw [hframe]
    exact id
  · exact List.length_set ..
  · exact same_setPhase (s := { s with session := s.session.cleanUp c.expectedOneof k }) hc fun ho => absurd ho hphase

theorem quiet_abandon (hc : s.calls[k]? = some c) : Quiet s (s.abandon k c) := by
  have hleave : Quiet { s with session := s.session.cancelFuture k } (s.abandon k c) :=
    quiet_leave hc (by rintro (h | h) <;> cases h)
  exact (quiet_cancelFuture s k).trans hleave

/-- A step is quiet unless it registers a call or brings a message. -/
theorem step_quiet {a : SessionAct}
    (hreq : ∀ expectedOneof, a = .request expectedOneof → 2 ^ 63 ≤ s.session.lastRequestId + 1)
    (hin : ∀ payload, a = .inbound payload → parse payload = none) (h : s.step parse a = some t) : Quiet s t := by
  cases SessionState.stepped h with
  | request expectedOneof =>
    rw [request_refused (hreq expectedOneof rfl)]
    exact .session (Nat.le_succ _) rfl rfl rfl rfl (fun _ _ => Iff.rfl) fun _ => id
  | takeId => exact .session (Nat.le_succ _) rfl rfl rfl rfl (fun _ _ => Iff.rfl) fun _ => id
  | sent hc hphase => exact quiet_setPhase hc fun _ => .inl hphase
  | sendFails hc hphase => exact quiet_setPhase hc fun _ => .inl hphase
  | inbound payload =>
    rw [Session.onInbound_none (hin payload rfl)]
    exact .session (Nat.le_refl _) rfl rfl rfl rfl (fun _ _ => Iff.rfl) fun _ => id
  | complete hc => exact quiet_leave hc (by rintro (h | h) <;> cases h)
  | timeout hc => exact quiet_abandon hc
  | cancelSending hc hphase => exact quiet_setPhase hc fun _ => .inl hphase
  | cancelWaiting hc => exact quiet_abandon hc

/-- What a step does: it registers a call, brings a message, or is quiet. -/
theorem step_cases {a : SessionAct} (h : s.step parse a = some t) :
    (∃ expectedOneof, a = .request expectedOneof ∧ s.session.lastRequestId + 1 < 2 ^ 63 ∧ t = s.request expectedOneof) ∨
    (∃ payload msg, a = .inbound payload ∧ parse payload = some msg ∧
      t = { s with session := s.session.onInbound parse payload }) ∨
    (∀ expectedOneof, a = .request expectedOneof → 2 ^ 63 ≤ s.session.lastRequestId + 1) ∧
      (∀ payload, a = .inbound payload → parse payload = none) ∧ Quiet s t := by
  have hquiet (hreq : ∀ expectedOneof, a = .request expectedOneof → 2 ^ 63 ≤ s.session.lastRequestId + 1)
      (hin : ∀ payload, a = .inbound payload → parse payload = none) : _ ∧ _ ∧ Quiet s t :=
    ⟨hreq, hin, step_quiet hreq hin h⟩
  cases a with
  | request expectedOneof =>
    rcases Nat.lt_or_ge (s.session.lastRequestId + 1) (2 ^ 63) with hlt | hge
    · cases h
      exact .inl ⟨expectedOneof, rfl, hlt, rfl⟩
    · exact .inr (.inr (hquiet (fun _ _ => hge) nofun))
  | inbound payload =>
    cases hmsg : parse payload with
    | none =>
      refine .inr (.inr (hquiet nofun fun payload' heq => ?_))
      cases heq
      exact hmsg
    | some msg =>
      cases h
      exact .inr (.inl ⟨payload, msg, rfl, hmsg, rfl⟩)
  | _ => exact .inr (.inr (hquiet nofun nofun))

end

/-! ### Every message has one place -/

/-- A message that arrived, with the future it was set as the result of, or `none` when it went to the inbox. -/
structure Delivery where
  payload : Bytes
  msg : PendantAllMsg
  dest : Option Nat

/-- From `s` to `t` exactly one thing has been done with the message: it is the result of a future that was not done, or
    it is at the end of the inbox with its raw bytes. -/
def Delivery.Done (d : Delivery) (s t : Session) : Prop :=
  match d.dest with
  | some f => s.futures[f]? = some FutureState.pending ∧ t.futures = s.futures.set f (.result d.msg) ∧ t.inbox = s.inbox
  | none => t.futures = s.futures ∧ t.inbox = s.inbox ++ [(d.payload, d.msg)]

/-- The payloads that parse, in arrival order. -/
def arrivals (parse : Bytes → Option PendantAllMsg) (acts : List SessionAct) : List (Bytes × PendantAllMsg) :=
  acts.filterMap fun a =>
    match a with
    | .inbound payload => (parse payload).map fun msg => (payload, msg)
    | _ => none

/-- The kinds the session's own methods pass as `expected_oneof`. -/
def OwnKinds (acts : List SessionAct) : Prop :=
  ∀ kind, SessionAct.request (some kind) ∈ acts → kind = .deviceInfo ∨ kind = .deviceStatus

/-- The inbox and the results are the messages of a log, no two of them for one future. -/
structure Delivered (log : List Delivery) (s : Session) : Prop where
  inbox : s.inbox = (log.filter (·.dest.isNone)).map fun d => (d.payload, d.msg)
  once : (log.filterMap (·.dest)).Nodup
  results : ∀ (f : Nat) msg, s.futures[f]? = some (FutureState.result msg) ↔ ∃ d ∈ log, d.dest = some f ∧ d.msg = msg

/-- The log of a run: one entry for each payload that parsed, with what was done with it when it came. -/
structure LogOf (parse : Bytes → Option PendantAllMsg) (acts : List SessionAct) (log : List Delivery) : Prop where
  entries : log.map (fun d => (d.payload, d.msg)) = arrivals parse acts
  done : ∀ pre payload post t msg, acts = pre ++ .inbound payload :: post →
    Transition.run (SessionState.step parse) {} pre = some t → parse payload = some msg →
    ∃ d, log[(arrivals parse pre).length]? = some d ∧ d.Done t.session (t.session.onInbound parse payload)

section
variable {parse : Bytes → Option PendantAllMsg} {s t : Session} {payload : Bytes} {msg : PendantAllMsg} {log : List Delivery}

theorem onInbound_done (h : parse payload = some msg) :
    Delivery.Done ⟨payload, msg, s.taker msg⟩ s (s.onInbound parse payload) := by
  rw [Session.onInbound_eq h, Delivery.Done]
  cases ht : s.taker msg with
  | none => exact ⟨rfl, rfl⟩
  | some f =>
    refine ⟨?_, rfl, rfl⟩
    rcases Option.or_eq_some_iff.mp ht with hid | ⟨-, hkind⟩
    · rw [Session.liveById] at hid
      split at hid
      · exact (Session.live_eq_some.mp hid).2
      · cases hid
    · obtain ⟨kind, -, hlive⟩ := Option.bind_eq_some_iff.mp hkind
      exact (Session.live_eq_some.mp hlive).2

theorem Delivered.frame (h : Delivered log s) (hinbox : t.inbox = s.inbox)
    (hresults : ∀ (f : Nat) msg, t.futures[f]? = some (FutureState.result msg) ↔
      s.futures[f]? = some (FutureState.result msg)) : Delivered log t where
  inbox := hinbox.trans h.inbox
  once := h.once
  results f msg := (hresults f msg).trans (h.results f msg)

/-- What a longer log sets for a future: what it did before, and its last message if that goes there. -/
theorem exists_dest_snoc {d : Delivery} {f : Nat} {m : PendantAllMsg} :
    (∃ e ∈ log ++ [d], e.dest = some f ∧ e.msg = m) ↔
      (∃ e ∈ log, e.dest = some f ∧ e.msg = m) ∨ d.dest = some f ∧ d.msg = m := by
  simp [or_and_right, exists_or]

/-- A message that is dealt with is one more entry. -/
theorem Delivered.snoc (h : Delivered log s) {d : Delivery} (hd : d.Done s t) : Delivered (log ++ [d]) t := by
  obtain ⟨payload, msg, dest⟩ := d
  cases dest with
  | none =>
    obtain ⟨hfutures, hinbox⟩ := hd
    constructor
    · rw [hinbox, h.inbox]
      simp
    · rw [List.filterMap_append]
      simpa using h.once
    · intro f m
      rw [hfutures, h.results f m, exists_dest_snoc, or_iff_left]
      rintro ⟨hdest, -⟩
      cases hdest
  | some g =>
    obtain ⟨hpend, hfutures, hinbox⟩ := hd
    have hlt := (List.getElem?_eq_some_iff.mp hpend).1
    have hfresh : ∀ e ∈ log, e.dest ≠ some g := by
      intro e he hdest
      have := (h.results g e.msg).mpr ⟨e, he, hdest, rfl⟩
      rw [hpend] at this
      cases this
    constructor
    · rw [hinbox, h.inbox]
      simp
    · rw [List.filterMap_append]
      refine List.nodup_append.mpr ⟨h.once, by simp, ?_⟩
      rintro f hf f' hf' rfl
      obtain ⟨e, he, hdest⟩ := List.mem_filterMap.mp hf
      have : f = g := by simpa using hf'
      exact hfresh e he (this ▸ hdest)
    · intro f m
      rw [hfutures, exists_dest_snoc]
      by_cases hfg : f = g
      · subst hfg
        rw [List.getElem?_set_self hlt, or_iff_right]
        · simp
        · rintro ⟨e, he, hdest, -⟩
          exact hfresh e he hdest
      · rw [List.getElem?_set_ne (Ne.symm hfg), h.results f m, or_iff_left]
        rintro ⟨hdest, -⟩
        exact hfg (Option.some.inj hdest).symm

/-! ### Runs -/

theorem arrivals_snoc (acts : List SessionAct) (a : SessionAct) :
    arrivals parse (acts ++ [a]) = arrivals parse acts ++ arrivals parse [a] := List.filterMap_append

theorem arrivals_inbound (h : parse payload = some msg) : arrivals parse [.inbound payload] = [(payload, msg)] := by
  simp [arrivals, h]

theorem LogOf.length {acts : List SessionAct} (h : LogOf parse acts log) : log.length = (arrivals parse acts).length := by
  rw [← h.entries, List.length_map]

/-- One more step: it brings the messages of `new`, none or one, and they are dealt with as `new` says. -/
theorem LogOf.snoc {acts : List SessionAct} {a : SessionAct} {s : SessionState} {new : List Delivery} (h : LogOf parse acts log)
    (hrun : Transition.run (SessionState.step parse) {} acts = some s)
    (hentries : new.map (fun d => (d.payload, d.msg)) = arrivals parse [a])
    (hdone : ∀ payload msg, a = .inbound payload → parse payload = some msg →
      ∃ d, new = [d] ∧ d.Done s.session (s.session.onInbound parse payload)) : LogOf parse (acts ++ [a]) (log ++ new) where
  entries := by rw [List.map_append, h.entries, hentries, arrivals_snoc]
  done := by
    intro pre payload post t msg heq ht hmsg
    rcases List.eq_nil_or_concat post with rfl | ⟨post, b, rfl⟩
    · obtain ⟨hpre, ha⟩ := List.append_inj' heq rfl
      cases ha
      rw [← hpre, hrun] at ht
      cases ht
      obtain ⟨d, rfl, hd⟩ := hdone payload msg rfl hmsg
      refine ⟨d, ?_, hd⟩
      rw [← hpre, List.getElem?_append_right (Nat.le_of_eq h.length), h.length, Nat.sub_self]
      rfl
    · rw [List.concat_eq_append, ← List.cons_append, ← List.append_assoc] at heq
      have hacts := (List.append_inj' heq rfl).1
      obtain ⟨d, hd, hdone⟩ := h.done pre payload post t msg hacts ht hmsg
      refine ⟨d, ?_, hdone⟩
      rwa [List.getElem?_append_left (List.getElem?_eq_some_iff.mp hd).1]

/-- Only the session's own kinds are waited for. -/
def OnlyOwnKinds (s : Session) : Prop :=
  ∀ kind f, s.pendingByOneof.lookup kind = some f → kind = .deviceInfo ∨ kind = .deviceStatus

theorem OnlyOwnKinds.step {s t : SessionState} {a : SessionAct} (h : OnlyOwnKinds s.session)
    (hown : ∀ kind, a = .request (some kind) → kind = .deviceInfo ∨ kind = .deviceStatus)
    (hstep : s.step parse a = some t) : OnlyOwnKinds t.session := by
  obtain ⟨expectedOneof, rfl, hlt, rfl⟩ | ⟨payload, msg, rfl, hmsg, rfl⟩ | ⟨-, -, hquiet⟩ := step_cases hstep
  · intro kind f hl
    rw [request_made hlt] at hl
    rcases lookup_registered hl with hl | ⟨rfl, -⟩
    · exact h kind f hl
    · exact hown kind rfl
  · rw [Session.onInbound_eq hmsg]
    exact fun kind f hl => h kind f (Session.lookup_pendingByOneofAfter hl)
  · exact fun kind f hl => h kind f (hquiet.byKind kind f hl)

/-- A storage page without a request id finds nobody waiting. -/
theorem taker_page (h : OnlyOwnKinds s) (hid : msg.requestId = 0) (hkind : msg.whichOneof = some .storageBuffer) :
    s.taker msg = none := by
  have hlookup : s.pendingByOneof.lookup .storageBuffer = none := by
    cases hl : s.pendingByOneof.lookup .storageBuffer with
    | none => rfl
    | some f => rcases h _ _ hl with hk | hk <;> cases hk
  rw [Session.taker, Session.liveById, if_neg (by simp [hid]), Option.none_or, Session.liveByKind, hkind, Option.bind_some,
    hlookup]
  rfl

/-- What a run keeps: the log, and that the pages in it went to the inbox. -/
theorem exists_log {acts : List SessionAct} {s : SessionState}
    (hrun : Transition.run (SessionState.step parse) {} acts = some s) :
    ∃ log, LogOf parse acts log ∧ Delivered log s.session ∧ (OwnKinds acts → OnlyOwnKinds s.session ∧
      ∀ d ∈ log, d.msg.requestId = 0 → d.msg.whichOneof = some .storageBuffer → d.dest = none) := by
  refine Transition.run_induction (P := fun acts s => ∃ log, LogOf parse acts log ∧ Delivered log s.session ∧
    (OwnKinds acts → OnlyOwnKinds s.session ∧
      ∀ d ∈ log, d.msg.requestId = 0 → d.msg.whichOneof = some .storageBuffer → d.dest = none)) ?_ ?_ hrun
  · exact ⟨[], ⟨rfl, fun pre payload post t msg h => by simp at h⟩, ⟨rfl, List.nodup_nil, fun f msg => by simp⟩,
      fun _ => ⟨nofun, nofun⟩⟩
  · rintro pre a t u hpre ⟨log, hlog, hdelivered, hpages⟩ hstep
    have hkinds (hown : OwnKinds (pre ++ [a])) : OnlyOwnKinds u.session ∧
        ∀ d ∈ log, d.msg.requestId = 0 → d.msg.whichOneof = some .storageBuffer → d.dest = none := by
      obtain ⟨honly, hdest⟩ := hpages fun kind hk => hown kind (List.mem_append_left _ hk)
      exact ⟨honly.step (fun kind hk => hown kind (List.mem_append_right _ (List.mem_singleton.mpr hk.symm))) hstep, hdest⟩
    -- a step that brings no message adds nothing to the log
    have hnothing (harr : arrivals parse [a] = []) : LogOf parse (pre ++ [a]) log := by
      have hsnoc : LogOf parse (pre ++ [a]) (log ++ []) := hlog.snoc hpre harr.symm fun payload msg ha hmsg => by
        rw [ha, arrivals_inbound hmsg] at harr
        cases harr
      rwa [List.append_nil] at hsnoc
    obtain ⟨expectedOneof, rfl, -, rfl⟩ | ⟨payload, msg, rfl, hmsg, rfl⟩ | ⟨-, hin, hquiet⟩ := step_cases hstep
    · exact ⟨log, hnothing rfl, hdelivered.frame inbox_request results_request, hkinds⟩
    · have hdone : Delivery.Done ⟨payload, msg, t.session.taker msg⟩ t.session (t.session.onInbound parse payload) :=
        onInbound_done hmsg
      refine ⟨log ++ [⟨payload, msg, t.session.taker msg⟩], hlog.snoc hpre ?_ ?_, hdelivered.snoc hdone, fun hown => ?_⟩
      · rw [arrivals_inbound hmsg]
        rfl
      · intro payload' msg' ha _
        cases ha
        exact ⟨_, rfl, hdone⟩
      · refine ⟨(hkinds hown).1, fun d hd hid hkind => ?_⟩
        rcases List.mem_append.mp hd with hd | hd
        · exact (hkinds hown).2 d hd hid hkind
        · obtain rfl := List.mem_singleton.mp hd
          exact taker_page (hpages fun kind hk => hown kind (List.mem_append_left _ hk)).1 hid hkind
    · refine ⟨log, hnothing ?_, hdelivered.frame hquiet.inbox hquiet.results, hkinds⟩
      cases a with
      | inbound payload => simp [arrivals, hin payload rfl]
      | _ => rfl

end

/-- Every payload that parses is the result of one future that was not done, or in the inbox with its raw bytes; the
    inbox is in arrival order, no future gets two messages, and pages without a request id go to the inbox. -/
theorem every_message_has_one_place (parse : Bytes → Option PendantAllMsg) (acts : List SessionAct) (s : SessionState)
    (hrun : Transition.run (SessionState.step parse) {} acts = some s) :
    ∃ log, LogOf parse acts log ∧ Delivered log s.session ∧
      (OwnKinds acts → ∀ d ∈ log, d.msg.requestId = 0 → d.msg.whichOneof = some .storageBuffer → d.dest = none) := by
  obtain ⟨log, hlog, hdelivered, hpages⟩ := exists_log hrun
  exact ⟨log, hlog, hdelivered, fun hown => (hpages hown).2⟩

/-- The parser on that reply and on an empty page. -/
def parseReplyOrPage (payload : Bytes) : Option PendantAllMsg :=
  if payload = [0x12, 0x00] then some { content := some (.storageBuffer {}) } else parseFirstReply payload

/-- A page, bytes that are no message, and a reply arrive while one request waits. -/
theorem every_message_has_one_place_sample :
    let acts : List SessionAct :=
      [.request (some .deviceInfo), .sent 0, .inbound [0x12, 0x00], .inbound [0xFF], .inbound firstReply, .complete 0]
    ∃ s log, Transition.run (SessionState.step parseReplyOrPage) {} acts = some s ∧ LogOf parseReplyOrPage acts log ∧
      Delivered log s.session ∧
      ∀ d ∈ log, d.msg.requestId = 0 → d.msg.whichOneof = some .storageBuffer → d.dest = none := by
  intro acts
  obtain ⟨log, hlog, hdelivered, hpages⟩ := every_message_has_one_place parseReplyOrPage acts _ rfl
  refine ⟨_, log, rfl, hlog, hdelivered, hpages fun kind hkind => ?_⟩
  simp only [acts, List.mem_cons, SessionAct.request.injEq, Option.some.injEq, reduceCtorEq, List.not_mem_nil, or_false] at hkind
  exact .inl hkind

end PendantClient
