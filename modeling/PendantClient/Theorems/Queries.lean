import PendantClient.Queries
import PendantClient.Theorems.Routing

/-! Whether a query's answer is of the kind it asked for. A reply that carries the request id is not looked at: only the
    fallback by kind is sure of what it delivers. -/

namespace PendantClient

/-- Every call that expects a kind of content and has returned has returned a message with that content, and the queries
    read theirs from its submessage. -/
structure AnswersGiven {σ : Type} (readInfo : Bytes → DeviceInfoMsg) (readStatus : Bytes → σ) (s : SessionState) : Prop where
  returned : ∀ c ∈ s.calls, ∀ kind msg, c.expectedOneof = some kind → c.phase = .returned msg → msg.whichOneof = some kind
  deviceInfo : ∀ c ∈ s.calls, ∀ info, c.deviceInfo readInfo = some info → ∃ msg h encoding, c.phase = .returned msg ∧
    msg.content = some (.other .deviceInfo h encoding) ∧ info.raw = readInfo encoding ∧
    info.audioEncryptionPubKey = (readInfo encoding).deviceAudioEncryptionPubKey
  deviceStatus : ∀ c ∈ s.calls, ∀ status, c.deviceStatus readStatus = some status → ∃ msg h encoding,
    c.phase = .returned msg ∧ msg.content = some (.other .deviceStatus h encoding) ∧ status = readStatus encoding

/-- No message arrives under the request id of a call that is still to be answered and expects another content. -/
def repliesInKind (parse : Bytes → Option PendantAllMsg) (s : SessionState) : SessionAct → Bool
  | .inbound payload =>
    (parse payload).all fun msg => (s.session.liveById msg).all fun f => s.calls[f]?.all fun c =>
      !decide c.Outstanding || c.expectedOneof.all fun kind => msg.whichOneof = some kind
  | _ => true

/-- The table by kind leads to calls of its kinds, and what has been set for a call, or returned by it, is of its kind. -/
structure KindsMatch (s : SessionState) : Prop where
  futures : s.session.futures.length = s.calls.length
  byKind : ∀ kind f, s.session.pendingByOneof.lookup kind = some f → ∃ c, s.calls[f]? = some c ∧ c.expectedOneof = some kind
  results : ∀ (f : Nat) msg c kind, s.session.futures[f]? = some (FutureState.result msg) → s.calls[f]? = some c →
    c.Outstanding → c.expectedOneof = some kind → msg.whichOneof = some kind
  returned : ∀ (f : Nat) c kind msg, s.calls[f]? = some c → c.expectedOneof = some kind → c.phase = .returned msg →
    msg.whichOneof = some kind

section
variable {parse : Bytes → Option PendantAllMsg} {s t : SessionState} {c d : RequestCall} {k f : Nat} {msg : PendantAllMsg}

theorem getElem?_setPhase_cases {phase : CallPhase} (hc : s.calls[k]? = some c)
    (hd : (s.setPhase k c phase).calls[f]? = some d) : s.calls[f]? = some d ∨ f = k ∧ d = { c with phase } := by
  by_cases hk : f = k
  · subst hk
    have hlt := (List.getElem?_eq_some_iff.mp hc).1
    cases (List.getElem?_set_self hlt).symm.trans hd
    exact .inr ⟨rfl, rfl⟩
  · exact .inl ((List.getElem?_set_ne (Ne.symm hk)).symm.trans hd)

theorem returned_of_setPhase {phase : CallPhase} (hc : s.calls[k]? = some c) (hd : (s.setPhase k c phase).calls[f]? = some d)
    (hret : d.phase = .returned msg) (hphase : phase ≠ .returned msg) : s.calls[f]? = some d := by
  rcases getElem?_setPhase_cases hc hd with h | ⟨-, rfl⟩
  · exact h
  · exact absurd hret hphase

/-- A call returns only what has been set for it. -/
theorem returned_step {a : SessionAct} (hstep : s.step parse a = some t) (hd : t.calls[f]? = some d)
    (hret : d.phase = .returned msg) : s.calls[f]? = some d ∨
      ∃ c, s.calls[f]? = some c ∧ c.Outstanding ∧ s.session.futures[f]? = some (FutureState.result msg) ∧
        d.expectedOneof = c.expectedOneof := by
  have habandon {k : Nat} {c : RequestCall} (hc : s.calls[k]? = some c) (hd : (s.abandon k c).calls[f]? = some d) :
      s.calls[f]? = some d :=
    returned_of_setPhase (s := { s with session := (s.session.cancelFuture k).cleanUp c.expectedOneof k }) hc hd hret
      fun h => by cases h
  cases SessionState.stepped hstep with
  | request expectedOneof =>
    rcases getElem?_request_cases hd with h | rfl
    · exact .inl h
    · cases hret
  | takeId => exact .inl hd
  | inbound payload => exact .inl hd
  | sent hc => exact .inl (returned_of_setPhase hc hd hret fun h => by cases h)
  | sendFails hc => exact .inl (returned_of_setPhase hc hd hret fun h => by cases h)
  | complete hc hresult hphase =>
    rename_i k c _
    rcases getElem?_setPhase_cases (s := { s with session := s.session.cleanUp c.expectedOneof k }) hc hd with h | ⟨rfl, rfl⟩
    · exact .inl h
    · cases hret
      exact .inr ⟨c, hc, .inr hphase, hresult, rfl⟩
  | timeout hc => exact .inl (habandon hc hd)
  | cancelSending hc => exact .inl (returned_of_setPhase hc hd hret fun h => by cases h)
  | cancelWaiting hc => exact .inl (habandon hc hd)

theorem repliesInKind_inbound {payload : Bytes} {kind : ContentKind} (h : repliesInKind parse s (.inbound payload) = true)
    (hmsg : parse payload = some msg) (hid : s.session.liveById msg = some f) (hc : s.calls[f]? = some c)
    (hopen : c.Outstanding) (hkind : c.expectedOneof = some kind) : msg.whichOneof = some kind := by
  simp only [repliesInKind, hmsg, Option.all_some, hid, hc, hkind, hopen, decide_true, Bool.not_true, Bool.false_or] at h
  exact of_decide_eq_true h

/-- What a message is set for is of its kind: by the condition if it was found by its id, by the table else. -/
theorem KindsMatch.taker (h : KindsMatch s) {payload : Bytes} {kind : ContentKind}
    (hcond : repliesInKind parse s (.inbound payload) = true) (hmsg : parse payload = some msg)
    (htaker : s.session.taker msg = some f) (hc : s.calls[f]? = some c) (hopen : c.Outstanding)
    (hkind : c.expectedOneof = some kind) : msg.whichOneof = some kind := by
  rcases Option.or_eq_some_iff.mp htaker with hid | ⟨-, hlive⟩
  · exact repliesInKind_inbound hcond hmsg hid hc hopen hkind
  · obtain ⟨kind', hkind', hlive⟩ := Option.bind_eq_some_iff.mp hlive
    obtain ⟨c', hc', hexpected⟩ := h.byKind kind' f (Session.live_eq_some.mp hlive).1
    obtain rfl := Option.some.inj (hc.symm.trans hc')
    rw [hkind', ← hexpected, hkind]

/-- What a call returns is of its kind, for it has been set for the call. -/
theorem KindsMatch.returned_of_step {a : SessionAct} (h : KindsMatch s) (hstep : s.step parse a = some t) (f : Nat)
    (d : RequestCall) (kind : ContentKind) (msg : PendantAllMsg) (hd : t.calls[f]? = some d) (hkind : d.expectedOneof = some kind)
    (hret : d.phase = .returned msg) : msg.whichOneof = some kind := by
  rcases returned_step hstep hd hret with hd | ⟨c, hc, hopen, hresult, hsame⟩
  · exact h.returned f d kind msg hd hkind hret
  · exact h.results f msg c kind hresult hc hopen (hsame ▸ hkind)

theorem KindsMatch.request {expectedOneof : Option ContentKind} (h : KindsMatch s)
    (hstep : s.step parse (.request expectedOneof) = some (s.request expectedOneof))
    (hlt : s.session.lastRequestId + 1 < 2 ^ 63) : KindsMatch (s.request expectedOneof) where
  futures := by
    rw [request_made hlt]
    simp [h.futures]
  byKind kind f hl := by
    rw [request_made hlt] at hl ⊢
    rcases lookup_registered hl with hl | ⟨hkind, rfl⟩
    · obtain ⟨c, hc, hexpected⟩ := h.byKind kind f hl
      exact ⟨c, getElem?_concat_eq_some.mpr (.inl hc), hexpected⟩
    · exact ⟨_, getElem?_concat_eq_some.mpr (.inr ⟨rfl, rfl⟩), hkind⟩
  results f msg c kind hf hc hopen hkind := by
    have hf' := (results_request f msg).mp hf
    rw [request_made hlt] at hc
    rcases getElem?_concat_eq_some.mp hc with hc | ⟨rfl, -⟩
    · exact h.results f msg c kind hf' hc hopen hkind
    · have := (List.getElem?_eq_some_iff.mp hf').1
      rw [h.futures] at this
      exact absurd this (Nat.lt_irrefl _)
  returned := h.returned_of_step hstep

/-- A message is set for a call that its kind fits. -/
theorem KindsMatch.inbound {payload : Bytes} (h : KindsMatch s) (hcond : repliesInKind parse s (.inbound payload) = true)
    (hmsg : parse payload = some msg) : KindsMatch { s with session := s.session.onInbound parse payload } := by
  have hstep : s.step parse (.inbound payload) = some { s with session := s.session.onInbound parse payload } := rfl
  have hreturned := h.returned_of_step hstep
  rw [Session.onInbound_eq hmsg] at hreturned ⊢
  refine ⟨?_, fun kind f hl => h.byKind kind f (Session.lookup_pendingByOneofAfter hl), ?_, hreturned⟩
  · dsimp only
    split
    · rw [List.length_set]
      exact h.futures
    · exact h.futures
  · intro f msg' c kind hf hc hopen hkind
    dsimp only at hf hc
    split at hf
    · rename_i g htaker
      rcases Nat.decEq f g with hne | rfl
      · rw [List.getElem?_set_ne (Ne.symm hne)] at hf
        exact h.results f msg' c kind hf hc hopen hkind
      · have hlt := (List.getElem?_eq_some_iff.mp hc).1
        rw [List.getElem?_set_self (h.futures ▸ hlt)] at hf
        cases hf
        exact h.taker hcond hmsg htaker hc hopen hkind
    · exact h.results f msg' c kind hf hc hopen hkind

theorem KindsMatch.step {a : SessionAct} (h : KindsMatch s) (hcond : repliesInKind parse s a = true)
    (hstep : s.step parse a = some t) : KindsMatch t := by
  obtain ⟨expectedOneof, rfl, hlt, rfl⟩ | ⟨payload, msg, rfl, hmsg, rfl⟩ | ⟨-, -, hquiet⟩ := step_cases hstep
  · exact h.request hstep hlt
  · exact h.inbound hcond hmsg
  · refine ⟨?_, fun kind f hl => ?_, fun f msg d kind hf hd hopen hkind => ?_, h.returned_of_step hstep⟩
    · rw [hquiet.futures, hquiet.calls, h.futures]
    · obtain ⟨c, hc, hexpected⟩ := h.byKind kind f (hquiet.byKind kind f hl)
      obtain ⟨d, hd, -, hsame⟩ := hquiet.call hc
      exact ⟨d, hd, hsame.trans hexpected⟩
    · obtain ⟨c, hc, -, hsame, hopen'⟩ := hquiet.same f d hd
      exact h.results f msg c kind ((hquiet.results f msg).mp hf) hc (hopen' hopen) (hsame ▸ hkind)

theorem KindsMatch.start : KindsMatch {} where
  futures := rfl
  byKind _ _ hl := by cases hl
  results _ _ _ _ hf := by cases hf
  returned _ _ _ _ hc := by cases hc

/-! ### The queries -/

theorem content_of_kind {kind : ContentKind} (h : msg.whichOneof = some kind) (hne : kind ≠ .storageBuffer) :
    ∃ hkind encoding, msg.content = some (.other kind hkind encoding) := by
  unfold PendantAllMsg.whichOneof at h
  split at h
  · cases h
  · cases h
    exact absurd rfl hne
  · rename_i hcontent
    cases h
    exact ⟨_, _, hcontent⟩

theorem submessage_of_content {kind : ContentKind} {hkind : kind ≠ .storageBuffer} {encoding : Bytes}
    (h : msg.content = some (.other kind hkind encoding)) : msg.submessage kind = encoding := by
  rw [PendantAllMsg.submessage, h]
  exact if_pos rfl

theorem deviceInfo_eq_some {read : Bytes → DeviceInfoMsg} {info : QueriedDevice} (h : c.deviceInfo read = some info) :
    c.expectedOneof = some .deviceInfo ∧ ∃ msg, c.phase = .returned msg ∧ info = getDeviceInfo read msg := by
  unfold RequestCall.deviceInfo at h
  split at h
  · rename_i resp hexpected hphase
    exact ⟨hexpected, resp, hphase, (Option.some.inj h).symm⟩
  · cases h

theorem deviceStatus_eq_some {σ : Type} {read : Bytes → σ} {status : σ} (h : c.deviceStatus read = some status) :
    c.expectedOneof = some .deviceStatus ∧ ∃ msg, c.phase = .returned msg ∧ status = getDeviceStatus read msg := by
  unfold RequestCall.deviceStatus at h
  split at h
  · rename_i resp hexpected hphase
    exact ⟨hexpected, resp, hphase, (Option.some.inj h).symm⟩
  · cases h

theorem KindsMatch.answersGiven {σ : Type} (h : KindsMatch s) (readInfo : Bytes → DeviceInfoMsg) (readStatus : Bytes → σ) :
    AnswersGiven readInfo readStatus s := by
  have hreturned : ∀ c ∈ s.calls, ∀ kind msg, c.expectedOneof = some kind → c.phase = .returned msg →
      msg.whichOneof = some kind := by
    intro c hc kind msg
    obtain ⟨f, hf⟩ := List.getElem?_of_mem hc
    exact h.returned f c kind msg hf
  refine ⟨hreturned, fun c hc info hinfo => ?_, fun c hc status hstatus => ?_⟩
  · obtain ⟨hexpected, msg, hphase, rfl⟩ := deviceInfo_eq_some hinfo
    obtain ⟨hkind, encoding, hcontent⟩ := content_of_kind (hreturned c hc _ msg hexpected hphase) (by decide)
    have hread : (getDeviceInfo readInfo msg).raw = readInfo encoding := congrArg readInfo (submessage_of_content hcontent)
    exact ⟨msg, hkind, encoding, hphase, hcontent, hread, congrArg DeviceInfoMsg.deviceAudioEncryptionPubKey hread⟩
  · obtain ⟨hexpected, msg, hphase, rfl⟩ := deviceStatus_eq_some hstatus
    obtain ⟨hkind, encoding, hcontent⟩ := content_of_kind (hreturned c hc _ msg hexpected hphase) (by decide)
    exact ⟨msg, hkind, encoding, hphase, hcontent, congrArg readStatus (submessage_of_content hcontent)⟩

end

/-- In a run in which no reply of another kind comes under the request id of an open call, calls return what they asked
    for. -/
theorem queries_answered_in_kind {σ : Type} (readInfo : Bytes → DeviceInfoMsg) (readStatus : Bytes → σ)
    (parse : Bytes → Option PendantAllMsg) (acts : List SessionAct) (s : SessionState)
    (hrun : Transition.run (SessionState.step parse) {} acts = some s)
    (hcond : Transition.Meets (SessionState.step parse) (fun s a => repliesInKind parse s a = true) {} acts) :
    AnswersGiven readInfo readStatus s :=
  (Transition.run_invariant_of_meets (P := KindsMatch) (fun _ _ _ h hc hs => h.step hc hs) hcond hrun .start).answersGiven
    readInfo readStatus

/-- A query whose reply has an empty `device_info`. -/
theorem queries_answered_in_kind_sample :
    ∃ s, Transition.run (SessionState.step parseFirstReply) {}
        [.request (some .deviceInfo), .sent 0, .inbound firstReply, .complete 0] = some s ∧
      AnswersGiven (fun _ => {}) (fun _ => ()) s :=
  ⟨_, rfl, queries_answered_in_kind (fun _ => {}) (fun _ => ()) parseFirstReply
    [.request (some .deviceInfo), .sent 0, .inbound firstReply, .complete 0] _ rfl (by decide +kernel)⟩

/-- An error reply to the request with id 1, on the wire: a `response_data` with an error, and no content. -/
def errorReply : Bytes := [0x32, 0x06, 0x08, 0x01, 0x12, 0x02, 0x08, 0x01]

/-- The parser on that reply. -/
def parseErrorReply (payload : Bytes) : Option PendantAllMsg :=
  if payload = errorReply then some { responseData := some { requestId := 1 } } else none

/-- The error is returned as a device without a serial number and without a key. -/
theorem error_reply_is_a_device :
    ∃ s c info, Transition.run (SessionState.step parseErrorReply) {}
        [.request (some .deviceInfo), .sent 0, .inbound errorReply, .complete 0] = some s ∧
      c ∈ s.calls ∧ c.deviceInfo (fun _ => {}) = some info ∧ info.serialNum = "" ∧ info.audioEncryptionPubKey = [] ∧
      ¬AnswersGiven (fun _ => {}) (fun _ => ()) s := by
  refine ⟨_, ⟨1, some .deviceInfo, .returned ⟨some ⟨1⟩, none⟩⟩, _, rfl, List.mem_singleton.mpr rfl, rfl, rfl, rfl, fun h => ?_⟩
  have := h.returned _ (List.mem_singleton.mpr rfl) _ _ rfl rfl
  cases this

end PendantClient
