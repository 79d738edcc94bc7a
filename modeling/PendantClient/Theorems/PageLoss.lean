import PendantClient.Download
import PendantClient.Theorems.Routing

/-! Freed pages. A delete command frees every page up to its index, so what matters is that no page is missing
    in front of one that is acknowledged. -/

namespace PendantClient

/-! ### Steps and the inbox -/

/-- What a step of a download does, and what it needs of the state it starts from. -/
inductive Download.Stepped (parse : Bytes → Option PendantAllMsg) (d : Download) : DownloadAct → Download → Prop
  | notify (raw : Bytes) : Stepped parse d (.notify raw) (d.onNotification parse raw)
  | session {b : SessionAct} {state : SessionState} (hb : ∀ payload, b ≠ .inbound payload)
    (h : d.state.step parse b = some state) : Stepped parse d (.session b) { d with state }
  | begin (ok : Bool) (hphase : d.phase = .idle) :
    Stepped parse d (.begin ok) { d.takeId with phase := if ok then .waiting else .idle }
  | take {entry : InboxEntry} {rest : List InboxEntry} (hphase : d.phase = .waiting) (hinbox : d.inbox = entry :: rest) :
    Stepped parse d .take { d with
      state := { d.state with session := { d.state.session with inbox := rest } }
      phase := .yielded entry
      yielded := d.yielded ++ [entry] }
  | timeout (hphase : d.phase = .waiting) : Stepped parse d .timeout { d with phase := .stopping }
  | resumePage {entry : InboxEntry} {index : Int} (hphase : d.phase = .yielded entry) (hpage : entry.2.page = some index) :
    Stepped parse d .resume { d.callDelete index with phase := .acking entry index, acked := d.acked ++ [entry] }
  | resumeOther {entry : InboxEntry} (hphase : d.phase = .yielded entry) (hpage : entry.2.page = none) :
    Stepped parse d .resume { d with phase := .waiting }
  | ackDone {entry : InboxEntry} {index : Int} (delivered : Bool) (hphase : d.phase = .acking entry index) :
    Stepped parse d (.ackDone delivered) { d.deliverDelete index delivered with phase := .waiting }
  | abortWaiting (delivered : Bool) (hphase : d.phase = .waiting) : Stepped parse d (.abort delivered) { d with phase := .stopping }
  | abortYielded {entry : InboxEntry} (delivered : Bool) (hphase : d.phase = .yielded entry) :
    Stepped parse d (.abort delivered) { d with phase := .stopping }
  | abortAcking {entry : InboxEntry} {index : Int} (delivered : Bool) (hphase : d.phase = .acking entry index) :
    Stepped parse d (.abort delivered) { d.deliverDelete index delivered with phase := .stopping }
  | stop (hphase : d.phase = .stopping) : Stepped parse d .stop { d.takeId with phase := .idle }

section
variable {parse : Bytes → Option PendantAllMsg}

theorem Download.stepped {d e : Download} {a : DownloadAct} (h : d.step parse a = some e) : d.Stepped parse a e := by
  cases a with
  | notify raw =>
    cases h
    exact .notify raw
  | session b =>
    simp only [Download.step] at h
    split at h
    · cases h
    · rename_i hb
      obtain ⟨state, hstate, rfl⟩ := Option.map_eq_some_iff.mp h
      exact .session (fun payload heq => hb payload heq) hstate
  | begin ok =>
    simp only [Download.step] at h
    split at h <;> cases h
    exact .begin ok ‹_›
  | take =>
    simp only [Download.step] at h
    split at h <;> cases h
    exact .take ‹_› ‹_›
  | timeout =>
    simp only [Download.step] at h
    split at h <;> cases h
    exact .timeout ‹_›
  | resume =>
    simp only [Download.step] at h
    split at h
    · split at h <;> cases h
      · exact .resumePage ‹_› ‹_›
      · exact .resumeOther ‹_› ‹_›
    · cases h
  | ackDone delivered =>
    simp only [Download.step] at h
    split at h <;> cases h
    exact .ackDone delivered ‹_›
  | abort delivered =>
    simp only [Download.step] at h
    split at h <;> cases h
    · exact .abortWaiting delivered ‹_›
    · exact .abortYielded delivered ‹_›
    · exact .abortAcking delivered ‹_›
  | stop =>
    simp only [Download.step] at h
    split at h <;> cases h
    exact .stop ‹_›

theorem inbox_step {s t : SessionState} {a : SessionAct} (ha : ∀ payload, a ≠ .inbound payload)
    (h : s.step parse a = some t) : t.session.inbox = s.session.inbox := by
  obtain ⟨expectedOneof, rfl, -, rfl⟩ | ⟨payload, -, rfl, -⟩ | ⟨-, -, hquiet⟩ := step_cases h
  · exact inbox_request
  · exact absurd rfl (ha payload)
  · exact hquiet.inbox

/-- An inbound message is put in the inbox, at its end, exactly when no future takes it. -/
theorem inbox_onInbound (parse : Bytes → Option PendantAllMsg) (s : Session) (payload : Bytes) :
    (s.onInbound parse payload).inbox = s.inbox ∨
      ∃ msg, parse payload = some msg ∧ s.taker msg = none ∧ (s.onInbound parse payload).inbox = s.inbox ++ [(payload, msg)] := by
  cases hp : parse payload with
  | none =>
    rw [Session.onInbound_none hp]
    exact .inl rfl
  | some msg =>
    rw [Session.onInbound_eq hp]
    cases ht : s.taker msg with
    | some f => exact .inl rfl
    | none => exact .inr ⟨msg, rfl, ht, rfl⟩

end

/-! ### Gaps -/

/-- A notification puts a page in the inbox only when every page of the log before it is already there, or has
    been yielded. -/
def noGap (log : List Nat) (parse : Bytes → Option PendantAllMsg) (d : Download) : DownloadAct → Bool
  | .notify raw =>
    match (onData d.table raw).2 with
    | .dispatched payload =>
      match parse payload with
      | some msg =>
        (d.state.session.taker msg).isSome ||
          msg.page.all fun i : Int => log.all fun p => i ≤ p ||
            (d.yielded ++ d.inbox).any fun entry => entry.2.page = some (p : Int)
      | none => true
    | _ => true
  | _ => true

/-- Every page of the log up to the index of a delete command that reached the pendant. -/
def Download.Freed (d : Download) (log : List Nat) (p : Nat) : Prop := p ∈ log ∧ ∃ i ∈ d.deletes, p ≤ i

/-- The consumer has been given a message with the page. -/
def Download.Yielded (d : Download) (p : Nat) : Prop := ∃ entry ∈ d.yielded, entry.2.page = some (p : Int)

/-- Pages come without gaps, and a page is acknowledged after it has been yielded. -/
structure Gapless (log : List Nat) (d : Download) : Prop where
  order : ∀ before entry after, d.yielded ++ d.inbox = before ++ entry :: after → ∀ i : Int, entry.2.page = some i →
    ∀ p ∈ log, (p : Int) < i → ∃ e ∈ before, e.2.page = some (p : Int)
  yielding : ∀ entry, d.phase = .yielded entry → entry ∈ d.yielded
  acking : ∀ entry i, d.phase = .acking entry i → entry ∈ d.yielded ∧ entry.2.page = some i
  deletes : ∀ i ∈ d.deletes, d.Yielded i

section
variable {log : List Nat} {parse : Bytes → Option PendantAllMsg} {d e : Download}

/-- Steps that change neither the yielded entries nor the inbox nor the phase nor the deletes. -/
theorem Gapless.frame (h : Gapless log d) (hy : e.yielded = d.yielded) (hi : e.inbox = d.inbox) (hp : e.phase = d.phase)
    (hd : e.deletes = d.deletes) : Gapless log e where
  order := by
    rw [hy, hi]
    exact h.order
  yielding := by
    rw [hy, hp]
    exact h.yielding
  acking := by
    rw [hy, hp]
    exact h.acking
  deletes := by
    rw [hd]
    intro i hi
    obtain ⟨entry, hentry, hpage⟩ := h.deletes i hi
    exact ⟨entry, hy ▸ hentry, hpage⟩

theorem Gapless.phase (h : Gapless log d) {phase : DownloadPhase} (hphase : phase = .idle ∨ phase = .waiting ∨ phase = .stopping) :
    Gapless log { d with phase } where
  order := h.order
  yielding entry he := by
    rcases hphase with rfl | rfl | rfl <;> cases he
  acking entry i he := by
    rcases hphase with rfl | rfl | rfl <;> cases he
  deletes := h.deletes

theorem Download.toNat_deletable {index : Int} (h : Download.deletable index = true) : (index.toNat : Int) = index := by
  have hfits : 0 ≤ index ∧ index < 2 ^ 32 := by simpa [Download.deletable] using h
  exact Int.toNat_of_nonneg hfits.1

theorem Gapless.deliverDelete (h : Gapless log d) {entry : InboxEntry} {index : Int} (hphase : d.phase = .acking entry index)
    (delivered : Bool) : Gapless log (d.deliverDelete index delivered) := by
  rw [Download.deliverDelete]
  split
  · rename_i hd
    obtain ⟨hmem, hpage⟩ := h.acking entry index hphase
    refine ⟨h.order, h.yielding, h.acking, fun i hi => ?_⟩
    rcases List.mem_append.mp hi with hi | hi
    · exact h.deletes i hi
    · obtain rfl := List.mem_singleton.mp hi
      exact ⟨entry, hmem, by rw [hpage, Download.toNat_deletable hd.2]⟩
  · exact h

/-- A message joins the end of the inbox behind all pages before it. -/
theorem Gapless.notify (h : Gapless log d) {raw : Bytes} (hgap : noGap log parse d (.notify raw) = true) :
    Gapless log (d.onNotification parse raw) := by
  unfold Download.onNotification
  simp only [noGap] at hgap
  generalize onData d.table raw = result at hgap ⊢
  obtain ⟨table, outcome⟩ := result
  cases outcome with
  | undecodable e => exact h.frame rfl rfl rfl rfl
  | stored => exact h.frame rfl rfl rfl rfl
  | raised e => exact h.frame rfl rfl rfl rfl
  | dispatched payload =>
    dsimp only at hgap ⊢
    rcases inbox_onInbound parse d.state.session payload with hin | ⟨msg, hmsg, htaker, hin⟩
    · exact h.frame rfl hin rfl rfl
    · rw [hmsg] at hgap
      simp only [htaker, Option.isSome_none, Bool.false_or] at hgap
      refine ⟨?_, h.yielding, h.acking, h.deletes⟩
      intro before entry after heq i hi p hp hlt
      have heq' : (d.yielded ++ d.inbox) ++ [(payload, msg)] = before ++ entry :: after := by
        rw [← heq, List.append_assoc]
        exact congrArg (d.yielded ++ ·) hin.symm
      rcases List.eq_nil_or_concat after with rfl | ⟨after, last, rfl⟩
      · obtain ⟨rfl, hlast⟩ := List.append_inj' heq' rfl
        obtain rfl := (List.cons.inj hlast).1
        rw [hi] at hgap
        have hlog := List.all_eq_true.mp hgap p hp
        rcases Bool.or_eq_true_iff.mp hlog with hle | hany
        · exact absurd (of_decide_eq_true hle) (by omega)
        · obtain ⟨e, he, hpage⟩ := List.any_eq_true.mp hany
          exact ⟨e, he, of_decide_eq_true hpage⟩
      · rw [List.concat_eq_append, ← List.cons_append, ← List.append_assoc] at heq'
        exact h.order before entry after (List.append_inj' heq' rfl).1 i hi p hp hlt

theorem Gapless.take (h : Gapless log d) {entry : InboxEntry} {rest : List InboxEntry} (hin : d.inbox = entry :: rest) :
    Gapless log { d with
      state := { d.state with session := { d.state.session with inbox := rest } }
      phase := .yielded entry
      yielded := d.yielded ++ [entry] } where
  order := by
    intro before e after heq
    refine h.order before e after ?_
    rw [hin, ← heq]
    exact (List.append_assoc d.yielded [entry] rest).symm
  yielding e he := by
    cases he
    exact List.mem_concat_self
  acking e i he := by cases he
  deletes i hi := by
    obtain ⟨e, he, hpage⟩ := h.deletes i hi
    exact ⟨e, List.mem_append_left _ he, hpage⟩

theorem Gapless.resume (h : Gapless log d) {entry : InboxEntry} {index : Int} (hphase : d.phase = .yielded entry)
    (hpage : entry.2.page = some index) :
    Gapless log { d.callDelete index with phase := .acking entry index, acked := d.acked ++ [entry] } where
  order := h.order
  yielding e he := by cases he
  acking e i he := by
    cases he
    exact ⟨h.yielding entry hphase, hpage⟩
  deletes := h.deletes

theorem Gapless.step {a : DownloadAct} (h : Gapless log d) (hgap : noGap log parse d a = true)
    (hstep : d.step parse a = some e) : Gapless log e := by
  cases Download.stepped hstep with
  | notify raw => exact h.notify hgap
  | session hb hstate => exact h.frame rfl (inbox_step hb hstate) rfl rfl
  | begin ok => exact (h.frame (e := d.takeId) rfl rfl rfl rfl).phase (by cases ok <;> simp)
  | take hphase hinbox => exact h.take hinbox
  | timeout => exact h.phase (.inr (.inr rfl))
  | resumePage hphase hpage => exact h.resume hphase hpage
  | resumeOther => exact h.phase (.inr (.inl rfl))
  | ackDone delivered hphase => exact (h.deliverDelete hphase delivered).phase (.inr (.inl rfl))
  | abortWaiting => exact h.phase (.inr (.inr rfl))
  | abortYielded => exact h.phase (.inr (.inr rfl))
  | abortAcking delivered hphase => exact (h.deliverDelete hphase delivered).phase (.inr (.inr rfl))
  | stop => exact (h.frame (e := d.takeId) rfl rfl rfl rfl).phase (.inl rfl)

theorem Gapless.start : Gapless log {} where
  order _ _ _ heq := absurd heq.symm (List.append_ne_nil_of_right_ne_nil _ (List.cons_ne_nil _ _))
  yielding _ he := by cases he
  acking _ _ he := by cases he
  deletes _ hi := by cases hi

theorem Gapless.yielded_of_freed (h : Gapless log d) {p : Nat} (hp : d.Freed log p) : d.Yielded p := by
  obtain ⟨hlog, i, hi, hle⟩ := hp
  obtain ⟨entry, hentry, hpage⟩ := h.deletes i hi
  rcases Nat.lt_or_eq_of_le hle with hlt | rfl
  · obtain ⟨before, after, hsplit⟩ := List.append_of_mem hentry
    have heq : d.yielded ++ d.inbox = before ++ entry :: (after ++ d.inbox) := by
      rw [hsplit, List.append_assoc]
      rfl
    obtain ⟨e, he, hepage⟩ := h.order before entry _ heq i hpage p hlog (by omega)
    exact ⟨e, hsplit ▸ List.mem_append_left _ he, hepage⟩
  · exact ⟨entry, hentry, hpage⟩

end

/-- When no page reaches the inbox before an earlier page of the log has, every page the pendant frees has been
    yielded to the consumer. -/
theorem freed_pages_were_yielded (log : List Nat) (parse : Bytes → Option PendantAllMsg) (acts : List DownloadAct)
    (d : Download) (hrun : Transition.run (Download.step parse) {} acts = some d)
    (hgap : Transition.Meets (Download.step parse) (fun d a => noGap log parse d a = true) {} acts) :
    ∀ p, d.Freed log p → d.Yielded p :=
  fun _ hp =>
    (Transition.run_invariant_of_meets (P := Gapless log) (fun _ _ _ h hc hs => h.step hc hs) hgap hrun .start).yielded_of_freed hp

/-- A `storage_buffer` message with an index and nothing else, on the wire. -/
def pageMessage (index : UInt8) : Bytes := [0x12, 0x02, 0x28, index]

/-- The parser on messages with a page number below 128. -/
def parsePageMessage : Bytes → Option PendantAllMsg
  | [0x12, 0x02, 0x28, index] =>
    if index < 0x80 then some { content := some (.storageBuffer { index := index.toNat }) } else none
  | _ => none

/-- Two pages that arrive in order and are acknowledged. -/
theorem freed_pages_were_yielded_sample :
    ∃ d, Transition.run (Download.step parsePageMessage) {}
        [.notify (encodeFragment 1 0 1 (pageMessage 1)), .notify (encodeFragment 2 0 1 (pageMessage 2)), .begin true, .take,
          .resume, .ackDone true, .take, .resume, .ackDone true, .timeout, .stop] = some d ∧
      d.deletes = [1, 2] ∧ ∀ p, d.Freed [1, 2] p → d.Yielded p := by
  have hrun : (Transition.run (Download.step parsePageMessage) {}
      [.notify (encodeFragment 1 0 1 (pageMessage 1)), .notify (encodeFragment 2 0 1 (pageMessage 2)), .begin true, .take,
        .resume, .ackDone true, .take, .resume, .ackDone true, .timeout, .stop]).map (·.deletes) = some [1, 2] := by
    decide +kernel
  obtain ⟨d, hd, hdeletes⟩ := Option.map_eq_some_iff.mp hrun
  exact ⟨d, hd, hdeletes, freed_pages_were_yielded [1, 2] parsePageMessage _ d hd (by decide +kernel)⟩

/-- The notification with page 1 is lost, page 2 arrives and is acknowledged, and the pendant frees both. -/
theorem delete_frees_lost_page :
    ∃ d, Transition.run (Download.step parsePageMessage) {}
        [.begin true, .notify (encodeFragment 2 0 1 (pageMessage 2)), .take, .resume, .ackDone true] = some d ∧
      d.Freed [1, 2] 1 ∧ ¬ d.Yielded 1 := by
  have hrun : (Transition.run (Download.step parsePageMessage) {}
      [.begin true, .notify (encodeFragment 2 0 1 (pageMessage 2)), .take, .resume, .ackDone true]).map
        (fun d => (d.deletes, d.yielded.map (·.2.page))) = some ([2], [some 2]) := by
    decide +kernel
  obtain ⟨d, hd, hview⟩ := Option.map_eq_some_iff.mp hrun
  obtain ⟨hdeletes, hyielded⟩ := Prod.mk.inj hview
  refine ⟨d, hd, ⟨by simp, 2, by simp [hdeletes], by decide⟩, ?_⟩
  rintro ⟨entry, hentry, hpage⟩
  have hmem := List.mem_map_of_mem (f := fun x : InboxEntry => x.2.page) hentry
  rw [hyielded, hpage, List.mem_singleton] at hmem
  cases hmem

end PendantClient
