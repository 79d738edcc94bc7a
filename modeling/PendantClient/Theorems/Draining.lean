import PendantClient.Theorems.Persist

/-! The order of what the drain loop does: what it yields, when it is resumed, which pages it tells the pendant to delete
    and when it tells it to stop, however the loop ends. -/

namespace PendantClient

/-- What the generator does. -/
inductive DrainEvent
  /-- An entry of the inbox is yielded. -/
  | yields (entry : InboxEntry)
  /-- The consumer asks for the next item. -/
  | resumed
  /-- `delete_flash_page` is called. -/
  | deletes (index : Int)
  /-- `stop_batch_download` is called. -/
  | stops
  deriving Repr, DecidableEq

namespace DrainEvent

/-- The entry that is yielded. -/
def entry? : DrainEvent → Option InboxEntry
  | yields entry => some entry
  | _ => none

/-- The page number that is deleted. -/
def index? : DrainEvent → Option Int
  | deletes index => some index
  | _ => none

end DrainEvent

/-- What the generator does in a step. -/
def Download.drains (d : Download) : DownloadAct → List DrainEvent
  | .take => d.inbox.head?.toList.map .yields
  | .resume =>
    match d.phase with
    | .yielded entry => .resumed :: entry.2.page.toList.map .deletes
    | _ => []
  | .timeout | .abort _ => [.stops]
  | .notify _ | .session _ | .begin _ | .ackDone _ | .stop => []

/-- What a step puts in the inbox. -/
def Download.arrivals (parse : Bytes → Option PendantAllMsg) (d : Download) : DownloadAct → List InboxEntry
  | .notify raw => (d.onNotification parse raw).inbox.drop d.inbox.length
  | .session _ | .begin _ | .take | .timeout | .resume | .ackDone _ | .abort _ | .stop => []

/-- The events of a run. -/
def drainTrace (parse : Bytes → Option PendantAllMsg) (d : Download) (acts : List DownloadAct) : List DrainEvent :=
  Transition.outputs (Download.step parse) Download.drains d acts

/-- What a run puts in the inbox. -/
def arrived (parse : Bytes → Option PendantAllMsg) (d : Download) (acts : List DownloadAct) : List InboxEntry :=
  Transition.outputs (Download.step parse) (Download.arrivals parse) d acts

/-- The generator has ended, or is in its `finally`. -/
def DownloadPhase.ended : DownloadPhase → Bool
  | .idle | .stopping => true
  | .waiting | .yielded _ | .acking _ _ => false

/-- The loop takes its entries from the front of the inbox, and acknowledges them in order: all that it has yielded, but
    perhaps not the last. It does so after the entry was yielded and the consumer has come back for more. -/
structure AckDiscipline (inbox : List InboxEntry) (trace : List DrainEvent) : Prop where
  yields : trace.filterMap DrainEvent.entry? <+: inbox
  deletes : ∃ (acked : List InboxEntry) (last : Option InboxEntry), trace.filterMap DrainEvent.entry? = acked ++ last.toList ∧
    trace.filterMap DrainEvent.index? = acked.filterMap (·.2.page)
  after : ∀ before index rest, trace = before ++ .deletes index :: rest →
    ∃ earlier entry, before = earlier ++ [.yields entry, .resumed] ∧ entry.2.page = some index

/-! ### One turn of the loop -/

/-- What the loop does for an entry when the consumer comes back. -/
def turn (entry : InboxEntry) : List DrainEvent :=
  .yields entry :: .resumed :: entry.2.page.toList.map .deletes

/-- The trace that has led to a phase of the generator: whole turns, then a last entry for which the consumer has not come
    back, and the end. -/
inductive Drained : DownloadPhase → List DrainEvent → Prop
  | waiting (acked : List InboxEntry) : Drained .waiting (acked.flatMap turn)
  | yielded (acked : List InboxEntry) (entry : InboxEntry) : Drained (.yielded entry) (acked.flatMap turn ++ [.yields entry])
  | acking (acked : List InboxEntry) (entry : InboxEntry) (index : Int) : Drained (.acking entry index) (acked.flatMap turn)
  | stopping (acked : List InboxEntry) (last : Option InboxEntry) :
    Drained .stopping (acked.flatMap turn ++ last.toList.map .yields ++ [.stops])
  | idle (acked : List InboxEntry) (last : Option InboxEntry) :
    Drained .idle (acked.flatMap turn ++ last.toList.map .yields ++ [.stops])

section
variable {parse : Bytes → Option PendantAllMsg} {d e : Download} {a : DownloadAct} {trace : List DrainEvent}

theorem turn_snoc (acked : List InboxEntry) (entry : InboxEntry) :
    acked.flatMap turn ++ [.yields entry] ++ .resumed :: entry.2.page.toList.map .deletes = (acked ++ [entry]).flatMap turn := by
  rw [List.flatMap_append, List.flatMap_singleton, List.append_assoc]
  rfl

theorem Drained.stopping_turns (acked : List InboxEntry) : Drained .stopping (acked.flatMap turn ++ [.stops]) := by
  have := Drained.stopping acked none
  rwa [Option.toList_none, List.map_nil, List.append_nil] at this

theorem Drained.step (h : Drained d.phase trace) (hbegin : ∀ ok, a ≠ .begin ok) (hstep : d.step parse a = some e) :
    Drained e.phase (trace ++ d.drains a) := by
  cases Download.stepped hstep with
  | notify raw =>
    rw [phase_step (.inl ⟨raw, rfl⟩) hstep, Download.drains, List.append_nil]
    exact h
  | session =>
    rw [Download.drains, List.append_nil]
    exact h
  | begin ok => exact absurd rfl (hbegin ok)
  | take hphase hinbox =>
    rw [hphase] at h
    cases h with
    | waiting acked =>
      rw [Download.drains, hinbox]
      exact .yielded acked _
  | timeout hphase =>
    rw [hphase] at h
    cases h with
    | waiting acked => exact .stopping_turns acked
  | resumePage hphase hpage =>
    rw [Download.drains, hphase]
    rw [hphase] at h
    cases h with
    | yielded acked entry =>
      dsimp only
      rw [turn_snoc]
      exact .acking _ _ _
  | resumeOther hphase hpage =>
    rw [Download.drains, hphase]
    rw [hphase] at h
    cases h with
    | yielded acked entry =>
      dsimp only
      rw [turn_snoc]
      exact .waiting _
  | ackDone delivered hphase =>
    rw [Download.drains, List.append_nil]
    rw [hphase] at h
    cases h with
    | acking acked entry index => exact .waiting acked
  | abortWaiting delivered hphase =>
    rw [hphase] at h
    cases h with
    | waiting acked => exact .stopping_turns acked
  | abortYielded delivered hphase =>
    rw [hphase] at h
    cases h with
    | yielded acked entry => exact .stopping acked (some _)
  | abortAcking delivered hphase =>
    rw [hphase] at h
    cases h with
    | acking acked entry index => exact .stopping_turns acked
  | stop hphase =>
    rw [Download.drains, List.append_nil]
    rw [hphase] at h
    cases h with
    | stopping acked last => exact .idle acked last

/-- At most one entry is yielded and not yet followed up, and the end comes last. -/
theorem Drained.shape {phase : DownloadPhase} (h : Drained phase trace) : ∃ (acked : List InboxEntry) (last : Option InboxEntry),
    trace = acked.flatMap turn ++ last.toList.map .yields ++ if phase.ended then [.stops] else [] := by
  cases h with
  | waiting acked => exact ⟨acked, none, by simp [DownloadPhase.ended]⟩
  | yielded acked entry => exact ⟨acked, some entry, by simp [DownloadPhase.ended]⟩
  | acking acked entry index => exact ⟨acked, none, by simp [DownloadPhase.ended]⟩
  | stopping acked last => exact ⟨acked, last, rfl⟩
  | idle acked last => exact ⟨acked, last, rfl⟩

/-! ### The inbox -/

theorem entry?_resume (entry : InboxEntry) :
    (DrainEvent.resumed :: entry.2.page.toList.map .deletes).filterMap DrainEvent.entry? = [] := by
  cases entry.2.page <;> rfl

theorem yielded_step (hstep : d.step parse a = some e) : e.yielded = d.yielded ++ (d.drains a).filterMap DrainEvent.entry? := by
  cases Download.stepped hstep with
  | notify raw =>
    rw [(onNotification_keeps parse d raw).2.1, Download.drains]
    exact (List.append_nil _).symm
  | take hphase hinbox =>
    rw [Download.drains, hinbox]
    rfl
  | resumePage hphase =>
    rw [Download.drains, hphase]
    dsimp only
    rw [entry?_resume, List.append_nil]
    rfl
  | resumeOther hphase =>
    rw [Download.drains, hphase]
    dsimp only
    rw [entry?_resume, List.append_nil]
  | ackDone delivered =>
    rw [Download.drains]
    exact (deliverDelete_keeps d _ delivered).2.trans (List.append_nil _).symm
  | abortAcking delivered =>
    rw [Download.drains]
    exact (deliverDelete_keeps d _ delivered).2.trans (List.append_nil _).symm
  | _ => exact (List.append_nil _).symm

/-- The deletes of a step are the pages of what it acknowledges. -/
theorem acked_step (hstep : d.step parse a = some e) :
    e.acked.filterMap (·.2.page) = d.acked.filterMap (·.2.page) ++ (d.drains a).filterMap DrainEvent.index? := by
  have hkeeps (ha : a ≠ .resume) (hnone : (d.drains a).filterMap DrainEvent.index? = []) :
      e.acked.filterMap (·.2.page) = d.acked.filterMap (·.2.page) ++ (d.drains a).filterMap DrainEvent.index? := by
    rw [(step_keeps hstep).1 ha, hnone, List.append_nil]
  cases Download.stepped hstep with
  | @resumePage entry index hphase hpage =>
    have hdeletes : (d.drains .resume).filterMap DrainEvent.index? = [index] := by
      rw [Download.drains, hphase]
      dsimp only
      rw [hpage]
      rfl
    rw [hdeletes]
    simp [hpage]
  | resumeOther hphase hpage =>
    have hdeletes : (d.drains .resume).filterMap DrainEvent.index? = [] := by
      rw [Download.drains, hphase]
      dsimp only
      rw [hpage]
      rfl
    rw [hdeletes, List.append_nil]
  | take hphase hinbox => exact hkeeps (by simp) (by simp [Download.drains, hinbox, DrainEvent.index?])
  | _ => exact hkeeps (by simp) rfl

/-- A step stops the pendant when it enters the `finally`, and only then. -/
theorem stops_step (hstep : d.step parse a = some e) :
    .stops ∈ d.drains a ↔ e.phase = .stopping ∧ d.phase ≠ .stopping := by
  have hunstopped (hphase : e.phase = d.phase) (hnone : d.drains a = []) :
      .stops ∈ d.drains a ↔ e.phase = .stopping ∧ d.phase ≠ .stopping := by
    rw [hnone, hphase]
    simp
  cases Download.stepped hstep with
  | notify raw => exact hunstopped (phase_step (.inl ⟨raw, rfl⟩) hstep) rfl
  | session => exact hunstopped rfl rfl
  | begin ok => cases ok <;> simp [Download.drains]
  | resumePage hphase hpage => simp [Download.drains, hphase, hpage]
  | resumeOther hphase hpage => simp [Download.drains, hphase, hpage]
  | take hphase hinbox => simp [Download.drains, hinbox]
  | timeout hphase => simp [Download.drains, hphase]
  | ackDone delivered hphase => simp [Download.drains]
  | abortWaiting delivered hphase => simp [Download.drains, hphase]
  | abortYielded delivered hphase => simp [Download.drains, hphase]
  | abortAcking delivered hphase => simp [Download.drains, hphase]
  | stop hphase => simp [Download.drains]

theorem inbox_grows (parse : Bytes → Option PendantAllMsg) (d : Download) (raw : Bytes) :
    d.inbox <+: (d.onNotification parse raw).inbox := by
  unfold Download.onNotification
  dsimp only
  split
  · rename_i payload _
    rcases inbox_onInbound parse d.state.session payload with hsame | ⟨msg, -, -, hmore⟩
    · exact ⟨[], by rw [List.append_nil]; exact hsame.symm⟩
    · exact ⟨_, hmore.symm⟩
  · exact List.prefix_rfl

theorem inbox_deliverDelete (d : Download) (index : Int) (delivered : Bool) : (d.deliverDelete index delivered).inbox = d.inbox := by
  rw [Download.deliverDelete]
  split <;> rfl

/-- Entries leave the inbox at its front, to the consumer, and arrive at its end. -/
theorem inbox_keeps (hstep : d.step parse a = some e) :
    e.yielded ++ e.inbox = d.yielded ++ d.inbox ++ d.arrivals parse a := by
  cases Download.stepped hstep with
  | notify raw =>
    rw [(onNotification_keeps parse d raw).2.1, List.append_assoc]
    exact congrArg (d.yielded ++ ·) (List.prefix_iff_eq_append.mp (inbox_grows parse d raw)).symm
  | session hb hstate =>
    rw [Download.arrivals, List.append_nil]
    exact congrArg (d.yielded ++ ·) (inbox_step hb hstate)
  | take hphase hinbox =>
    rw [hinbox, Download.arrivals, List.append_nil]
    exact List.append_assoc d.yielded _ _
  | ackDone delivered =>
    rw [Download.arrivals, List.append_nil]
    exact congrArg₂ (· ++ ·) (deliverDelete_keeps d _ delivered).2 (inbox_deliverDelete d _ delivered)
  | abortAcking delivered =>
    rw [Download.arrivals, List.append_nil]
    exact congrArg₂ (· ++ ·) (deliverDelete_keeps d _ delivered).2 (inbox_deliverDelete d _ delivered)
  | _ => exact (List.append_nil _).symm

end

section
variable {trace : List DrainEvent}

/-! ### The trace -/

theorem entry?_turn (entry : InboxEntry) : (turn entry).filterMap DrainEvent.entry? = [entry] := by
  rw [turn]
  cases entry.2.page <;> rfl

theorem index?_turn (entry : InboxEntry) : (turn entry).filterMap DrainEvent.index? = entry.2.page.toList := by
  rw [turn]
  cases entry.2.page <;> rfl

theorem entry?_turns (acked : List InboxEntry) : (acked.flatMap turn).filterMap DrainEvent.entry? = acked := by
  induction acked with
  | nil => rfl
  | cons entry acked ih => rw [List.flatMap_cons, List.filterMap_append, ih, entry?_turn, List.singleton_append]

theorem index?_turns (acked : List InboxEntry) :
    (acked.flatMap turn).filterMap DrainEvent.index? = acked.filterMap (·.2.page) := by
  induction acked with
  | nil => rfl
  | cons entry acked ih =>
    rw [List.flatMap_cons, List.filterMap_append, ih, index?_turn, List.filterMap_cons]
    cases entry.2.page <;> rfl

theorem stops_notMem_turns (acked : List InboxEntry) (last : Option InboxEntry) :
    DrainEvent.stops ∉ acked.flatMap turn ++ last.toList.map .yields := by
  simp [turn]

/-- In whole turns a delete comes after its entry and the consumer's return. -/
theorem before_delete {tail : List DrainEvent} {index : Int} {rest : List DrainEvent} (htail : .deletes index ∉ tail)
    (acked : List InboxEntry) : ∀ before, acked.flatMap turn ++ tail = before ++ .deletes index :: rest →
    ∃ earlier entry, before = earlier ++ [.yields entry, .resumed] ∧ entry.2.page = some index := by
  induction acked with
  | nil =>
    intro before h
    rw [List.flatMap_nil, List.nil_append] at h
    rw [h] at htail
    exact absurd (List.mem_append_right _ List.mem_cons_self) htail
  | cons entry acked ih =>
    intro before h
    rw [List.flatMap_cons, turn, List.append_assoc] at h
    obtain _ | ⟨x, _ | ⟨y, before⟩⟩ := before
    · cases h
    · cases h
    · simp only [List.cons_append, List.cons.injEq] at h
      obtain ⟨rfl, rfl, h⟩ := h
      cases hpage : entry.2.page with
      | none =>
        rw [hpage] at h
        obtain ⟨earlier, e, rfl, he⟩ := ih before h
        exact ⟨.yields entry :: .resumed :: earlier, e, rfl, he⟩
      | some i =>
        rw [hpage] at h
        cases before with
        | nil =>
          cases h
          exact ⟨[], entry, rfl, hpage⟩
        | cons z before =>
          simp only [Option.toList_some, List.map_singleton, List.cons_append, List.cons.injEq] at h
          obtain ⟨rfl, h⟩ := h
          obtain ⟨earlier, e, rfl, he⟩ := ih before h
          exact ⟨.yields entry :: .resumed :: .deletes i :: earlier, e, rfl, he⟩

/-- A trace of whole turns, a last entry and the end keeps the discipline. -/
theorem Drained.discipline {phase : DownloadPhase} {inbox : List InboxEntry} (h : Drained phase trace)
    (hinbox : trace.filterMap DrainEvent.entry? <+: inbox) : AckDiscipline inbox trace := by
  obtain ⟨acked, last, rfl⟩ := h.shape
  have hend : (if phase.ended then [DrainEvent.stops] else []).filterMap DrainEvent.entry? = [] ∧
      (if phase.ended then [DrainEvent.stops] else []).filterMap DrainEvent.index? = [] := by
    cases phase.ended <;> exact ⟨rfl, rfl⟩
  refine ⟨hinbox, ⟨acked, last, ?_, ?_⟩, fun before index rest heq => ?_⟩
  · rw [List.filterMap_append, List.filterMap_append, entry?_turns, hend.1, List.append_nil]
    cases last <;> rfl
  · rw [List.filterMap_append, List.filterMap_append, index?_turns, hend.2, List.append_nil]
    cases last <;> simp [DrainEvent.index?]
  · rw [List.append_assoc] at heq
    refine before_delete ?_ acked before heq
    cases phase.ended <;> simp

theorem Drained.stops {phase : DownloadPhase} (h : Drained phase trace) :
    if phase.ended then ∃ before, trace = before ++ [.stops] ∧ .stops ∉ before else .stops ∉ trace := by
  obtain ⟨acked, last, rfl⟩ := h.shape
  cases phase.ended with
  | true => exact ⟨_, rfl, stops_notMem_turns acked last⟩
  | false => simpa using stops_notMem_turns acked last

end

/-- The deletes of a run are the pages of what it has acknowledged. -/
theorem drainTrace_acked {parse : Bytes → Option PendantAllMsg} {d₀ d : Download} {acts : List DownloadAct}
    (hrun : Transition.run (Download.step parse) d₀ acts = some d) :
    d.acked.filterMap (·.2.page) = d₀.acked.filterMap (·.2.page) ++ (drainTrace parse d₀ acts).filterMap DrainEvent.index? :=
  Transition.outputs_invariant (g := Download.drains) (C := fun _ => True)
    (P := fun d os => d.acked.filterMap (·.2.page) = d₀.acked.filterMap (·.2.page) ++ os.filterMap DrainEvent.index?)
    (fun s a t os hs _ hstep => by rw [acked_step hstep, hs, List.append_assoc, ← List.filterMap_append])
    (fun _ _ => trivial) hrun (List.append_nil _).symm

/-- However the entries arrive, the commands fail and the generator ends: its deletes keep the discipline, and once it ends
    it asks the pendant to stop, once and last. -/
theorem drain_discipline (parse : Bytes → Option PendantAllMsg) (d₀ d : Download) (acts : List DownloadAct)
    (hone : ∀ ok, .begin ok ∉ acts)
    (hrun : Transition.run (Download.step parse) d₀ (.begin true :: acts) = some d) :
    AckDiscipline (d₀.inbox ++ arrived parse d₀ (.begin true :: acts)) (drainTrace parse d₀ (.begin true :: acts)) ∧
    if d.phase.ended then ∃ before, drainTrace parse d₀ (.begin true :: acts) = before ++ [.stops] ∧ .stops ∉ before
    else .stops ∉ drainTrace parse d₀ (.begin true :: acts) := by
  have hyielded := Transition.outputs_invariant (g := Download.drains) (C := fun _ => True)
    (P := fun d os => d.yielded = d₀.yielded ++ os.filterMap DrainEvent.entry?)
    (fun s a t os hs _ hstep => by rw [yielded_step hstep, hs, List.append_assoc, ← List.filterMap_append])
    (fun _ _ => trivial) hrun (List.append_nil _).symm
  have hinbox := Transition.outputs_invariant (g := Download.arrivals parse) (C := fun _ => True)
    (P := fun d os => d.yielded ++ d.inbox = d₀.yielded ++ (d₀.inbox ++ os))
    (fun s a t os hs _ hstep => by rw [inbox_keeps hstep, hs]; simp only [List.append_assoc])
    (fun _ _ => trivial) hrun (by rw [List.append_nil])
  have hdrained : Drained d.phase (drainTrace parse d₀ (.begin true :: acts)) := by
    obtain ⟨d₁, hbegin, hrest⟩ := Transition.run_cons.mp hrun
    have hstart : d₁.phase = .waiting := by
      cases Download.stepped hbegin
      rfl
    rw [drainTrace, Transition.outputs, hbegin]
    exact Transition.outputs_invariant (g := Download.drains) (P := fun d os => Drained d.phase os)
      (C := fun a => ∀ ok, a ≠ .begin ok) (fun s a t os hs ha hstep => hs.step ha hstep)
      (fun a ha ok heq => hone ok (heq ▸ ha)) hrest (hstart ▸ .waiting [])
  rw [hyielded, List.append_assoc] at hinbox
  exact ⟨hdrained.discipline ⟨d.inbox, List.append_cancel_left hinbox⟩, hdrained.stops⟩

/-- Two pages arrive; the delete command for the first fails, and the consumer closes the generator at the second. -/
def closedAtYield : List DownloadAct :=
  [.notify (encodeFragment 1 0 1 (pageMessage 1)), .take, .resume, .notify (encodeFragment 2 0 1 (pageMessage 2)),
    .ackDone false, .take, .abort false, .stop]

theorem drain_discipline_sample : ∃ d, Transition.run (Download.step parsePageMessage) {} (.begin true :: closedAtYield) = some d ∧
    AckDiscipline (({} : Download).inbox ++ arrived parsePageMessage {} (.begin true :: closedAtYield))
      (drainTrace parsePageMessage {} (.begin true :: closedAtYield)) ∧
    if d.phase.ended then
      ∃ before, drainTrace parsePageMessage {} (.begin true :: closedAtYield) = before ++ [.stops] ∧ .stops ∉ before
    else .stops ∉ drainTrace parsePageMessage {} (.begin true :: closedAtYield) := by
  obtain ⟨d, hrun⟩ := Option.isSome_iff_exists.mp
    (show (Transition.run (Download.step parsePageMessage) {} (.begin true :: closedAtYield)).isSome by decide +kernel)
  exact ⟨d, hrun, drain_discipline parsePageMessage {} d closedAtYield (fun ok => by cases ok <;> decide) hrun⟩

example : (drainTrace parsePageMessage {} (.begin true :: closedAtYield)).filterMap DrainEvent.index? = [1] := by decide +kernel

end PendantClient
