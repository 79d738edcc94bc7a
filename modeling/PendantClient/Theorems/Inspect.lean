import PendantClient.Inspect
import PendantClient.Lib.Records
import PendantClient.Theorems.PageLoss

/-! The `inspect` command and the session's inbox. The loop of the command would do its work on messages, but what the session
    enqueues are pairs of a payload and a message, and the first one ends it. -/

namespace PendantClient

/-- The flash page of an entry, if it is one that the command is to capture. -/
def flashPage? (entry : InboxEntry) : Option StorageBufferMsg :=
  match entry.2.content with
  | some (.storageBuffer sb) => if sb.flashPage.isEmpty then none else some sb
  | _ => none

/-- The pages to capture among some entries. -/
def flashPages (entries : List InboxEntry) : List StorageBufferMsg := entries.filterMap flashPage?

namespace InspectAct

/-- The payload that the transport dispatches. -/
def payload? : InspectAct → Option Bytes
  | inbound payload => some payload
  | _ => none

end InspectAct

/-- What the session enqueues in a run, as it stands when nothing is taken out. -/
def enqueued (parse : Bytes → Option PendantAllMsg) (session : Session) (acts : List InspectAct) : List InboxEntry :=
  ((acts.filterMap InspectAct.payload?).foldl (Session.onInbound parse) session).inbox

/-- How the loop was left, once it was. -/
def InspectPhase.exit : InspectPhase → Option LoopExit
  | .stopping exit => some exit
  | .ended exit _ => exit
  | .handshaking | .beginning | .waiting | .deleting => none

/-- The loop takes what is enqueued in order, raises on none of it, asks for more just while it has fewer pages than the limit,
    deletes the pages from the pendant, and writes them to the file. -/
structure Inspect.Processes (options : InspectOptions) (enqueued : List InboxEntry) (s : Inspect) : Prop where
  order : s.taken <+: enqueued
  consumes : ∀ e, s.phase.exit ≠ some (.raised e)
  waits : s.phase = .waiting → (flashPages s.taken).length < options.numPages
  limit : s.phase.exit = some .limit → options.numPages ≤ (flashPages s.taken).length
  most : (flashPages s.taken).length ≤ options.numPages.toNat
  deletes : s.deletes = (flashPages s.taken).map (·.index)
  file : options.hasOut = true → Records.Splits 4 s.written ((flashPages s.taken).map (·.flashPage)) ∧
    ∀ others, Records.Splits 4 s.written others → others = (flashPages s.taken).map (·.flashPage)

/-! ### Steps -/

/-- What a step does, and what it needs of the state it starts from. -/
inductive Inspect.Stepped (parse : Bytes → Option PendantAllMsg) (object : InboxEntry → InboxObject) (options : InspectOptions)
    (s : Inspect) : InspectAct → Inspect → Prop
  | inbound (payload : Bytes) :
    Stepped parse object options s (.inbound payload) { s with session := s.session.onInbound parse payload }
  | begin (hphase : s.phase = .handshaking) : Stepped parse object options s .sent (s.send .beginning)
  | enter (hphase : s.phase = .beginning ∨ s.phase = .deleting) : Stepped parse object options s .sent (s.loop options)
  | finish {exit : LoopExit} (hphase : s.phase = .stopping exit) :
    Stepped parse object options s .sent { s with phase := .ended (some exit) exit.error? }
  | take {entry : InboxEntry} {rest : List InboxEntry} (hphase : s.phase = .waiting) (hinbox : s.session.inbox = entry :: rest) :
    Stepped parse object options s .take
      ({ s with session := { s.session with inbox := rest }, taken := s.taken ++ [entry] }.body options (object entry))
  | timeout (hphase : s.phase = .waiting) : Stepped parse object options s .timeout (s.leave .idle)
  | fails (e : PyError) (hphase : s.phase = .handshaking ∨ s.phase = .beginning) :
    Stepped parse object options s (.raises e) { s with phase := .ended none (some e) }
  | interrupted (e : PyError) (hphase : s.phase = .waiting ∨ s.phase = .deleting) :
    Stepped parse object options s (.raises e) (s.leave (.interrupted e))
  | stopFails (e : PyError) {exit : LoopExit} (hphase : s.phase = .stopping exit) :
    Stepped parse object options s (.raises e) { s with phase := .ended (some exit) (some e) }

section
variable {parse : Bytes → Option PendantAllMsg} {object : InboxEntry → InboxObject} {options : InspectOptions} {s t : Inspect}
  {a : InspectAct} {entry : InboxEntry} {sb : StorageBufferMsg}

theorem Inspect.stepped (h : s.step parse object options a = some t) : Inspect.Stepped parse object options s a t := by
  cases a with
  | inbound payload =>
    cases h
    exact .inbound payload
  | sent =>
    simp only [Inspect.step] at h
    split at h
    · cases h
      exact .begin ‹_›
    · cases h
      exact .enter (.inl ‹_›)
    · cases h
      exact .enter (.inr ‹_›)
    · cases h
      exact .finish ‹_›
    · cases h
  | take =>
    simp only [Inspect.step] at h
    split at h
    · cases h
      exact .take ‹_› ‹_›
    · cases h
  | timeout =>
    simp only [Inspect.step] at h
    split at h
    · cases h
      exact .timeout ‹_›
    · cases h
  | raises e =>
    simp only [Inspect.step] at h
    split at h
    · cases h
      exact .fails e (.inl ‹_›)
    · cases h
      exact .fails e (.inr ‹_›)
    · cases h
      exact .interrupted e (.inl ‹_›)
    · cases h
      exact .interrupted e (.inr ‹_›)
    · cases h
      exact .stopFails e ‹_›
    · cases h

/-- Nothing is taken, and of the session only the request ids move on. -/
structure Inspect.Kept (s t : Inspect) : Prop where
  taken : t.taken = s.taken
  session : ∃ n, t.session = { s.session with lastRequestId := n }

theorem kept_loop (options : InspectOptions) (s : Inspect) : s.Kept (s.loop options) := by
  rw [Inspect.loop]
  split
  · exact ⟨rfl, _, rfl⟩
  · exact ⟨rfl, _, rfl⟩

theorem kept_delete (s : Inspect) (index : Int) : s.Kept (s.delete index) := by
  rw [Inspect.delete]
  split
  · exact ⟨rfl, _, rfl⟩
  · exact ⟨rfl, _, rfl⟩

theorem kept_body (options : InspectOptions) (s : Inspect) (msg : InboxObject) : s.Kept (s.body options msg) := by
  rw [Inspect.body]
  split
  · exact ⟨rfl, _, rfl⟩
  · exact kept_loop options s
  · dsimp only
    split
    · split
      · exact ⟨rfl, _, rfl⟩
      · exact ⟨(kept_delete _ _).taken, (kept_delete _ _).session⟩
    · exact ⟨(kept_delete _ _).taken, (kept_delete _ _).session⟩

/-- A step that takes nothing and brings nothing in. -/
theorem kept_step (htake : a ≠ .take) (hinbound : a.payload? = none) (h : s.step parse object options a = some t) : s.Kept t := by
  cases Inspect.stepped h with
  | inbound payload => cases hinbound
  | take => exact absurd rfl htake
  | enter => exact kept_loop options s
  | _ => exact ⟨rfl, _, rfl⟩

theorem taken_step (h : s.step parse object options a = some t) :
    (a ≠ .take ∧ t.taken = s.taken) ∨ a = .take ∧ ∃ entry, t.taken = s.taken ++ [entry] := by
  cases Inspect.stepped h with
  | take => exact .inr ⟨rfl, _, (kept_body _ _ _).taken⟩
  | enter => exact .inl ⟨by simp, (kept_loop options s).taken⟩
  | _ => exact .inl ⟨by simp, rfl⟩

theorem exit_step {exit : LoopExit} (hs : s.phase.exit = some exit) (h : s.step parse object options a = some t) :
    t.phase.exit = some exit := by
  cases Inspect.stepped h with
  | inbound payload => exact hs
  | begin hphase | take hphase | timeout hphase =>
    rw [hphase] at hs
    cases hs
  | enter hphase =>
    rcases hphase with hphase | hphase
    · rw [hphase] at hs
      cases hs
    · rw [hphase] at hs
      cases hs
  | fails e hphase | interrupted e hphase =>
    rcases hphase with hphase | hphase
    · rw [hphase] at hs
      cases hs
    · rw [hphase] at hs
      cases hs
  | finish hphase | stopFails e hphase =>
    rw [hphase] at hs
    exact hs

end

/-! ### The order of the entries -/

/-- What a payload puts in the inbox does not depend on what is in it. -/
theorem onInbound_inbox (parse : Bytes → Option PendantAllMsg) (session : Session) (payload : Bytes) : ∃ new,
    (session.onInbound parse payload).inbox = session.inbox ++ new ∧ ∀ inbox n,
    ({ session with inbox, lastRequestId := n } : Session).onInbound parse payload =
      { session.onInbound parse payload with inbox := inbox ++ new, lastRequestId := n } := by
  cases hmsg : parse payload with
  | none =>
    refine ⟨[], ?_, fun inbox n => ?_⟩
    · rw [Session.onInbound_none hmsg, List.append_nil]
    · rw [Session.onInbound_none hmsg, Session.onInbound_none hmsg, List.append_nil]
  | some msg =>
    cases htaker : session.taker msg with
    | some f =>
      refine ⟨[], ?_, fun inbox n => ?_⟩
      · rw [Session.onInbound_eq hmsg, htaker, List.append_nil]
      · have htaker' : ({ session with inbox, lastRequestId := n } : Session).taker msg = some f := htaker
        rw [Session.onInbound_eq hmsg, Session.onInbound_eq hmsg, htaker, htaker', List.append_nil]
        rfl
    | none =>
      refine ⟨[(payload, msg)], ?_, fun inbox n => ?_⟩
      · rw [Session.onInbound_eq hmsg, htaker]
      · have htaker' : ({ session with inbox, lastRequestId := n } : Session).taker msg = none := htaker
        rw [Session.onInbound_eq hmsg, Session.onInbound_eq hmsg, htaker, htaker']
        rfl

/-- The command's session is the one that nothing is taken from, but for the entries taken and the request ids. -/
structure Inspect.Consumes (s : Inspect) (producer : Session) : Prop where
  inbox : producer.inbox = s.taken ++ s.session.inbox
  session : ∃ n, s.session = { producer with inbox := s.session.inbox, lastRequestId := n }

section
variable {parse : Bytes → Option PendantAllMsg} {object : InboxEntry → InboxObject} {options : InspectOptions} {s t : Inspect}
  {producer : Session}

theorem Inspect.Consumes.kept (h : s.Consumes producer) (hkept : s.Kept t) : t.Consumes producer := by
  obtain ⟨n, hsession⟩ := hkept.session
  obtain ⟨m, hproducer⟩ := h.session
  refine ⟨?_, n, ?_⟩
  · rw [hkept.taken, hsession]
    exact h.inbox
  · rw [hsession, hproducer]

theorem Inspect.Consumes.step {a : InspectAct} (h : s.Consumes producer) (hstep : s.step parse object options a = some t) :
    t.Consumes (a.payload?.toList.foldl (Session.onInbound parse) producer) := by
  have hs := Inspect.stepped hstep
  cases hs with
  | inbound payload =>
    obtain ⟨new, hnew, hmoved⟩ := onInbound_inbox parse producer payload
    obtain ⟨n, hsession⟩ := h.session
    have honInbound : s.session.onInbound parse payload =
        { producer.onInbound parse payload with inbox := s.session.inbox ++ new, lastRequestId := n } := by
      rw [hsession]
      exact hmoved _ n
    refine ⟨?_, n, ?_⟩
    · show (producer.onInbound parse payload).inbox = s.taken ++ (s.session.onInbound parse payload).inbox
      rw [hnew, honInbound, h.inbox, List.append_assoc]
    · show s.session.onInbound parse payload = _
      rw [honInbound]
      rfl
  | @take entry rest hphase hinbox =>
    refine Inspect.Consumes.kept ?_ (kept_body options _ (object entry))
    obtain ⟨n, hsession⟩ := h.session
    refine ⟨?_, n, ?_⟩
    · rw [List.append_assoc, List.singleton_append, ← hinbox]
      exact h.inbox
    · dsimp only
      rw [hsession]
      rfl
  | enter => exact h.kept (kept_step (by decide) rfl hstep)
  | _ => exact h.kept (kept_step (fun h => by cases h) rfl hstep)

/-- What is taken is what comes first in the inbox that the session fills. -/
theorem consumes_enqueued {session : Session} {acts : List InspectAct}
    (hrun : Transition.run (Inspect.step parse object options) { session } acts = some s) :
    s.taken ++ s.session.inbox = enqueued parse session acts := by
  have hconsumes := Transition.run_induction
    (P := fun acts s => s.Consumes ((acts.filterMap InspectAct.payload?).foldl (Session.onInbound parse) session))
    ⟨rfl, _, rfl⟩ (fun pre a u v _ hu hstep => by
      rw [List.filterMap_append, List.foldl_append]
      have := hu.step hstep
      cases hpayload : a.payload? with
      | none => simpa [hpayload] using this
      | some payload => simpa [hpayload] using this) hrun
  exact hconsumes.inbox.symm

end

/-! ### The pages -/

/-- For each entry with a page to capture there is a page on file and a delete command. -/
structure Inspect.Counted (options : InspectOptions) (s : Inspect) : Prop where
  captured : s.captured = (flashPages s.taken).length
  most : s.captured ≤ options.numPages.toNat
  deletes : s.deletes = (flashPages s.taken).map (·.index)
  file : options.hasOut = true → Records.Splits 4 s.written ((flashPages s.taken).map (·.flashPage))

/-- Where the command is agrees with the number of pages captured. -/
def InspectPhase.Fits (numPages : Int) (captured : Nat) : InspectPhase → Prop
  | .waiting => captured < numPages
  | .stopping .limit | .ended (some .limit) _ => numPages ≤ captured
  | .stopping (.raised _) | .ended (some (.raised _)) _ => False
  | _ => True

namespace InspectPhase.Fits
variable {numPages : Int} {captured : Nat} {phase : InspectPhase}

theorem consumes (h : phase.Fits numPages captured) (e : PyError) : phase.exit ≠ some (.raised e) := by
  intro he
  cases phase with
  | stopping exit =>
    cases he
    exact h
  | ended exit raised =>
    cases he
    exact h
  | _ => cases he

theorem limit (h : phase.Fits numPages captured) (hlimit : phase.exit = some .limit) : numPages ≤ captured := by
  cases phase with
  | stopping exit =>
    cases hlimit
    exact h
  | ended exit raised =>
    cases hlimit
    exact h
  | _ => cases hlimit

/-- The end of the `finally` does not change how the loop was left. -/
theorem ended {exit : LoopExit} (h : (InspectPhase.stopping exit).Fits numPages captured) (raised : Option PyError) :
    (InspectPhase.ended (some exit) raised).Fits numPages captured := by
  cases exit <;> exact h

end InspectPhase.Fits

/-- The loop can use the entry: it finds the message, and the page's index and length fit where they go. -/
structure Usable (object : InboxEntry → InboxObject) (options : InspectOptions) (entry : InboxEntry) : Prop where
  message : object entry = .message entry.2
  index : ∀ sb, flashPage? entry = some sb → 0 ≤ sb.index ∧ sb.index < 2 ^ 32
  length : ∀ sb, flashPage? entry = some sb → options.hasOut = true → sb.flashPage.length < 2 ^ 32

section
variable {parse : Bytes → Option PendantAllMsg} {object : InboxEntry → InboxObject} {options : InspectOptions} {s t : Inspect}
  {a : InspectAct} {entry : InboxEntry}

theorem capturedPage_message (entry : InboxEntry) : (InboxObject.message entry.2).capturedPage = .ok (flashPage? entry) := by
  obtain ⟨payload, responseData, content⟩ := entry
  rcases content with _ | sb | ⟨kind, hkind, encoding⟩
  · rfl
  · rw [InboxObject.capturedPage, InboxObject.whichOneof, ok_bind, if_neg (by simp [PendantAllMsg.whichOneof]), InboxObject.storageBuffer,
      ok_bind, flashPage?]
    dsimp only
    split <;> rfl
  · rw [InboxObject.capturedPage, InboxObject.whichOneof, ok_bind, if_pos (by simpa [PendantAllMsg.whichOneof] using hkind)]
    rfl

theorem flashPages_concat (entries : List InboxEntry) (entry : InboxEntry) :
    flashPages (entries ++ [entry]) = flashPages entries ++ (flashPage? entry).toList := by
  rw [flashPages, List.filterMap_append]
  cases hpage : flashPage? entry <;> simp [flashPages, hpage]

theorem Inspect.Counted.loop (h : s.Counted options) : (s.loop options).Counted options ∧
    (s.loop options).phase.Fits options.numPages (s.loop options).captured := by
  rw [Inspect.loop]
  split
  · rename_i hmore
    exact ⟨⟨h.captured, h.most, h.deletes, h.file⟩, hmore⟩
  · rename_i hdone
    exact ⟨⟨h.captured, h.most, h.deletes, h.file⟩, Int.not_lt.mp hdone⟩

/-- The loop does its work for an entry that it can use. -/
theorem Inspect.Counted.body (h : s.Counted options) (hmore : s.captured < options.numPages) (husable : Usable object options entry)
    (session : Session) :
    let t := { s with session, taken := s.taken ++ [entry] }.body options (object entry)
    t.Counted options ∧ t.phase.Fits options.numPages t.captured := by
  dsimp only
  rw [husable.message, Inspect.body, capturedPage_message]
  have hpages := flashPages_concat s.taken entry
  cases hpage : flashPage? entry with
  | none =>
    rw [hpage, Option.toList_none, List.append_nil] at hpages
    refine Inspect.Counted.loop ⟨?_, h.most, ?_, fun hout => ?_⟩
    · exact h.captured.trans (congrArg List.length hpages.symm)
    · exact h.deletes.trans (congrArg (List.map _) hpages.symm)
    · show Records.Splits 4 s.written ((flashPages (s.taken ++ [entry])).map _)
      rw [hpages]
      exact h.file hout
  | some sb =>
    rw [hpage, Option.toList_some] at hpages
    have hcaptured : s.captured + 1 = (flashPages (s.taken ++ [entry])).length := by
      rw [hpages, List.length_append, ← h.captured]
      rfl
    have hmost : s.captured + 1 ≤ options.numPages.toNat := by omega
    have hdeletes : s.deletes ++ [sb.index] = (flashPages (s.taken ++ [entry])).map (·.index) := by
      rw [hpages, List.map_append, ← h.deletes]
      rfl
    dsimp only
    split
    · rename_i hout
      have hlength := husable.length sb hpage hout
      rw [toBytes4, if_pos hlength]
      dsimp only
      rw [Inspect.delete, if_pos (husable.index sb hpage)]
      refine ⟨⟨hcaptured, hmost, hdeletes, fun _ => ?_⟩, trivial⟩
      show Records.Splits 4 _ ((flashPages (s.taken ++ [entry])).map _)
      rw [hpages, List.map_append]
      exact (h.file hout).snoc hlength
    · rename_i hout
      rw [Inspect.delete, if_pos (husable.index sb hpage)]
      exact ⟨⟨hcaptured, hmost, hdeletes, fun h => absurd h hout⟩, trivial⟩

theorem Inspect.Counted.step (h : s.Counted options) (hfits : s.phase.Fits options.numPages s.captured)
    (husable : ∀ entry ∈ t.taken, Usable object options entry) (hstep : s.step parse object options a = some t) :
    t.Counted options ∧ t.phase.Fits options.numPages t.captured := by
  have hcounted (session : Session) (phase : InspectPhase) : Counted options { s with session, phase } :=
    ⟨h.captured, h.most, h.deletes, h.file⟩
  cases Inspect.stepped hstep with
  | inbound payload => exact ⟨hcounted _ _, hfits⟩
  | begin => exact ⟨hcounted _ _, trivial⟩
  | enter => exact h.loop
  | finish hphase =>
    rw [hphase] at hfits
    exact ⟨hcounted _ _, hfits.ended _⟩
  | @take entry rest hphase hinbox =>
    rw [hphase] at hfits
    refine h.body hfits (husable entry ?_) _
    rw [(kept_body _ _ _).taken]
    exact List.mem_append_right _ List.mem_cons_self
  | timeout => exact ⟨hcounted _ _, trivial⟩
  | fails => exact ⟨hcounted _ _, trivial⟩
  | interrupted => exact ⟨hcounted _ _, trivial⟩
  | stopFails e hphase =>
    rw [hphase] at hfits
    exact ⟨hcounted _ _, hfits.ended _⟩

/-- In a run on entries that it can use the command does its work. -/
theorem processes_of_usable {session : Session} {acts : List InspectAct}
    (hrun : Transition.run (Inspect.step parse object options) { session } acts = some s)
    (husable : ∀ entry ∈ s.taken, Usable object options entry) : s.Processes options (enqueued parse session acts) := by
  have hcounted := Transition.run_invariant
    (P := fun s => (∀ entry ∈ s.taken, Usable object options entry) → s.Counted options ∧ s.phase.Fits options.numPages s.captured)
    (fun s a t hs hstep husable => by
      have htaken : ∀ entry ∈ s.taken, Usable object options entry := by
        intro entry hentry
        rcases taken_step hstep with ⟨-, hsame⟩ | ⟨-, _, hmore⟩
        · exact husable entry (hsame ▸ hentry)
        · exact husable entry (hmore ▸ List.mem_append_left _ hentry)
      exact (hs htaken).1.step (hs htaken).2 husable hstep)
    hrun fun _ => ⟨⟨rfl, Nat.zero_le _, rfl, fun _ => .nil 4⟩, trivial⟩
  obtain ⟨hcounted, hfits⟩ := hcounted husable
  rw [hcounted.captured] at hfits
  exact
    { order := ⟨_, consumes_enqueued hrun⟩
      consumes := hfits.consumes
      waits := fun hphase => by rwa [hphase] at hfits
      limit := hfits.limit
      most := hcounted.captured ▸ hcounted.most
      deletes := hcounted.deletes
      file := fun hout => ⟨hcounted.file hout, fun others hothers => hothers.unique (by decide) (hcounted.file hout)⟩ }

/-! ### The pairs in the inbox -/

theorem taken_eq_nil {session : Session} {acts : List InspectAct} (htake : .take ∉ acts)
    (hrun : Transition.run (Inspect.step parse object options) { session } acts = some s) : s.taken = [] := by
  have hmeets : Transition.Meets (Inspect.step parse object options) (fun _ a => a ≠ .take) { session } acts := by
    rintro pre a post t rfl - rfl
    exact htake (List.mem_append_right _ List.mem_cons_self)
  refine Transition.run_invariant_of_meets (P := fun s => s.taken = []) (fun s a t hs ha hstep => ?_) hmeets hrun rfl
  rcases taken_step hstep with ⟨-, hsame⟩ | ⟨htaken, -⟩
  · exact hsame.trans hs
  · exact absurd htaken ha

/-- The first entry ends the loop. -/
theorem exit_of_take {session : Session} {acts : List InspectAct} (htake : .take ∈ acts)
    (hrun : Transition.run (Inspect.step parse inboxObject options) { session } acts = some s) :
    s.phase.exit = some (.raised (InboxObject.noAttribute "WhichOneof")) := by
  obtain ⟨before, after, rfl⟩ := List.append_of_mem htake
  rw [Transition.run_append, Option.bind_eq_some_iff] at hrun
  obtain ⟨u, -, hrun⟩ := hrun
  obtain ⟨v, hstep, hrun⟩ := Transition.run_cons.mp hrun
  refine Transition.run_invariant (P := fun s => s.phase.exit = some (.raised (InboxObject.noAttribute "WhichOneof")))
    (fun _ _ _ => exit_step) hrun ?_
  cases Inspect.stepped hstep with
  | take => rfl

end

/-- The command does its work exactly as long as it takes nothing out of the inbox. -/
theorem inspect_processes_iff (parse : Bytes → Option PendantAllMsg) (options : InspectOptions) (session : Session)
    (acts : List InspectAct) (s : Inspect)
    (hrun : Transition.run (Inspect.step parse inboxObject options) { session } acts = some s) :
    s.Processes options (enqueued parse session acts) ↔ .take ∉ acts := by
  constructor
  · intro h htake
    exact h.consumes _ (exit_of_take htake hrun)
  · intro htake
    refine processes_of_usable hrun fun entry hentry => ?_
    rw [taken_eq_nil htake hrun] at hentry
    cases hentry

/-- Nothing arrives, and the loop gives up. -/
theorem inspect_processes_sample :
    ∃ s, Transition.run (Inspect.step (fun _ => none) inboxObject {}) {} [.sent, .sent, .timeout, .sent] = some s ∧
      s.phase = .ended (some .idle) none ∧
        s.Processes {} (enqueued (fun _ => none) { lastRequestId := 1 } [.sent, .sent, .timeout, .sent]) := by
  have hview : (Transition.run (Inspect.step (fun _ => none) inboxObject {}) {} [.sent, .sent, .timeout, .sent]).map
      (fun s => s.phase) = some (.ended (some .idle) none) := by decide +kernel
  obtain ⟨s, hrun, hphase⟩ := Option.map_eq_some_iff.mp hview
  exact ⟨s, hrun, hphase, (inspect_processes_iff (fun _ => none) {} { lastRequestId := 1 } _ s hrun).mpr (by decide)⟩

/-- A `storage_buffer` message with index 7 and a flash page of one byte. -/
def capturedMessage : Bytes := [0x12, 0x05, 0x28, 0x07, 0x32, 0x01, 0xAA]

/-- The parser on that message. -/
def parseCapturedMessage (payload : Bytes) : Option PendantAllMsg :=
  if payload = capturedMessage then some { content := some (.storageBuffer { index := 7, flashPage := [0xAA] }) } else none

/-- `-n 1 -o pages.bin`. -/
def capturedOptions : InspectOptions := { numPages := 1, outPath := some "pages.bin" }

/-- The page arrives and is taken. -/
def capturedRun : List InspectAct := [.sent, .sent, .inbound capturedMessage, .take, .sent]

/-- What the loop's first access raises. -/
def tupleError : PyError := .attributeError "'tuple' object has no attribute 'WhichOneof'"

/-- The command ends with an exception, and has neither written nor deleted the page. -/
theorem first_entry_ends_inspect : ∃ s,
    Transition.run (Inspect.step parseCapturedMessage inboxObject capturedOptions) {} capturedRun = some s ∧
    s.phase = .ended (some (.raised tupleError)) (some tupleError) ∧ s.deletes = [] ∧ s.written = [] ∧
    ¬s.Processes capturedOptions (enqueued parseCapturedMessage { lastRequestId := 1 } capturedRun) := by
  have hview : (Transition.run (Inspect.step parseCapturedMessage inboxObject capturedOptions) {} capturedRun).map
      (fun s => (s.phase, s.deletes, s.written)) = some (.ended (some (.raised tupleError)) (some tupleError), [], []) := by
    decide +kernel
  obtain ⟨s, hrun, hview⟩ := Option.map_eq_some_iff.mp hview
  obtain ⟨hphase, hrest⟩ := Prod.mk.inj hview
  obtain ⟨hdeletes, hwritten⟩ := Prod.mk.inj hrest
  have hexit : s.phase.exit = some (.raised tupleError) := by
    rw [hphase]
    rfl
  exact ⟨s, hrun, hphase, hdeletes, hwritten, fun h => h.consumes tupleError hexit⟩

end PendantClient
