import PendantClient.Theorems.Draining
import PendantClient.Theorems.IndexReuse
import PendantClient.Theorems.Live

/-! From the link to the capture file: what the notifications complete goes through the inbox and the generator to the list
    that the capture collects, in one order, and the file holds it but for what was still under way. -/

namespace PendantClient

/-! ### The inbox of a session nobody waits on -/

/-- No future waits for a message. -/
def Session.Unasked (s : Session) : Prop := ∀ f : Nat, s.futures[f]? ≠ some FutureState.pending

/-- The inbox entry of a payload. -/
def entryOf (parse : Bytes → Option PendantAllMsg) (payload : Bytes) : Option InboxEntry :=
  (parse payload).map fun msg => (payload, msg)

section
variable {parse : Bytes → Option PendantAllMsg} {s : Session}

theorem Session.Unasked.taker (h : s.Unasked) (msg : PendantAllMsg) : s.taker msg = none := by
  have hlive : ∀ fut : Option Nat, s.live fut = none := by
    intro fut
    cases fut with
    | none => rfl
    | some f => exact if_neg (h f)
  rw [Session.taker, Session.liveById, Session.liveByKind]
  split <;> cases msg.whichOneof <;> simp [hlive]

/-- Then every message that parses is put in the inbox. -/
theorem Session.Unasked.onInbound (h : s.Unasked) (parse : Bytes → Option PendantAllMsg) (payload : Bytes) :
    (s.onInbound parse payload).inbox = s.inbox ++ (entryOf parse payload).toList ∧ (s.onInbound parse payload).Unasked := by
  rw [entryOf]
  cases hp : parse payload with
  | none =>
    rw [Session.onInbound_none hp]
    exact ⟨(List.append_nil _).symm, h⟩
  | some msg =>
    rw [Session.onInbound_eq hp, h.taker msg]
    exact ⟨rfl, h⟩

theorem Session.Unasked.step {t u : SessionState} {a : SessionAct} (h : t.session.Unasked) (hask : ∀ kind, a ≠ .request kind)
    (hin : ∀ payload, a ≠ .inbound payload) (hstep : t.step parse a = some u) : u.session.Unasked := by
  rcases step_cases hstep with ⟨kind, rfl, -⟩ | ⟨payload, -, rfl, -⟩ | ⟨-, -, hquiet⟩
  · exact absurd rfl (hask kind)
  · exact absurd rfl (hin payload)
  · exact fun f hf => h f (hquiet.undone f hf)

end

/-! ### The link -/

/-- The bytes of a notification. -/
def DownloadAct.raw? : DownloadAct → Option Bytes
  | .notify raw => some raw
  | _ => none

/-- A call of `_request`. -/
def DownloadAct.asks : DownloadAct → Bool
  | .session (.request _) => true
  | _ => false

section
variable {parse : Bytes → Option PendantAllMsg} {msgs : List Message}

theorem completedAt_append (rest' : List (Piece msgs)) : ∀ {rest pre : List (Piece msgs)},
    completedAt pre (rest ++ rest') = completedAt pre rest ++ completedAt (pre ++ rest) rest' := by
  intro rest
  induction rest with
  | nil =>
    intro pre
    rw [List.append_nil]
    rfl
  | cons p rest ih =>
    intro pre
    rw [List.cons_append, completedAt, completedAt, ih, List.append_cons pre p rest]
    exact (List.append_assoc _ _ _).symm

/-- What has arrived of the messages is in the inbox, or has been yielded. -/
structure Received (parse : Bytes → Option PendantAllMsg) (inbox₀ : List InboxEntry) (pre : List (Piece msgs)) (d : Download) :
    Prop where
  tracks : TracksAt msgs d.table pre
  unasked : d.state.session.Unasked
  entries : d.yielded ++ d.inbox = inbox₀ ++ (payloadsAt msgs (completedAt [] pre)).filterMap (entryOf parse)

variable {inbox₀ : List InboxEntry} {pre rest : List (Piece msgs)} {p : Piece msgs} {d e : Download}

theorem onNotification_eq {table : ReassemblyTable} {outcome : NotifyOutcome} {raw : Bytes}
    (h : onData d.table raw = (table, outcome)) : d.onNotification parse raw =
      match outcome.payload? with
      | some payload => { d with table, state := { d.state with session := d.state.session.onInbound parse payload } }
      | none => { d with table } := by
  rw [Download.onNotification, h]
  cases outcome <;> rfl

/-- A notification brings the next piece. -/
theorem Received.notify (h : Received parse inbox₀ pre d) (hpieces : OneAtATime (pre ++ p :: rest)) :
    Received parse inbox₀ (pre ++ [p]) (d.onNotification parse p.raw) := by
  obtain ⟨early, alone⟩ := hpieces.next
  obtain ⟨table, hdata, htracks⟩ := h.tracks.onData early alone
  have hcompleted : completedAt [] (pre ++ [p]) = completedAt [] pre ++
      if WholeAt (pre ++ [p]) p.k p.arrival.message then [p.k] else [] := by
    rw [completedAt_append, completedAt, List.nil_append, completedAt, List.append_nil]
  rw [onNotification_eq hdata, outcomeAt]
  by_cases hwhole : WholeAt (pre ++ [p]) p.k p.arrival.message
  · obtain ⟨hinbox, hunasked⟩ := h.unasked.onInbound parse p.arrival.message.payload
    rw [if_pos hwhole] at hcompleted ⊢
    refine ⟨htracks, hunasked, ?_⟩
    rw [hcompleted, payloadsAt_append, payloadsAt_singleton, List.filterMap_append, ← List.append_assoc, ← h.entries,
      List.append_assoc]
    refine congrArg (d.yielded ++ ·) (hinbox.trans (congrArg (d.inbox ++ ·) ?_))
    cases hentry : entryOf parse p.arrival.message.payload with
    | none => rw [List.filterMap_cons_none hentry]; rfl
    | some entry => rw [List.filterMap_cons_some hentry]; rfl
  · rw [if_neg hwhole] at hcompleted ⊢
    refine ⟨htracks, h.unasked, ?_⟩
    rw [hcompleted, List.append_nil]
    exact h.entries

theorem Received.frame (h : Received parse inbox₀ pre d) (htable : e.table = d.table)
    (hfutures : e.state.session.futures = d.state.session.futures) (hentries : e.yielded ++ e.inbox = d.yielded ++ d.inbox) :
    Received parse inbox₀ pre e where
  tracks := htable ▸ h.tracks
  unasked f := hfutures ▸ h.unasked f
  entries := hentries.trans h.entries

theorem deliverDelete_frame (d : Download) (index : Int) (delivered : Bool) : (d.deliverDelete index delivered).table = d.table ∧
    (d.deliverDelete index delivered).state = d.state := by
  rw [Download.deliverDelete]
  split <;> exact ⟨rfl, rfl⟩

/-- Any other step of the link or the generator brings nothing. -/
theorem Received.step {a : DownloadAct} (h : Received parse inbox₀ pre d) (hraw : a.raw? = none) (hask : a.asks = false)
    (hstep : d.step parse a = some e) : Received parse inbox₀ pre e := by
  have harrivals : d.arrivals parse a = [] := by
    cases a with
    | notify raw => cases hraw
    | _ => rfl
  have hentries : e.yielded ++ e.inbox = d.yielded ++ d.inbox := by rw [inbox_keeps hstep, harrivals, List.append_nil]
  cases Download.stepped hstep with
  | notify raw => cases hraw
  | session hb hstate =>
    refine ⟨h.tracks, h.unasked.step (fun kind heq => ?_) hb hstate, hentries.trans h.entries⟩
    rw [heq] at hask
    cases hask
  | ackDone delivered =>
    obtain ⟨htable, hstate⟩ := deliverDelete_frame d _ delivered
    exact h.frame htable (by rw [hstate]) hentries
  | abortAcking delivered =>
    obtain ⟨htable, hstate⟩ := deliverDelete_frame d _ delivered
    exact h.frame htable (by rw [hstate]) hentries
  | _ => exact h.frame rfl rfl hentries

end

/-! ### The list that is collected -/

/-- The step of the generator that a step of the capture makes. -/
def CaptureAct.download? : CaptureAct → Option DownloadAct
  | .download a => some a
  | .next => some .resume
  | .append | .interrupt | .finish _ => none

/-- The payload in the hands of the loop that is not yet in its list. -/
structure Gathers (interrupted : Prop) (c : Capture) : Prop where
  between : c.phase = .iterating ∨ c.phase = .body true → c.download.yielded.map Prod.fst = c.rawMessages
  held : c.phase = .body false → ∃ before entry, c.download.phase = .yielded entry ∧
    c.download.yielded = before ++ [entry] ∧ before.map Prod.fst = c.rawMessages
  left : c.phase = .finishing ∨ c.phase = .ended → ∃ held : Option Bytes,
    c.download.yielded.map Prod.fst = c.rawMessages ++ held.toList ∧ (held ≠ none → interrupted)

section
variable {parse : Bytes → Option PendantAllMsg} {address : PyStr} {path : Path} {interrupted : Prop} {c c' : Capture}

/-- What a step of a capture does. -/
inductive Capture.Stepped (parse : Bytes → Option PendantAllMsg) (address : PyStr) (path : Path) (c : Capture) :
    CaptureAct → Capture → Prop
  | download {a : DownloadAct} {d : Download} (hallow : allows c.phase a = true) (hstep : c.download.step parse a = some d) :
    Stepped parse address path c (.download a) { c with download := d, phase := phaseAfter c.phase a }
  | append {entry : InboxEntry} (hphase : c.phase = .body false) (hentry : c.download.phase = .yielded entry) :
    Stepped parse address path c .append { c with rawMessages := c.rawMessages ++ [entry.1], phase := .body true }
  | next {d : Download} (hphase : c.phase = .body true) (hstep : c.download.step parse .resume = some d) :
    Stepped parse address path c .next { c with download := d, phase := .iterating }
  | interrupt {appended : Bool} (hphase : c.phase = .body appended) :
    Stepped parse address path c .interrupt { c with phase := .finishing }
  | finish (fault : Option IoFault) (hphase : c.phase = .finishing) : Stepped parse address path c (.finish fault)
    { c with
      files := (writeBatchIngestRequest c.files { items := c.rawMessages } address path fault).1
      phase := .ended }

theorem Capture.stepped {a : CaptureAct} (h : c.step parse address path a = some c') :
    c.Stepped parse address path a c' := by
  cases a with
  | download b =>
    simp only [Capture.step] at h
    split at h
    · obtain ⟨d, hd, rfl⟩ := Option.map_eq_some_iff.mp h
      exact .download ‹_› hd
    · cases h
  | append =>
    simp only [Capture.step] at h
    split at h
    · cases h
      exact .append ‹_› ‹_›
    · cases h
  | next =>
    simp only [Capture.step] at h
    split at h
    · obtain ⟨d, hd, rfl⟩ := Option.map_eq_some_iff.mp h
      exact .next ‹_› hd
    · cases h
  | interrupt =>
    simp only [Capture.step] at h
    split at h
    · cases h
      exact .interrupt ‹_›
    · cases h
  | finish fault =>
    simp only [Capture.step] at h
    split at h
    · cases h
      exact .finish fault ‹_›
    · cases h

theorem Capture.download_step {a : CaptureAct} (h : c.step parse address path a = some c') :
    match a.download? with
    | some b => c.download.step parse b = some c'.download
    | none => c'.download = c.download := by
  cases Capture.stepped h with
  | download hallow hstep => exact hstep
  | next hphase hstep => exact hstep
  | _ => rfl

/-- But for `take`, a step of the generator leaves the loop where it is or ends it, and while the loop holds the generator only
    the link and the session move. -/
theorem Capture.phaseAfter_cases {phase : CapturePhase} {a : DownloadAct} (htake : a ≠ .take)
    (hallow : Capture.allows phase a = true) : phase = .iterating ∧ Capture.phaseAfter phase a = .finishing ∨
      Capture.phaseAfter phase a = phase ∧ (phase.inBody = true → (∃ raw, a = .notify raw) ∨ ∃ b, a = .session b) := by
  cases a with
  | notify raw => exact .inr ⟨rfl, fun _ => .inl ⟨raw, rfl⟩⟩
  | session b => exact .inr ⟨rfl, fun _ => .inr ⟨b, rfl⟩⟩
  | take => exact absurd rfl htake
  | begin ok => cases phase <;> cases ok <;> simp_all [Capture.allows, Capture.phaseAfter, CapturePhase.inBody]
  | _ => cases phase <;> simp_all [Capture.allows, Capture.phaseAfter, CapturePhase.inBody]

theorem Gathers.of_between {phase : CapturePhase} (hphase : phase = .iterating ∨ phase = .body true) {d : Download}
    (h : d.yielded.map Prod.fst = c.rawMessages) : Gathers interrupted { c with download := d, phase } where
  between _ := h
  held hbody := by rcases hphase with rfl | rfl <;> cases hbody
  left hleft := by rcases hphase with rfl | rfl <;> rcases hleft with hleft | hleft <;> cases hleft

theorem Gathers.of_held {d : Download} (h : ∃ before entry, d.phase = .yielded entry ∧ d.yielded = before ++ [entry] ∧
    before.map Prod.fst = c.rawMessages) : Gathers interrupted { c with download := d, phase := .body false } where
  between hbetween := by rcases hbetween with hbetween | hbetween <;> cases hbetween
  held _ := h
  left hleft := by rcases hleft with hleft | hleft <;> cases hleft

theorem Gathers.of_left {phase : CapturePhase} (hphase : phase = .finishing ∨ phase = .ended) {d : Download} {files : Files}
    (h : ∃ held : Option Bytes, d.yielded.map Prod.fst = c.rawMessages ++ held.toList ∧ (held ≠ none → interrupted)) :
    Gathers interrupted { c with download := d, phase, files } where
  between hbetween := by rcases hphase with rfl | rfl <;> rcases hbetween with hbetween | hbetween <;> cases hbetween
  held hbody := by rcases hphase with rfl | rfl <;> cases hbody
  left _ := h

/-- A step of the generator gives the loop the entry it yields, and else leaves the loop where it is or ends it. -/
theorem Gathers.download {d : Download} {a : DownloadAct} (h : Gathers interrupted c) (hallow : Capture.allows c.phase a = true)
    (hstep : c.download.step parse a = some d) : Gathers interrupted { c with download := d, phase := Capture.phaseAfter c.phase a } := by
  by_cases htake : a = .take
  · subst htake
    obtain ⟨entry, hphase, hyielded⟩ := take_step hstep
    have hiter : c.phase = .iterating := by simpa [Capture.allows] using hallow
    exact .of_held ⟨c.download.yielded, entry, hphase, hyielded, h.between (.inl hiter)⟩
  have hyielded : d.yielded = c.download.yielded := (step_keeps hstep).2 htake
  obtain ⟨hiter, hafter⟩ | ⟨hafter, hlink⟩ := Capture.phaseAfter_cases htake hallow
  · have hbetween : d.yielded.map Prod.fst = c.rawMessages := hyielded ▸ h.between (.inl hiter)
    rw [hafter]
    exact .of_left (.inl rfl) ⟨none, by rw [hbetween]; exact (List.append_nil _).symm, fun hne => absurd rfl hne⟩
  · rw [hafter]
    refine ⟨fun hphase => hyielded ▸ h.between hphase, fun hphase => ?_, fun hphase => hyielded ▸ h.left hphase⟩
    obtain ⟨before, entry, hentry, hsplit, hraw⟩ := h.held hphase
    have hbody : c.phase.inBody = true := by rw [show c.phase = .body false from hphase]; rfl
    exact ⟨before, entry, (phase_step (hlink hbody) hstep).trans hentry, hyielded.trans hsplit, hraw⟩

theorem Gathers.step {a : CaptureAct} (h : Gathers interrupted c) (hinterrupt : a = .interrupt → interrupted)
    (hstep : c.step parse address path a = some c') : Gathers interrupted c' := by
  cases Capture.stepped hstep with
  | download hallow hd => exact h.download hallow hd
  | @append entry hphase hentry =>
    obtain ⟨before, entry', hentry', hyielded, hraw⟩ := h.held hphase
    obtain rfl := DownloadPhase.yielded.inj (hentry.symm.trans hentry')
    exact .of_between (c := { c with rawMessages := c.rawMessages ++ [entry.1] }) (.inr rfl)
      (by rw [hyielded, List.map_append, hraw]; rfl)
  | @next d hphase hd =>
    have hyielded : d.yielded = c.download.yielded := (step_keeps hd).2 (by simp)
    exact .of_between (.inl rfl) (hyielded ▸ h.between (.inr hphase))
  | @interrupt appended hphase =>
    refine .of_left (.inl rfl) ?_
    cases appended with
    | true => exact ⟨none, by rw [h.between (.inr hphase)]; exact (List.append_nil _).symm, fun hne => absurd rfl hne⟩
    | false =>
      obtain ⟨before, entry, -, hyielded, hraw⟩ := h.held hphase
      exact ⟨some entry.1, by rw [hyielded, List.map_append, hraw]; rfl, fun _ => hinterrupt rfl⟩
  | finish fault hphase => exact .of_left (.inr rfl) (h.left (.inl hphase))

/-! ### Runs -/

/-- The bytes of the notifications in a run. -/
def CaptureAct.notified (acts : List CaptureAct) : List Bytes := acts.filterMap fun a => a.download?.bind DownloadAct.raw?

/-- A run makes no requests. -/
def CaptureAct.NoneAsks (acts : List CaptureAct) : Prop := ∀ a ∈ acts, ∀ b, a.download? = some b → b.asks = false

theorem Received.run {msgs : List Message} {inbox₀ : List InboxEntry} (acts : List CaptureAct) :
    ∀ {pre rest : List (Piece msgs)} {c : Capture}, Received parse inbox₀ pre c.download → OneAtATime (pre ++ rest) →
      CaptureAct.notified acts = rest.map Piece.raw → CaptureAct.NoneAsks acts →
      Transition.run (Capture.step parse address path) c acts = some c' → Received parse inbox₀ (pre ++ rest) c'.download := by
  induction acts with
  | nil =>
    intro pre rest c h _ hraw _ hrun
    cases hrun
    obtain rfl := List.map_eq_nil_iff.mp hraw.symm
    rwa [List.append_nil]
  | cons a acts ih =>
    intro pre rest c h hpieces hraw hasks hrun
    obtain ⟨c₁, hstep, hrun⟩ := Transition.run_cons.mp hrun
    have hasks' : CaptureAct.NoneAsks acts := fun b hb => hasks b (List.mem_cons_of_mem a hb)
    have hdownload := Capture.download_step hstep
    rw [CaptureAct.notified, List.filterMap_cons] at hraw
    cases hb : a.download? with
    | none =>
      rw [hb] at hdownload hraw
      exact ih (hdownload ▸ h) hpieces hraw hasks' hrun
    | some b =>
      rw [hb] at hdownload hraw
      dsimp only at hdownload
      rw [Option.bind_some] at hraw
      cases hnotify : b.raw? with
      | none =>
        rw [hnotify] at hraw
        exact ih (h.step hnotify (hasks a List.mem_cons_self b hb) hdownload) hpieces hraw hasks' hrun
      | some raw =>
        rw [hnotify] at hraw
        cases rest with
        | nil => cases hraw
        | cons p rest =>
          obtain ⟨hp, hraw⟩ := List.cons.inj hraw
          cases b with
          | notify raw' =>
            cases hnotify
            have hbrings : c.download.onNotification parse raw = c₁.download := Option.some.inj hdownload
            have hnext := h.notify hpieces
            rw [← hp, hbrings] at hnext
            rw [List.append_cons] at hpieces ⊢
            exact ih hnext hpieces hraw hasks' hrun
          | _ => cases hnotify

end

/-- Where a capture starts: nothing is half received and no request is open; the inbox may hold what came before. -/
structure Capture.Starts (c : Capture) : Prop where
  table : c.download.table = ∅
  unasked : c.download.state.session.Unasked
  yielded : c.download.yielded = []
  rawMessages : c.rawMessages = []
  phase : c.phase = .iterating

theorem Capture.Starts.of_files (files : Files) : Capture.Starts { files } where
  table := rfl
  unasked := by simp [Session.Unasked]
  yielded := rfl
  rawMessages := rfl
  phase := rfl

/-- What a capture has collected when its loop is left. -/
theorem capture_collects {parse : Bytes → Option PendantAllMsg} {address : PyStr} {path : Path} {msgs : List Message}
    {pieces : List (Piece msgs)} (hpieces : OneAtATime pieces) {c₀ c : Capture} (hstart : c₀.Starts) {acts : List CaptureAct}
    (hnotified : CaptureAct.notified acts = pieces.map Piece.raw) (hasks : CaptureAct.NoneAsks acts)
    (hrun : Transition.run (Capture.step parse address path) c₀ acts = some c) (hleft : c.phase = .finishing) :
    ∃ held : Option Bytes,
      c.rawMessages ++ held.toList ++ c.download.inbox.map Prod.fst = c₀.download.inbox.map Prod.fst ++
        (payloadsAt msgs (completedAt [] pieces)).filter (fun payload => (parse payload).isSome) ∧
      (.interrupt ∉ acts → held = none) := by
  have hreceived : Received parse c₀.download.inbox pieces c.download := by
    have h₀ : Received parse c₀.download.inbox ([] : List (Piece msgs)) c₀.download := by
      refine ⟨hstart.table ▸ .empty, hstart.unasked, ?_⟩
      rw [hstart.yielded]
      exact (List.append_nil _).symm
    exact h₀.run acts hpieces hnotified hasks hrun
  have hgathers : Gathers (.interrupt ∈ acts) c := by
    refine Transition.run_invariant_of_meets
      (fun s a t h (ha : a ∈ acts) hstep => h.step (fun heq => heq ▸ ha) hstep) ?_ hrun ?_
    · rintro pre a post t rfl -
      exact List.mem_append_right pre List.mem_cons_self
    · refine ⟨fun _ => by rw [hstart.yielded, hstart.rawMessages]; rfl, fun hb => ?_, fun hl => ?_⟩
      · rw [hstart.phase] at hb
        cases hb
      · rw [hstart.phase] at hl
        exact hl.elim nofun nofun
  obtain ⟨held, hyielded, hheld⟩ := hgathers.left (.inl hleft)
  refine ⟨held, ?_, fun hnot => ?_⟩
  · have hentries := congrArg (List.map Prod.fst) hreceived.entries
    rw [List.map_append, List.map_append, hyielded] at hentries
    refine hentries.trans (congrArg (_ ++ ·) ?_)
    generalize payloadsAt msgs (completedAt [] pieces) = payloads
    induction payloads with
    | nil => rfl
    | cons payload payloads ih =>
      rw [List.filter_cons, List.filterMap_cons, entryOf]
      cases hp : parse payload with
      | none => exact ih
      | some msg => exact congrArg (payload :: ·) ih
  · by_contra hne
    exact hnot (hheld hne)

/-- The last step of a capture writes the file. -/
theorem capture_writes {parse : Bytes → Option PendantAllMsg} {address : PyStr} {idBytes : Bytes}
    (haddress : address.encode = .ok idBytes) {path : Path} {c₀ c : Capture} {acts : List CaptureAct}
    (hrun : Transition.run (Capture.step parse address path) c₀ (acts ++ [.finish none]) = some c) :
    ∃ c₁, Transition.run (Capture.step parse address path) c₀ acts = some c₁ ∧ c₁.phase = .finishing ∧
      c.download = c₁.download ∧ c.files = writtenFiles c₁.files path (encodeBatch c₁.rawMessages idBytes) := by
  obtain ⟨c₁, hacts, hfinish⟩ := Option.bind_eq_some_iff.mp (Transition.run_append.symm.trans hrun)
  obtain ⟨c₂, hfinish, hc₂⟩ := Transition.run_cons.mp hfinish
  cases hc₂
  cases Capture.stepped hfinish with
  | finish _ hphase => exact ⟨c₁, hacts, hphase, rfl, congrArg Prod.fst (writeBatchIngestRequest_ok haddress _ _ _)⟩

/-- Over any interleaving of the messages' fragments, however the loop is left, a capture whose file is written holds what was
    in the inbox and the messages that were received whole and parse, in the order in which they became whole, but for what is
    still in the inbox and at most one message in the hands of an interrupted loop. -/
theorem capture_holds_received (parse : Bytes → Option PendantAllMsg) (address : PyStr) {idBytes : Bytes}
    (haddress : address.encode = .ok idBytes) (path : Path) (msgs : List Message) (pieces : List (Piece msgs))
    (hpieces : OneAtATime pieces) (c₀ c : Capture) (hstart : c₀.Starts) (acts : List CaptureAct)
    (hnotified : CaptureAct.notified acts = pieces.map Piece.raw) (hasks : CaptureAct.NoneAsks acts)
    (hrun : Transition.run (Capture.step parse address path) c₀ (acts ++ [.finish none]) = some c) :
    ∃ data messages, ∃ held : Option Bytes, c.files path = some data ∧ iterMessages data = (messages, none) ∧
      messages ++ held.toList ++ c.download.inbox.map Prod.fst = c₀.download.inbox.map Prod.fst ++
        (payloadsAt msgs (completedAt [] pieces)).filter (fun payload => (parse payload).isSome) ∧
      (.interrupt ∉ acts → held = none) := by
  obtain ⟨c₁, hacts, hleft, hdownload, hwritten⟩ := capture_writes haddress hrun
  obtain ⟨held, hcollected, hheld⟩ := capture_collects hpieces hstart hnotified hasks hacts hleft
  rw [hdownload]
  exact ⟨_, c₁.rawMessages, held, by rw [hwritten, writtenFiles_path], iterMessages_encodeBatch c₁.rawMessages idBytes, hcollected, hheld⟩

/-- Two pages under one index: the first comes in two fragments, the second when it is complete. -/
def twoPages : List Message :=
  [⟨1, [(pageMessage 1).take 2, (pageMessage 1).drop 2], by decide⟩, ⟨1, [pageMessage 2], by decide⟩]

/-- The fragments of two pages under one index, those of the first in reverse order. -/
def twoPagePieces : List (Piece twoPages) :=
  [⟨0, ⟨twoPages[0], 1, encodeFragment 1 1 2 ((pageMessage 1).drop 2), by decide, by decide +kernel⟩, rfl⟩,
    ⟨0, ⟨twoPages[0], 0, encodeFragment 1 0 2 ((pageMessage 1).take 2), by decide, by decide +kernel⟩, rfl⟩,
    ⟨1, ⟨twoPages[1], 0, encodeFragment 1 0 1 (pageMessage 2), by decide, by decide +kernel⟩, rfl⟩]

/-- They are drained, and the loop ends when nothing more comes. -/
def twoPageCapture : List CaptureAct :=
  [.download (.begin true), .download (.notify (encodeFragment 1 1 2 ((pageMessage 1).drop 2))),
    .download (.notify (encodeFragment 1 0 2 ((pageMessage 1).take 2))), .download .take, .append,
    .download (.notify (encodeFragment 1 0 1 (pageMessage 2))), .next, .download (.ackDone true), .download .take, .append, .next,
    .download (.ackDone false), .download .timeout, .download .stop]

theorem capture_holds_received_sample : ∃ c data,
    Transition.run (Capture.step parsePageMessage [] "capture.bin") { files := fun _ => none } (twoPageCapture ++ [.finish none]) =
      some c ∧ c.files "capture.bin" = some data ∧ iterMessages data = ([pageMessage 1, pageMessage 2], none) := by
  have hrun : (Transition.run (Capture.step parsePageMessage [] "capture.bin") { files := fun _ => none }
      (twoPageCapture ++ [.finish none])).map (fun c => c.download.inbox) = some [] := by decide +kernel
  obtain ⟨c, hc, hinbox⟩ := Option.map_eq_some_iff.mp hrun
  obtain ⟨data, messages, held, hdata, hread, hmessages, hheld⟩ := capture_holds_received parsePageMessage []
    PyStr.encode_nil "capture.bin" twoPages twoPagePieces (.of_take (by decide) (by decide))
    { files := fun _ => none } c (.of_files _) twoPageCapture rfl (by unfold CaptureAct.NoneAsks; decide) hc
  rw [hheld (by simp [twoPageCapture]), hinbox] at hmessages
  have hall : messages = [pageMessage 1, pageMessage 2] := by
    simpa [show payloadsAt twoPages (completedAt [] twoPagePieces) = [pageMessage 1, pageMessage 2] by decide +kernel,
      show (parsePageMessage (pageMessage 1)).isSome by decide, show (parsePageMessage (pageMessage 2)).isSome by decide,
      show Download.inbox {} = [] from rfl] using hmessages
  exact ⟨c, data, hc, hdata, hall ▸ hread⟩

end PendantClient
