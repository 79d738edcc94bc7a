import PendantClient.Lib.Potential
import PendantClient.Theorems.SyncRun

/-! The end of a capture and of a sync. Neither runs on unless messages arrive, and neither gets stuck: from any state regular steps
    lead to the end. -/

namespace PendantClient

/-! ### Steps of a capture -/

/-- A step of the capture itself, and not of the link or of another use of the session. -/
def CaptureAct.own : CaptureAct → Bool
  | .download (.notify _) | .download (.session _) => false
  | _ => true

/-- A step of the capture's own in which nothing goes wrong. -/
def CaptureAct.regular : CaptureAct → Bool
  | .download (.begin ok) => ok
  | .download (.ackDone delivered) => delivered
  | .download .take | .download .timeout | .download .stop | .append | .next => true
  | .finish fault => fault.isNone
  | _ => false

/-- What a step puts in the inbox. -/
def Capture.arrivals (parse : Bytes → Option PendantAllMsg) (c : Capture) : CaptureAct → List InboxEntry
  | .download a => c.download.arrivals parse a
  | _ => []

/-- The steps that are left to close a generator from outside. -/
def DownloadPhase.toClose : DownloadPhase → Nat
  | .idle => 0
  | .stopping => 1
  | .waiting | .yielded _ | .acking _ _ => 2

/-- The most own steps that a capture takes from here with nothing in its inbox. -/
def CapturePhase.rank : CapturePhase → DownloadPhase → Nat
  | .iterating, .idle | .iterating, .acking _ _ => 4
  | .iterating, .waiting | .iterating, .yielded _ => 3
  | .iterating, .stopping => 2
  | .body false, _ => 6
  | .body true, _ => 5
  | .finishing, phase => phase.toClose + 1
  | .ended, phase => phase.toClose

/-- An entry of the inbox costs four steps: it is taken, appended, left behind and acknowledged. -/
def Capture.potential (c : Capture) : Nat := 4 * c.download.inbox.length + c.phase.rank c.download.phase

section
variable {parse : Bytes → Option PendantAllMsg} {address : PyStr} {path : Path} {c c' : Capture} {d e : Download}

theorem length_inbox_step {a : DownloadAct} (ha : a ≠ .take) (hstep : d.step parse a = some e) :
    e.inbox.length = d.inbox.length + (d.arrivals parse a).length := by
  have hkeeps := inbox_keeps hstep
  rw [(step_keeps hstep).2 ha, List.append_assoc] at hkeeps
  rw [List.append_cancel_left hkeeps, List.length_append]

theorem length_inbox_take (hstep : d.step parse .take = some e) : d.phase = .waiting ∧ e.inbox.length + 1 = d.inbox.length := by
  cases Download.stepped hstep with
  | take hphase hinbox =>
    rw [hinbox]
    exact ⟨hphase, rfl⟩

theorem DownloadPhase.toClose_le (phase : DownloadPhase) : phase.toClose ≤ 2 := by
  cases phase <;> simp [toClose]

theorem CapturePhase.rank_iterating (phase : DownloadPhase) : CapturePhase.iterating.rank phase ≤ 4 := by
  cases phase <;> simp [rank]

/-- Outside the loop's body, an exception brings the generator closer to its end. -/
theorem rank_stopping {phase : CapturePhase} {running : DownloadPhase} (hbody : phase.inBody = false) (hrunning : running.toClose = 2) :
    phase.rank .stopping < phase.rank running := by
  cases phase with
  | iterating => cases running <;> simp_all [CapturePhase.rank, DownloadPhase.toClose]
  | body appended => cases hbody
  | finishing =>
    rw [CapturePhase.rank, CapturePhase.rank, hrunning]
    decide
  | ended =>
    rw [CapturePhase.rank, CapturePhase.rank, hrunning]
    decide

theorem rank_download {phase : CapturePhase} {a : DownloadAct} (hown : CaptureAct.own (.download a) = true) (ha : a ≠ .take)
    (hallow : Capture.allows phase a = true) (hstep : d.step parse a = some e) :
    (Capture.phaseAfter phase a).rank e.phase < phase.rank d.phase := by
  cases Download.stepped hstep with
  | notify raw => cases hown
  | session hb hstate => cases hown
  | take hphase hinbox => exact absurd rfl ha
  | resumePage hphase hpage => cases hallow
  | resumeOther hphase hpage => cases hallow
  | begin ok hphase =>
    obtain rfl : phase = .iterating := by simpa [Capture.allows] using hallow
    cases ok <;> simp [Capture.phaseAfter, CapturePhase.rank, DownloadPhase.toClose, hphase]
  | timeout hphase =>
    obtain rfl : phase = .iterating := by simpa [Capture.allows] using hallow
    simp [Capture.phaseAfter, CapturePhase.rank, hphase]
  | ackDone delivered hphase =>
    obtain rfl : phase = .iterating := by simpa [Capture.allows] using hallow
    simp [Capture.phaseAfter, CapturePhase.rank, hphase]
  | stop hphase =>
    cases phase <;>
      simp_all [Capture.allows, CapturePhase.inBody, Capture.phaseAfter, CapturePhase.rank, DownloadPhase.toClose]
  | abortWaiting delivered hphase =>
    have hbody : phase.inBody = false := by simpa [Capture.allows] using hallow
    exact rank_stopping hbody (by rw [hphase]; rfl)
  | abortYielded delivered hphase =>
    have hbody : phase.inBody = false := by simpa [Capture.allows] using hallow
    exact rank_stopping hbody (by rw [hphase]; rfl)
  | abortAcking delivered hphase =>
    have hbody : phase.inBody = false := by simpa [Capture.allows] using hallow
    exact rank_stopping hbody (by rw [hphase]; rfl)

theorem potential_spend {a : CaptureAct} (hown : a.own = true) (hstep : c.step parse address path a = some c') :
    c'.potential < c.potential := by
  rw [Capture.potential, Capture.potential]
  cases Capture.stepped hstep with
  | @download a d hallow hd =>
    by_cases ha : a = .take
    · subst ha
      obtain ⟨hwaiting, hlength⟩ := length_inbox_take hd
      have hiter : c.phase = .iterating := by simpa [Capture.allows] using hallow
      rw [hiter, hwaiting]
      simp only [Capture.phaseAfter, CapturePhase.rank]
      omega
    · have hlength := length_inbox_step ha hd
      have hrank := rank_download hown ha hallow hd
      have harrivals : c.download.arrivals parse a = [] := by
        cases a with
        | notify raw => cases hown
        | _ => rfl
      rw [harrivals] at hlength
      dsimp only
      simp only [List.length_nil] at hlength
      omega
  | append hphase hentry =>
    rw [hphase]
    simp only [CapturePhase.rank]
    omega
  | @next d hphase hd =>
    -- the entry that is left behind may have to be acknowledged first
    have hlength := length_inbox_step (by simp) hd
    have hiterating := CapturePhase.rank_iterating d.phase
    rw [hphase]
    simp only [Download.arrivals, List.length_nil] at hlength
    simp only [CapturePhase.rank] at hiterating ⊢
    omega
  | @interrupt appended hphase =>
    have hclose := c.download.phase.toClose_le
    rw [hphase]
    cases appended <;> simp only [CapturePhase.rank] <;> omega
  | finish fault hphase =>
    rw [hphase]
    simp only [CapturePhase.rank]
    omega

theorem potential_bring {a : CaptureAct} (hown : a.own = false) (hstep : c.step parse address path a = some c') :
    c'.potential ≤ c.potential + 4 * (c.arrivals parse a).length := by
  rw [Capture.potential, Capture.potential]
  cases Capture.stepped hstep with
  | @download a d hallow hd =>
    have hlink : (∃ raw, a = .notify raw) ∨ ∃ b, a = .session b := by
      cases a with
      | notify raw => exact .inl ⟨raw, rfl⟩
      | session b => exact .inr ⟨b, rfl⟩
      | _ => cases hown
    have hphase := phase_step hlink hd
    have hafter : Capture.phaseAfter c.phase a = c.phase := by rcases hlink with ⟨_, rfl⟩ | ⟨_, rfl⟩ <;> rfl
    have hlength := length_inbox_step (by rcases hlink with ⟨_, rfl⟩ | ⟨_, rfl⟩ <;> simp) hd
    dsimp only
    rw [hphase, hafter, hlength, Capture.arrivals]
    omega
  | _ => cases hown

variable (parse address path) in
theorem capture_pays : Transition.Pays (Capture.step parse address path) Capture.potential CaptureAct.own (Capture.arrivals parse) 4 where
  spend _ _ _ := potential_spend
  bring _ _ _ := potential_bring

end

/-! ### Progress of a capture -/

/-- The loop is in its body exactly when the generator holds a `yield`. -/
structure Capture.Linked (c : Capture) : Prop where
  body : ∀ appended, c.phase = .body appended → ∃ entry, c.download.phase = .yielded entry
  iterating : c.phase = .iterating → ∀ entry, c.download.phase ≠ .yielded entry

section
variable {parse : Bytes → Option PendantAllMsg} {address : PyStr} {path : Path} {c c' : Capture}

theorem Capture.Linked.of_left {files : Files} {d : Download} {rawMessages : List Bytes} {phase : CapturePhase}
    (hphase : phase = .finishing ∨ phase = .ended) : Capture.Linked { files, download := d, rawMessages, phase } where
  body appended hbody := by rcases hphase with rfl | rfl <;> cases hbody
  iterating hiter := by rcases hphase with rfl | rfl <;> cases hiter

/-- Only `take` leads the generator to a `yield`. -/
theorem phase_ne_yielded {d e : Download} {a : DownloadAct} (ha : a ≠ .take) (hd : ∀ entry, d.phase ≠ .yielded entry)
    (hstep : d.step parse a = some e) (entry : InboxEntry) : e.phase ≠ .yielded entry := by
  cases Download.stepped hstep with
  | notify raw =>
    rw [phase_step (.inl ⟨raw, rfl⟩) hstep]
    exact hd entry
  | session hb hstate => exact hd entry
  | take hphase hinbox => exact absurd rfl ha
  | begin ok hphase => cases ok <;> simp
  | _ => simp

theorem Capture.Linked.download {d : Download} {a : DownloadAct} (h : c.Linked) (hallow : Capture.allows c.phase a = true)
    (hstep : c.download.step parse a = some d) : Capture.Linked { c with download := d, phase := Capture.phaseAfter c.phase a } := by
  by_cases htake : a = .take
  · subst htake
    obtain ⟨entry, hentry, -⟩ := take_step hstep
    exact ⟨fun _ _ => ⟨entry, hentry⟩, fun hiter => by cases hiter⟩
  obtain ⟨-, hafter⟩ | ⟨hafter, hlink⟩ := Capture.phaseAfter_cases htake hallow
  · rw [hafter]
    exact .of_left (.inl rfl)
  · rw [hafter]
    refine ⟨fun appended hphase => ?_, fun hphase => phase_ne_yielded htake (h.iterating hphase) hstep⟩
    obtain ⟨entry, hentry⟩ := h.body appended hphase
    have hbody : c.phase.inBody = true := by rw [show c.phase = .body appended from hphase]; rfl
    exact ⟨entry, (phase_step (hlink hbody) hstep).trans hentry⟩

theorem Capture.Linked.step {a : CaptureAct} (h : c.Linked) (hstep : c.step parse address path a = some c') : c'.Linked := by
  cases Capture.stepped hstep with
  | download hallow hd => exact h.download hallow hd
  | @append entry hphase hentry => exact ⟨fun _ _ => ⟨entry, hentry⟩, fun hiter => by cases hiter⟩
  | @next d hphase hd =>
    refine ⟨fun _ hbody => (by cases hbody), fun _ entry => ?_⟩
    cases Download.stepped hd <;> simp
  | interrupt hphase => exact .of_left (.inl rfl)
  | finish fault hphase => exact .of_left (.inr rfl)

/-- A capture that has not ended can always take a regular step of its own. -/
theorem Capture.Linked.progress (h : c.Linked) (hopen : c.phase ≠ .ended) :
    ∃ a c', CaptureAct.regular a = true ∧ a.own = true ∧ c.step parse address path a = some c' := by
  have hdownload : ∀ a d, c.phase = .iterating → Capture.allows .iterating a = true → c.download.step parse a = some d →
      c.step parse address path (.download a) = some { c with download := d, phase := Capture.phaseAfter c.phase a } := by
    intro a d hphase hallow hstep
    rw [Capture.step, hphase, if_pos hallow, hstep]
    rfl
  cases hphase : c.phase with
  | iterating =>
    cases hgenerator : c.download.phase with
    | idle => exact ⟨.download (.begin true), _, rfl, rfl, hdownload _ _ hphase rfl (by rw [Download.step, hgenerator])⟩
    | waiting => exact ⟨.download .timeout, _, rfl, rfl, hdownload _ _ hphase rfl (by rw [Download.step, hgenerator])⟩
    | yielded entry => exact absurd hgenerator (h.iterating hphase entry)
    | acking entry index =>
      exact ⟨.download (.ackDone true), _, rfl, rfl, hdownload _ _ hphase rfl (by rw [Download.step, hgenerator])⟩
    | stopping => exact ⟨.download .stop, _, rfl, rfl, hdownload _ _ hphase rfl (by rw [Download.step, hgenerator])⟩
  | body appended =>
    obtain ⟨entry, hentry⟩ := h.body appended hphase
    cases appended with
    | false => exact ⟨.append, _, rfl, rfl, by rw [Capture.step, hphase, hentry]⟩
    | true =>
      have hresume : (c.download.step parse .resume).isSome = true := by
        cases hpage : entry.2.page <;> simp [Download.step, hentry, hpage]
      obtain ⟨d, hd⟩ := Option.isSome_iff_exists.mp hresume
      exact ⟨.next, _, rfl, rfl, by rw [Capture.step, hphase, hd]; rfl⟩
  | finishing => exact ⟨.finish none, _, rfl, rfl, by rw [Capture.step, hphase]⟩
  | ended => exact absurd hphase hopen

/-- No step of the generator ends a capture. -/
theorem Capture.phaseAfter_ended {phase : CapturePhase} {a : DownloadAct} (hallow : Capture.allows phase a = true)
    (hended : Capture.phaseAfter phase a = .ended) : phase = .ended := by
  by_cases htake : a = .take
  · rw [htake] at hended
    cases hended
  obtain ⟨-, hafter⟩ | ⟨hafter, -⟩ := Capture.phaseAfter_cases htake hallow
  · cases hafter.symm.trans hended
  · exact hafter.symm.trans hended

/-- An ended capture has written all it has collected, and that starts with what had been collected before. -/
structure Capture.Wrote (address : PyStr) (path : Path) (before : List Bytes) (c : Capture) : Prop where
  grows : before <+: c.rawMessages
  written : c.phase = .ended → ∀ idBytes, address.encode = .ok idBytes → c.files path = some (encodeBatch c.rawMessages idBytes)

theorem Capture.Wrote.step {before : List Bytes} {a : CaptureAct} (h : c.Wrote address path before)
    (ha : CaptureAct.regular a = true) (hstep : c.step parse address path a = some c') : c'.Wrote address path before := by
  cases Capture.stepped hstep with
  | download hallow hd => exact ⟨h.grows, fun hended => h.written (Capture.phaseAfter_ended hallow hended)⟩
  | append hphase hentry => exact ⟨h.grows.trans (List.prefix_append _ _), fun hended => by cases hended⟩
  | next hphase hd => exact ⟨h.grows, fun hended => by cases hended⟩
  | interrupt hphase => cases ha
  | finish fault hphase =>
    obtain rfl : fault = none := by simpa [CaptureAct.regular] using ha
    refine ⟨h.grows, fun _ idBytes haddress => ?_⟩
    rw [writeBatchIngestRequest_ok haddress]
    exact writtenFiles_path _ _ _

end

/-- A capture whose generator has not been started ends, whatever has happened in between: it makes at most four steps of its own
    for each message that is in the inbox or arrives, and four more; and from any state in which it has not ended it can be brought
    to its end with no further message, with a file that holds all it has collected. -/
theorem capture_ends (parse : Bytes → Option PendantAllMsg) (address : PyStr) (path : Path) (c₀ c : Capture)
    (hphase : c₀.phase = .iterating) (hidle : c₀.download.phase = .idle) (acts : List CaptureAct)
    (hrun : Transition.run (Capture.step parse address path) c₀ acts = some c) :
    acts.countP CaptureAct.own ≤ 4 * (c₀.download.inbox.length +
        (Transition.outputs (Capture.step parse address path) (Capture.arrivals parse) c₀ acts).length) + 4 ∧
      (c.phase ≠ .ended → ∃ more c', (∀ a ∈ more, CaptureAct.regular a = true) ∧
        Transition.run (Capture.step parse address path) c more = some c' ∧ c'.phase = .ended ∧ c.rawMessages <+: c'.rawMessages ∧
        ∀ idBytes, address.encode = .ok idBytes → ∃ data, c'.files path = some data ∧ iterMessages data = (c'.rawMessages, none)) := by
  constructor
  · have hpaid := (capture_pays parse address path).run hrun
    have hstart : c₀.potential = 4 * c₀.download.inbox.length + 4 := by rw [Capture.potential, hphase, hidle]; rfl
    omega
  · intro hopen
    have hlinked : c.Linked := by
      refine Transition.run_invariant (fun s a t h hstep => h.step hstep) hrun ⟨fun appended hbody => ?_, fun _ entry => ?_⟩
      · rw [hphase] at hbody
        cases hbody
      · rw [hidle]
        simp
    have hwrote : c.Wrote address path c.rawMessages := ⟨List.prefix_refl _, fun hended => absurd hended hopen⟩
    obtain ⟨more, c', hmore, hrun', ⟨-, hwrote'⟩, hended⟩ := (capture_pays parse address path).exists_end
      (P := fun s => s.Linked ∧ s.Wrote address path c.rawMessages) (E := fun s => s.phase = .ended)
      (C := fun a => CaptureAct.regular a = true)
      (fun s a t ha h hstep => ⟨h.1.step hstep, h.2.step ha hstep⟩) (fun s h hs => h.1.progress hs) ⟨hlinked, hwrote⟩
    refine ⟨more, c', hmore, hrun', hended, hwrote'.grows, fun idBytes haddress => ?_⟩
    exact ⟨_, hwrote'.written hended idBytes haddress, iterMessages_encodeBatch _ _⟩

/-- The loop has taken a page and not asked for the next; it ends, and the page is in the file. -/
theorem capture_ends_sample : ∃ more c' data, (∀ a ∈ more, CaptureAct.regular a = true) ∧
    (Transition.run (Capture.step parsePageMessage [] "capture.bin") { files := fun _ => none }
      ([.download (.begin true), .download (.notify (encodeFragment 1 0 1 (pageMessage 2))), .download .take, .append] ++ more)) =
        some c' ∧ c'.phase = .ended ∧ c'.files "capture.bin" = some data ∧ [pageMessage 2] <+: (iterMessages data).1 := by
  have hrun : (Transition.run (Capture.step parsePageMessage [] "capture.bin") { files := fun _ => none }
      [.download (.begin true), .download (.notify (encodeFragment 1 0 1 (pageMessage 2))), .download .take, .append]).map
        (fun c => (c.rawMessages, c.phase)) = some ([pageMessage 2], .body true) := by decide +kernel
  obtain ⟨c, hc, hstate⟩ := Option.map_eq_some_iff.mp hrun
  obtain ⟨hraw, hphase⟩ := Prod.mk.inj hstate
  obtain ⟨-, hends⟩ := capture_ends parsePageMessage [] "capture.bin" { files := fun _ => none } c rfl rfl _ hc
  obtain ⟨more, c', hmore, hrun', hended, hgrows, hfile⟩ := hends (by simp [hphase])
  obtain ⟨data, hdata, hread⟩ := hfile [] PyStr.encode_nil
  refine ⟨more, c', data, hmore, (Transition.run_append_of hc).trans hrun', hended, hdata, ?_⟩
  rw [hread, ← hraw]
  exact hgrows

/-! ### Steps of a sync -/

/-- Any step of the command but those of the link and of another use of the session. -/
def SyncAct.own : SyncAct → Bool
  | .capture a => a.own
  | _ => true

/-- A step in which nothing goes wrong, when the device answers with `info` and the server as `client`. -/
def SyncAct.Regular (info : PendantInfo) (client : HttpRequest → HttpReply) : SyncAct → Prop
  | .info reply => reply = some info
  | .save fault => fault = none
  | .send _ returns => returns = true
  | .capture a => a.regular = true
  | .decode client' fault => client' = client ∧ fault = none

namespace Sync
variable {Priv Pub : Type} {lib : EcLibrary Priv Pub} {codecs : Codecs} {clock : Clock} {urandom : Nat → Fin 4 → UInt8}
  {config : SyncConfig Priv} {s t : Sync Priv}

/-- What a step puts in the inbox of the capture. -/
def arrivals (parse : Bytes → Option PendantAllMsg) (s : Sync Priv) : SyncAct → List InboxEntry
  | .capture a =>
    match s.phase with
    | .capturing _ _ capture _ => capture.arrivals parse a
    | _ => []
  | _ => []

/-- Before the capture each phase is one step, and the capture has to take what waits for it; behind it there is the decode
    step. -/
def potential (config : SyncConfig Priv) (s : Sync Priv) : Nat :=
  match s.phase with
  | .connecting => 4 * config.state.session.inbox.length + 8
  | .saving _ _ => 4 * config.state.session.inbox.length + 7
  | .sending _ _ => 4 * config.state.session.inbox.length + 6
  | .capturing _ _ capture _ => capture.potential + 1
  | .captured _ _ _ => 1
  | .ended _ => 0

theorem onInfo_cases (lib : EcLibrary Priv Pub) (config : SyncConfig Priv) (s : Sync Priv) (info : PendantInfo) :
    s.onInfo lib config info = .ended none ∨ (∃ keyset, s.onInfo lib config info = .saving info keyset) ∨
      ∃ keyset, s.onInfo lib config info = .capturing info keyset (config.capture s.files) false := by
  rw [onInfo]
  cases config.keyPath with
  | some path =>
    dsimp only
    cases s.files path with
    | none => exact .inl rfl
    | some pem =>
      dsimp only
      cases keysetFromExisting lib pem info.audioEncryptionPubKey with
      | error _ => exact .inl rfl
      | ok keyset => exact .inr (.inr ⟨some keyset, rfl⟩)
  | none =>
    dsimp only
    split
    · cases generateKeyset lib config.generated info.audioEncryptionPubKey with
      | error _ => exact .inl rfl
      | ok keyset => exact .inr (.inl ⟨keyset, rfl⟩)
    · exact .inr (.inr ⟨none, rfl⟩)

theorem onFinish_cases (config : SyncConfig Priv) (info : PendantInfo) (keyset : Option (ServerKeySet Priv)) (capture : Capture)
    (raising : Bool) (fault : Option IoFault) : onFinish config info keyset capture raising fault = .ended none ∨
      onFinish config info keyset capture raising fault = .captured info keyset capture.rawMessages := by
  rw [onFinish]
  split
  · exact .inl rfl
  · cases raising
    · exact .inr rfl
    · exact .inl rfl

theorem potential_spend {a : SyncAct} (hown : a.own = true) (hstep : s.step lib codecs clock urandom config a = some t) :
    t.potential config < s.potential config := by
  cases Sync.stepped hstep with
  | unanswered hphase => simp [potential, hphase]
  | answered hphase info =>
    obtain hnext | ⟨keyset, hnext⟩ | ⟨keyset, hnext⟩ := onInfo_cases lib config s info
    · simp [potential, hphase, hnext]
    · simp [potential, hphase, hnext]
    · simp [potential, hphase, hnext, SyncConfig.capture, Capture.potential, CapturePhase.rank, Download.inbox]
  | saved hphase fault => cases fault <;> simp [potential, hphase]
  | sent hphase delivered returns =>
    cases returns <;> simp [potential, hphase, SyncConfig.capture, Capture.potential, CapturePhase.rank, Download.inbox]
  | captured hphase ha hnext =>
    have hspend := PendantClient.potential_spend hown hnext
    simpa [potential, hphase] using hspend
  | @finished info keyset capture raising hphase hleft fault =>
    have hpositive : 0 < capture.potential := by simp [Capture.potential, hleft, CapturePhase.rank]
    obtain hnext | hnext := onFinish_cases config info keyset capture raising fault
    · simp [potential, hphase, hnext]
    · simp [potential, hphase, hnext, hpositive]
  | decoded hphase client fault hrun => simp [potential, hphase]

theorem potential_bring {a : SyncAct} (hown : a.own = false) (hstep : s.step lib codecs clock urandom config a = some t) :
    t.potential config ≤ s.potential config + 4 * (s.arrivals codecs.parsePendantAll a).length := by
  cases Sync.stepped hstep with
  | captured hphase ha hnext =>
    have hbring := PendantClient.potential_bring hown hnext
    simp only [potential, arrivals, hphase]
    omega
  | _ => cases hown

variable (lib codecs clock urandom config) in
theorem pays : Transition.Pays (Sync.step lib codecs clock urandom config) (Sync.potential config) SyncAct.own
    (Sync.arrivals codecs.parsePendantAll) 4 where
  spend _ _ _ := potential_spend
  bring _ _ _ := potential_bring

/-! ### Progress of a sync -/

/-- A capture under way has not ended, and can go on. -/
def Linked (s : Sync Priv) : Prop :=
  ∀ info keyset capture raising, s.phase = .capturing info keyset capture raising → capture.Linked ∧ capture.phase ≠ .ended

/-- The keys are settled, and nothing has been raised since. -/
def clear (s : Sync Priv) : Bool :=
  match s.phase with
  | .capturing _ _ _ raising => !raising
  | .captured _ _ _ => true
  | .ended run => run.isSome
  | _ => false

theorem Linked.of_phase {phase : SyncPhase Priv} (hphase : t.phase = phase)
    (hother : ∀ info keyset capture raising, phase ≠ .capturing info keyset capture raising) : t.Linked :=
  fun info keyset capture raising heq => absurd (hphase.symm.trans heq) (hother info keyset capture raising)

/-- The capture of a sync starts with its generator idle. -/
theorem Linked.of_start {info : PendantInfo} {keyset : Option (ServerKeySet Priv)} {files : Files}
    (hphase : t.phase = .capturing info keyset (config.capture files) false) : t.Linked := by
  intro info' keyset' capture raising heq
  cases hphase.symm.trans heq
  exact ⟨⟨fun _ hbody => (by cases hbody), fun _ _ => (by simp [SyncConfig.capture])⟩, by simp [SyncConfig.capture]⟩

/-- Only the `finally` ends a capture. -/
theorem phase_ne_ended {c c' : Capture} {parse : Bytes → Option PendantAllMsg} {address : PyStr} {path : Path} {a : CaptureAct}
    (ha : ∀ fault, a ≠ .finish fault) (hopen : c.phase ≠ .ended) (hstep : c.step parse address path a = some c') :
    c'.phase ≠ .ended := by
  cases Capture.stepped hstep with
  | download hallow hd => exact fun hended => hopen (Capture.phaseAfter_ended hallow hended)
  | finish fault hphase => exact absurd rfl (ha fault)
  | _ => simp

theorem Linked.step {a : SyncAct} (h : s.Linked) (hstep : s.step lib codecs clock urandom config a = some t) : t.Linked := by
  cases Sync.stepped hstep with
  | unanswered hphase => exact .of_phase rfl (by simp)
  | answered hphase info =>
    obtain hnext | ⟨keyset, hnext⟩ | ⟨keyset, hnext⟩ := onInfo_cases lib config s info
    · exact .of_phase hnext (by simp)
    · exact .of_phase hnext (by simp)
    · exact .of_start hnext
  | saved hphase fault => cases fault <;> exact .of_phase rfl (by simp)
  | sent hphase delivered returns =>
    cases returns
    · exact .of_phase rfl (by simp)
    · exact .of_start rfl
  | captured hphase ha hnext =>
    obtain ⟨hlinked, hopen⟩ := h _ _ _ _ hphase
    intro info keyset capture raising heq
    cases heq
    exact ⟨hlinked.step hnext, phase_ne_ended ha hopen hnext⟩
  | @finished info keyset capture raising hphase hleft fault =>
    obtain hnext | hnext := onFinish_cases config info keyset capture raising fault
    · exact .of_phase hnext (by simp)
    · exact .of_phase hnext (by simp)
  | decoded hphase client fault hrun => exact .of_phase rfl (by simp)

theorem raises_of_regular {a : CaptureAct} (ha : a.regular = true) (phase : CapturePhase) : a.raises phase = false := by
  cases a with
  | download b =>
    cases b with
    | begin ok =>
      cases ok
      · cases ha
      · rfl
    | abort delivered => cases ha
    | _ => rfl
  | interrupt => cases ha
  | _ => rfl

theorem clear_step {idBytes : Bytes} (haddress : config.address.encode = .ok idBytes) {info : PendantInfo}
    {client : HttpRequest → HttpReply} {a : SyncAct} (h : s.clear = true) (ha : a.Regular info client)
    (hstep : s.step lib codecs clock urandom config a = some t) : t.clear = true := by
  cases Sync.stepped hstep with
  | unanswered hphase => simp [clear, hphase] at h
  | answered hphase info => simp [clear, hphase] at h
  | saved hphase fault => simp [clear, hphase] at h
  | sent hphase delivered returns => simp [clear, hphase] at h
  | @captured info keyset capture raising next b hphase hb hnext =>
    have hraising : raising = false := by simpa [clear, hphase] using h
    simp [clear, hraising, raises_of_regular ha]
  | @finished info keyset capture raising hphase hleft fault =>
    have hraising : raising = false := by simpa [clear, hphase] using h
    obtain rfl : fault = none := by simpa [SyncAct.Regular, CaptureAct.regular] using ha
    simp [clear, hraising, onFinish, writeBatchIngestRequest_ok haddress]
  | decoded hphase client fault hrun => simp [clear]

/-- Whatever the device and the server answer, a sync that has not ended can take a regular step of its own. -/
theorem Linked.progress (h : s.Linked) (info : PendantInfo) (client : HttpRequest → HttpReply)
    (hopen : ¬∃ result, s.phase = .ended result) :
    ∃ a t, a.Regular info client ∧ a.own = true ∧ s.step lib codecs clock urandom config a = some t := by
  cases hphase : s.phase with
  | connecting => exact ⟨.info (some info), _, rfl, rfl, by simp only [Sync.step, hphase]; rfl⟩
  | saving info keyset => exact ⟨.save none, _, rfl, rfl, by rw [Sync.step, hphase]⟩
  | sending info keyset => exact ⟨.send true true, _, rfl, rfl, by rw [Sync.step, hphase]⟩
  | capturing info keyset capture raising =>
    obtain ⟨hlinked, hcapture⟩ := h _ _ _ _ hphase
    obtain ⟨a, next, hregular, hown, hnext⟩ := hlinked.progress hcapture
    exact ⟨.capture a, _, hregular, hown, by rw [Sync.step, hphase]; dsimp only; rw [hnext]; rfl⟩
  | captured info keyset rawMessages => exact ⟨.decode client none, _, ⟨rfl, rfl⟩, rfl, by rw [Sync.step, hphase]⟩
  | ended result => exact absurd ⟨result, hphase⟩ hopen

end Sync

/-- A sync ends, whatever has happened in it: it makes at most four steps of its own for each message that waits when its capture
    starts or arrives in it, and eight more; and from any state, whatever the device and the server answer, it can be brought to
    its end with no further message. Where the keys are settled and nothing has been raised, it ends with what its decode step
    leaves. -/
theorem sync_ends {Priv Pub : Type} (lib : EcLibrary Priv Pub) (codecs : Codecs) (clock : Clock)
    (urandom : Nat → Fin 4 → UInt8) (config : SyncConfig Priv) (files : Files) (acts : List SyncAct) (s : Sync Priv)
    (hrun : Transition.run (Sync.step lib codecs clock urandom config) { files } acts = some s) :
    acts.countP SyncAct.own ≤ 4 * (config.state.session.inbox.length + (Transition.outputs (Sync.step lib codecs clock urandom config)
        (Sync.arrivals codecs.parsePendantAll) { files } acts).length) + 8 ∧
      ∀ info client, ∃ more s' result, (∀ a ∈ more, a.Regular info client) ∧
        Transition.run (Sync.step lib codecs clock urandom config) s more = some s' ∧ s'.phase = .ended result ∧
        (s.clear = true → (∃ idBytes, config.address.encode = .ok idBytes) → ∃ run, result = some run) := by
  constructor
  · have hpaid := (Sync.pays lib codecs clock urandom config).run hrun
    have hstart : Sync.potential config { files } = 4 * config.state.session.inbox.length + 8 := rfl
    omega
  · intro info client
    have hlinked : s.Linked := Transition.run_invariant (fun s a t h hstep => h.step hstep) hrun (.of_phase rfl (by simp))
    let Q (t : Sync Priv) := t.Linked ∧ (s.clear = true → (∃ idBytes, config.address.encode = .ok idBytes) → t.clear = true)
    have hkeep : ∀ u a t, a.Regular info client → Q u → u.step lib codecs clock urandom config a = some t → Q t := by
      rintro u a t ha ⟨hu, hclear⟩ hstep
      refine ⟨hu.step hstep, fun hs haddress => ?_⟩
      have hagain := hclear hs haddress
      obtain ⟨idBytes, haddress⟩ := haddress
      exact Sync.clear_step haddress hagain ha hstep
    obtain ⟨more, s', hmore, hrun', ⟨-, hclear⟩, result, hended⟩ := (Sync.pays lib codecs clock urandom config).exists_end
      (E := fun t => ∃ result, t.phase = .ended result) (C := fun a => a.Regular info client) hkeep
      (fun u h hu => h.1.progress info client hu) ⟨hlinked, fun hs _ => hs⟩
    refine ⟨more, s', result, hmore, hrun', hended, fun hs haddress => ?_⟩
    have hsome := hclear hs haddress
    rw [Sync.clear, hended] at hsome
    exact Option.isSome_iff_exists.mp hsome

/-- A sync with a new key that has half a message: it ends behind its decode step. -/
theorem sync_ends_sample : ∃ more s' run, (∀ a ∈ more, a.Regular pendantInfo fun _ => .raised) ∧
    Transition.run (Sync.step Party.library Party.codecs Utc.clock (fun _ _ => 7) keySync) { files := fun _ => none }
      (keySyncRun.take 5 ++ more) = some s' ∧ s'.phase = .ended (some run) := by
  have hrun : (Transition.run (Sync.step Party.library Party.codecs Utc.clock (fun _ _ => 7) keySync) { files := fun _ => none }
      (keySyncRun.take 5)).map Sync.clear = some true := by decide +kernel
  obtain ⟨s, hs, hclear⟩ := Option.map_eq_some_iff.mp hrun
  obtain ⟨-, hends⟩ := sync_ends Party.library Party.codecs Utc.clock (fun _ _ => 7) keySync _ _ s hs
  obtain ⟨more, s', result, hmore, hrun', hended, hdecoded⟩ := hends pendantInfo fun _ => .raised
  obtain ⟨run, rfl⟩ := hdecoded hclear ⟨[], PyStr.encode_nil⟩
  exact ⟨more, s', run, hmore, (Transition.run_append_of hs).trans hrun', hended⟩

end PendantClient
