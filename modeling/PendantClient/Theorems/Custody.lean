import PendantClient.Lib.Custody
import PendantClient.Theorems.Delivery

/-! Pages over any number of captures: a page leaves the pendant only when it is in a capture file. -/

namespace PendantClient

section
variable {parse : Bytes → Option PendantAllMsg} {address : PyStr} {path : Path} {c c' : Capture} {acts : List CaptureAct}

/-! ### The end of a capture -/

theorem finish_step {fault : Option IoFault} (hstep : c.step parse address path (.finish fault) = some c') :
    c.phase = .finishing ∧ c'.phase = .ended := by
  cases Capture.stepped hstep with
  | finish _ hphase => exact ⟨hphase, rfl⟩

theorem ended_step {a : CaptureAct} (h : c.phase = .ended) (hstep : c.step parse address path a = some c') : c'.phase = .ended := by
  cases Capture.stepped hstep with
  | @download a _ hallow _ =>
    rw [h] at hallow ⊢
    cases a with
    | begin ok => simp [Capture.allows] at hallow
    | take => simp [Capture.allows] at hallow
    | stop => simp [Capture.phaseAfter]
    | _ => rfl
  | append hphase => simp [h] at hphase
  | next hphase => simp [h] at hphase
  | interrupt hphase => simp [h] at hphase
  | finish _ hphase => simp [h] at hphase

/-- The file is written once. -/
theorem finish_last {fault : Option IoFault}
    (hrun : Transition.run (Capture.step parse address path) c (acts ++ [.finish fault]) = some c') :
    ∀ fault', .finish fault' ∉ acts := by
  intro fault' hmem
  obtain ⟨pre, post, rfl⟩ := List.append_of_mem hmem
  rw [List.append_assoc, List.cons_append, Transition.run_append, Option.bind_eq_some_iff] at hrun
  obtain ⟨c₁, -, hrun⟩ := hrun
  obtain ⟨c₂, hfinish, hrun⟩ := Transition.run_cons.mp hrun
  rw [Transition.run_append, Option.bind_eq_some_iff] at hrun
  obtain ⟨c₃, hpost, hrun⟩ := hrun
  obtain ⟨c₄, hlast, -⟩ := Transition.run_cons.mp hrun
  have hended : c₃.phase = .ended :=
    Transition.run_invariant (P := fun c => c.phase = .ended) (fun _ _ _ => ended_step) hpost (finish_step hfinish).2
  rw [(finish_step hlast).1] at hended
  cases hended

end

/-! ### What is in the file -/

/-- Entries are inbox entries of their payloads, and a page that has been deleted was acknowledged. -/
structure Accounted (parse : Bytes → Option PendantAllMsg) (d : Download) : Prop where
  parsed : ∀ e ∈ d.yielded ++ d.inbox, parse e.1 = some e.2
  acking : ∀ entry i, d.phase = .acking entry i → entry ∈ d.acked ∧ entry.2.page = some i
  deletes : ∀ i ∈ d.deletes, ∃ e ∈ d.acked, e.2.page = some (i : Int)
  yielded : ∀ entry, d.phase = .yielded entry → entry ∈ d.yielded
  acked : ∀ e ∈ d.acked, e ∈ d.yielded

section
variable {parse : Bytes → Option PendantAllMsg} {d e : Download}

theorem Accounted.start : Accounted parse {} where
  parsed _ he := absurd he List.not_mem_nil
  acking _ _ hi := by cases hi
  deletes _ hi := absurd hi List.not_mem_nil
  yielded _ he := by cases he
  acked _ he := absurd he List.not_mem_nil

theorem Accounted.frame (h : Accounted parse d) (hentries : e.yielded ++ e.inbox = d.yielded ++ d.inbox) (hyielded : e.yielded = d.yielded)
    (hphase : e.phase = d.phase ∨ e.phase = .idle ∨ e.phase = .waiting ∨ e.phase = .stopping) (hacked : e.acked = d.acked)
    (hdeletes : e.deletes = d.deletes) : Accounted parse e where
  parsed := hentries ▸ h.parsed
  acking entry i hi := by
    rcases hphase with hphase | hphase | hphase | hphase <;> rw [hphase] at hi
    · exact hacked ▸ h.acking entry i hi
    all_goals cases hi
  deletes := by
    rw [hdeletes, hacked]
    exact h.deletes
  yielded entry hentry := by
    rcases hphase with hphase | hphase | hphase | hphase <;> rw [hphase] at hentry
    · exact hyielded ▸ h.yielded entry hentry
    all_goals cases hentry
  acked := by
    rw [hacked, hyielded]
    exact h.acked

theorem Accounted.deliverDelete (h : Accounted parse d) {entry : InboxEntry} {index : Int} (hphase : d.phase = .acking entry index)
    (delivered : Bool) : Accounted parse (d.deliverDelete index delivered) := by
  rw [Download.deliverDelete]
  split
  · rename_i hsent
    obtain ⟨hmem, hpage⟩ := h.acking entry index hphase
    refine ⟨h.parsed, h.acking, fun i hi => ?_, h.yielded, h.acked⟩
    rcases List.mem_append.mp hi with hi | hi
    · exact h.deletes i hi
    · obtain rfl := List.mem_singleton.mp hi
      exact ⟨entry, hmem, by rw [hpage, Download.toNat_deletable hsent.2]⟩
  · exact h

theorem Accounted.notify (h : Accounted parse d) (raw : Bytes) : Accounted parse (d.onNotification parse raw) := by
  rw [Download.onNotification]
  generalize onData d.table raw = result
  obtain ⟨table, outcome⟩ := result
  cases outcome with
  | dispatched payload =>
    dsimp only
    rcases inbox_onInbound parse d.state.session payload with hsame | ⟨msg, hmsg, -, hmore⟩
    · exact h.frame (congrArg (d.yielded ++ ·) hsame) rfl (.inl rfl) rfl rfl
    · refine ⟨fun e he => ?_, h.acking, h.deletes, h.yielded, h.acked⟩
      rcases List.mem_append.mp he with he | he
      · exact h.parsed e (List.mem_append_left _ he)
      · change e ∈ (d.state.session.onInbound parse payload).inbox at he
        rw [hmore, List.mem_append, List.mem_singleton] at he
        rcases he with he | rfl
        · exact h.parsed e (List.mem_append_right _ he)
        · exact hmsg
  | _ => exact h.frame rfl rfl (.inl rfl) rfl rfl

theorem Accounted.step {a : DownloadAct} (h : Accounted parse d) (hstep : d.step parse a = some e) : Accounted parse e := by
  cases Download.stepped hstep with
  | notify raw => exact h.notify raw
  | session hb hstate => exact h.frame (congrArg (d.yielded ++ ·) (inbox_step hb hstate)) rfl (.inl rfl) rfl rfl
  | begin ok => exact h.frame rfl rfl (.inr (by cases ok <;> simp)) rfl rfl
  | take hphase hinbox =>
    refine ⟨fun e he => h.parsed e ?_, fun _ _ hacking => (by cases hacking), h.deletes, fun entry hentry => ?_,
      fun e he => List.mem_append_left _ (h.acked e he)⟩
    · rw [hinbox, List.append_cons]
      exact he
    · cases hentry
      exact List.mem_concat_self
  | timeout => exact h.frame rfl rfl (.inr (.inr (.inr rfl))) rfl rfl
  | resumePage hphase hpage =>
    refine ⟨h.parsed, fun entry i hi => ?_, fun i hi => ?_, fun _ hyielded => (by cases hyielded), fun e he => ?_⟩
    · cases hi
      exact ⟨List.mem_concat_self, hpage⟩
    · obtain ⟨e, he, hpage⟩ := h.deletes i hi
      exact ⟨e, List.mem_append_left _ he, hpage⟩
    · rcases List.mem_append.mp he with he | he
      · exact h.acked e he
      · rw [List.mem_singleton.mp he]
        exact h.yielded _ hphase
  | resumeOther => exact h.frame rfl rfl (.inr (.inr (.inl rfl))) rfl rfl
  | ackDone delivered hphase => exact (h.deliverDelete hphase delivered).frame rfl rfl (.inr (.inr (.inl rfl))) rfl rfl
  | abortWaiting => exact h.frame rfl rfl (.inr (.inr (.inr rfl))) rfl rfl
  | abortYielded => exact h.frame rfl rfl (.inr (.inr (.inr rfl))) rfl rfl
  | abortAcking delivered hphase => exact (h.deliverDelete hphase delivered).frame rfl rfl (.inr (.inr (.inr rfl))) rfl rfl
  | stop => exact h.frame rfl rfl (.inr (.inl rfl)) rfl rfl

end

/-! ### One capture -/

/-- What the steps of a download keep, a capture keeps of its download. -/
theorem Capture.download_invariant {parse : Bytes → Option PendantAllMsg} {address : PyStr} {path : Path} {c c' : Capture}
    {acts : List CaptureAct} {P : Download → Prop} {cond : Download → DownloadAct → Prop}
    (keep : ∀ d a e, P d → cond d a → d.step parse a = some e → P e)
    (hcond : Transition.Meets (Capture.step parse address path) (fun c a => ∀ b, a.download? = some b → cond c.download b) c acts)
    (hrun : Transition.run (Capture.step parse address path) c acts = some c') (h : P c.download) : P c'.download := by
  refine Transition.run_invariant_of_meets (P := fun c => P c.download) (fun c a c' h hcond hstep => ?_) hcond hrun h
  have hdownload := Capture.download_step hstep
  cases hb : a.download? with
  | none =>
    rw [hb] at hdownload
    exact hdownload ▸ h
  | some b =>
    rw [hb] at hdownload
    exact keep _ b _ h (hcond b hb) hdownload

/-- Some capture file, read back, has a message with the page. -/
def CapturedIn (parse : Bytes → Option PendantAllMsg) (files : Files) (page : Nat) : Prop :=
  ∃ path data messages payload msg, files path = some data ∧ iterMessages data = (messages, none) ∧ payload ∈ messages ∧
    parse payload = some msg ∧ msg.page = some (page : Int)

/-- In a capture no page overtakes an earlier page of the log. -/
def NoneOvertakes (log : List Nat) (parse : Bytes → Option PendantAllMsg) (c : Capture) (a : CaptureAct) : Prop :=
  ∀ b ∈ a.download?, noGap log parse c.download b = true

instance (log : List Nat) (parse : Bytes → Option PendantAllMsg) (c : Capture) (a : CaptureAct) :
    Decidable (NoneOvertakes log parse c a) :=
  inferInstanceAs (Decidable (∀ b ∈ a.download?, noGap log parse c.download b = true))

/-- A capture of a pendant that holds the pages of `held`, with its file written. -/
structure CaptureSession (parse : Bytes → Option PendantAllMsg) (held : List Nat) (files : Files) where
  address : PyStr
  idBytes : Bytes
  encodes : address.encode = .ok idBytes
  path : Path
  /-- It overwrites no file. -/
  fresh : files path = none ∧ files (tmpPath path) = none
  acts : List CaptureAct
  capture : Capture
  ran : Transition.run (Capture.step parse address path) { files } (acts ++ [.finish none]) = some capture
  inOrder : Transition.Meets (Capture.step parse address path) (NoneOvertakes held parse) { files } acts

namespace CaptureSession
variable {parse : Bytes → Option PendantAllMsg} {held : List Nat} {files : Files}

/-- The pendant frees the pages up to each index that it is told to delete. -/
def Frees (k : CaptureSession parse held files) (page : Nat) : Prop := ∃ i ∈ k.capture.download.deletes, page ≤ i

instance (k : CaptureSession parse held files) (page : Nat) : Decidable (k.Frees page) :=
  inferInstanceAs (Decidable (∃ i ∈ k.capture.download.deletes, page ≤ i))

/-- What the loop leaves, and the file it is written to. -/
theorem written (k : CaptureSession parse held files) : ∃ c, Transition.run (Capture.step parse k.address k.path) { files } k.acts = some c ∧
    c.phase = .finishing ∧ k.capture.download = c.download ∧
    k.capture.files = writtenFiles files k.path (encodeBatch c.rawMessages k.idBytes) := by
  obtain ⟨c, hacts, hleft, hdownload, hwritten⟩ := capture_writes k.encodes k.ran
  rw [files_run k.acts (finish_last k.ran) hacts] at hwritten
  exact ⟨c, hacts, hleft, hdownload, hwritten⟩

/-- Files of earlier captures stay. -/
theorem keeps (k : CaptureSession parse held files) {page : Nat} (h : CapturedIn parse files page) :
    CapturedIn parse k.capture.files page := by
  obtain ⟨path, data, messages, payload, msg, hfile, hread⟩ := h
  obtain ⟨c, -, -, -, hwritten⟩ := k.written
  refine ⟨path, data, messages, payload, msg, ?_, hread⟩
  rw [hwritten, writtenFiles_other, hfile]
  · rintro rfl
    rw [k.fresh.1] at hfile
    cases hfile
  · rintro rfl
    rw [k.fresh.2] at hfile
    cases hfile

theorem mem_of_before {α : Type} {x y : α} {before after collected : List α} {last : Option α} (hx : x ∈ before)
    (h : before ++ y :: after = collected ++ last.toList) : x ∈ collected := by
  rcases last with - | z
  · rw [Option.toList_none, List.append_nil] at h
    exact h ▸ List.mem_append_left _ hx
  · rcases List.eq_nil_or_concat after with rfl | ⟨after, w, rfl⟩
    · exact (List.append_inj' h rfl).1 ▸ hx
    · rw [List.concat_eq_append, ← List.cons_append, ← List.append_assoc] at h
      exact (List.append_inj' h rfl).1 ▸ List.mem_append_left _ hx

/-- A page is freed only when the file has it. -/
theorem covers (k : CaptureSession parse held files) {page : Nat} (hheld : page ∈ held) (hfrees : k.Frees page) :
    CapturedIn parse k.capture.files page := by
  obtain ⟨c, hacts, hleft, hdownload, hwritten⟩ := k.written
  have hgapless : Gapless held c.download :=
    Capture.download_invariant (fun _ _ _ h hgap hstep => h.step hgap hstep) k.inOrder hacts .start
  have haccounted : Accounted parse c.download :=
    Capture.download_invariant (fun _ _ _ h (_ : True) hstep => h.step hstep) (fun _ _ _ _ _ _ _ _ => trivial)
      hacts .start
  have hgathers : Gathers True c :=
    Transition.run_invariant (fun _ _ _ h hstep => h.step (fun _ => trivial) hstep) hacts
      (.of_between (c := { files }) (d := {}) (.inl rfl) rfl)
  have hcollected : Collected c := by
    refine Transition.run_invariant_of_meets (fun _ _ _ h hkeep hstep => h.step hkeep hstep) ?_ hacts
      ⟨fun _ he => (by cases he), fun hb => (by cases hb), fun he => (by cases he)⟩
    rintro pre a post t hsplit -
    cases a with
    | finish fault => exact absurd (hsplit ▸ List.mem_append_right pre List.mem_cons_self) (finish_last k.ran fault)
    | _ => rfl
  obtain ⟨held', hyielded, -⟩ := hgathers.left (.inl hleft)
  have hcaptured : ∀ e ∈ c.download.yielded, e.2.page = some (page : Int) → e.1 ∈ c.rawMessages →
      CapturedIn parse k.capture.files page := fun e he hpage hraw =>
    ⟨k.path, _, _, e.1, e.2, by rw [hwritten, writtenFiles_path], iterMessages_encodeBatch _ _, hraw,
      haccounted.parsed e (List.mem_append_left _ he), hpage⟩
  obtain ⟨i, hi, hle⟩ := hfrees
  rw [hdownload] at hi
  rcases Nat.lt_or_eq_of_le hle with hlt | rfl
  · obtain ⟨entry, hentry, hpage⟩ := hgapless.deletes i hi
    obtain ⟨before, after, hsplit⟩ := List.append_of_mem hentry
    obtain ⟨e, he, hepage⟩ := hgapless.order before entry (after ++ c.download.inbox)
      (by rw [hsplit, List.append_assoc, List.cons_append]) i hpage page hheld (by exact_mod_cast hlt)
    refine hcaptured e (hsplit ▸ List.mem_append_left _ he) hepage ?_
    rw [hsplit, List.map_append, List.map_cons] at hyielded
    exact mem_of_before (List.mem_map_of_mem he) hyielded
  · obtain ⟨e, he, hpage⟩ := haccounted.deletes page hi
    exact hcaptured e (haccounted.acked e he) hpage (hcollected.raw e he)

end CaptureSession

/-! ### Any number of captures -/

/-- The pages that a pendant has recorded and those it still holds, and the files on disk. -/
structure Archive where
  recorded : List Nat := []
  held : List Nat := []
  files : Files

/-- The pendant records a page, or a capture is run on the pages that it holds. -/
inductive Archive.Step (parse : Bytes → Option PendantAllMsg) : Archive → Archive → Prop
  | record (s : Archive) (page : Nat) : Step parse s { s with recorded := s.recorded ++ [page], held := s.held ++ [page] }
  | capture (s : Archive) (k : CaptureSession parse s.held s.files) :
    Step parse s { s with held := s.held.filter fun page => ¬k.Frees page, files := k.capture.files }

section
variable {parse : Bytes → Option PendantAllMsg} {s t : Archive}

variable (parse) in
/-- The pendant is the source of the pages, the capture files are their store. -/
def Archive.custody (s : Archive) : Custody.State Nat where
  produced := { page | page ∈ s.recorded }
  held := { page | page ∈ s.held }
  stored := { page | CapturedIn parse s.files page }

/-- A capture is a hand-over. -/
theorem Archive.Step.custody (h : Archive.Step parse s t) : Custody.Step (s.custody parse) (t.custody parse) := by
  cases h with
  | record page =>
    have hstep := Custody.Step.produce (s.custody parse) page
    convert hstep using 1
    simp [Archive.custody, Set.ext_iff, or_comm]
  | capture k =>
    have hstep := Custody.Step.handOver (s.custody parse) { page | k.Frees page } { page | CapturedIn parse k.capture.files page }
      (fun _ => k.keeps) (fun _ hpage => k.covers hpage.1 hpage.2)
    convert hstep using 1
    simp [Archive.custody, Set.ext_iff]

theorem Archive.run_custody (h : Relation.ReflTransGen (Archive.Step parse) s t) :
    Relation.ReflTransGen Custody.Step (s.custody parse) (t.custody parse) :=
  h.lift (Archive.custody parse) fun _ _ => Archive.Step.custody

end

/-- Over any number of captures, however each is left, no page is lost that the pendant records: it still holds the page or some
    capture file has it, and a page that it no longer holds stays in the files from then on. -/
theorem no_page_is_lost (parse : Bytes → Option PendantAllMsg) (files : Files) {s t : Archive}
    (hs : Relation.ReflTransGen (Archive.Step parse) { files } s) (ht : Relation.ReflTransGen (Archive.Step parse) s t) :
    ∀ page ∈ s.recorded, (page ∈ s.held ∨ CapturedIn parse s.files page) ∧ (page ∉ s.held → CapturedIn parse t.files page) := by
  intro page hpage
  have hsafe : (s.custody parse).Safe :=
    Custody.State.Safe.run (fun _ hnone => absurd hnone List.not_mem_nil) (Archive.run_custody hs)
  exact ⟨hsafe hpage, fun hnot => Custody.stored_subset (Archive.run_custody ht) (hsafe.stored_of_released hpage hnot)⟩

/-- A capture of one page, from the two that the pendant holds. -/
def firstSession : CaptureSession parsePageMessage [1, 2] fun _ => none where
  address := []
  idBytes := []
  encodes := rfl
  path := "first.bin"
  fresh := ⟨rfl, rfl⟩
  acts := onePageCapture
  capture := (Transition.run (Capture.step parsePageMessage [] "first.bin") { files := fun _ => none }
    (onePageCapture ++ [.finish none])).get (by decide +kernel)
  ran := (Option.some_get _).symm
  inOrder := by decide +kernel

/-- The other page is captured while the first is freed. -/
theorem no_page_is_lost_sample :
    (CapturedIn parsePageMessage firstSession.capture.files 1) ∧ 2 ∈ [1, 2].filter fun page => ¬firstSession.Frees page := by
  have hrecord : Relation.ReflTransGen (Archive.Step parsePageMessage) { files := fun _ => none }
      { recorded := [1, 2], held := [1, 2], files := fun _ => none } :=
    .tail (.tail .refl (.record _ 1)) (.record _ 2)
  have hcapture : Archive.Step parsePageMessage { recorded := [1, 2], held := [1, 2], files := fun _ => none } _ :=
    .capture _ firstSession
  have hfreed : [1, 2].filter (fun page => ¬firstSession.Frees page) = [2] := by decide +kernel
  have hnone := no_page_is_lost parsePageMessage (fun _ => none) (.tail hrecord hcapture) .refl
  refine ⟨(hnone 1 (by simp)).2 ?_, by rw [hfreed]; simp⟩
  rw [hfreed]
  simp

end PendantClient
