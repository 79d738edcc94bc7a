import PendantClient.Sync
import PendantClient.Theorems.Atomic
import PendantClient.Theorems.Custody
import PendantClient.Theorems.EndToEnd

/-! Whole runs of `sync`: a public key is sent only behind its private key, which then stays on disk, and what the run has
    captured can be decoded again with it. -/

namespace PendantClient

/-! ### Files that are not touched -/

/-- Whatever fails, a capture writes to its file and its temporary file only. -/
theorem writeBatchIngestRequest_frame {path p : Path} (hpath : p ≠ path) (htmp : p ≠ tmpPath path) (files : Files)
    (messages : MessageSource) (bleIdentifier : PyStr) (fault : Option IoFault) :
    (writeBatchIngestRequest files messages bleIdentifier path fault).1 p = files p := by
  have hperform (call : IoCall) (s : Bytes × Files) : (call.perform path s).2 p = s.2 p := by
    by_cases h : call = .replace
    · subst h
      simp only [IoCall.perform, Function.update_of_ne htmp, Function.update_of_ne hpath]
    · exact perform_frame h htmp
  have hexecute (calls : List IoCall) : ∀ n s, (execute path fault calls n s).1 p = s.2 p := by
    induction calls with
    | nil => exact fun _ _ => rfl
    | cons call calls ih =>
      intro n s
      rcases execute_cons path fault call calls n s with ⟨kept, hfails⟩ | hnext
      · rw [hfails]
        exact fail_frame kept htmp
      · rw [hnext, ih, hperform]
  exact hexecute _ 0 ([], files)

/-- A writer that returns has written the whole encoding. -/
theorem writeBatchIngestRequest_returned {files : Files} {messages : List Bytes} {bleIdentifier : PyStr} {path : Path}
    {fault : Option IoFault} {total : Nat}
    (h : (writeBatchIngestRequest files { items := messages } bleIdentifier path fault).2 = .ok total) : ∃ idBytes,
      bleIdentifier.encode = .ok idBytes ∧
      (writeBatchIngestRequest files { items := messages } bleIdentifier path fault).1 path = some (encodeBatch messages idBytes) := by
  have hunraised : (execute path fault (batchCalls { items := messages } bleIdentifier).1 0 ([], files)).2 = false := by
    rw [← Bool.not_eq_true]
    intro hraised
    simp [writeBatchIngestRequest, hraised] at h
  have hsame : writeBatchIngestRequest files { items := messages } bleIdentifier path fault =
      writeBatchIngestRequest files { items := messages } bleIdentifier path none := by
    rw [writeBatchIngestRequest, writeBatchIngestRequest]
    dsimp only
    rw [execute_unraised hunraised]
  obtain ⟨writes, -, ⟨e, -, -, hcalls⟩ | ⟨idBytes, -, hid, -, -⟩⟩ := batchCalls_cases { items := messages } bleIdentifier
  · rw [writeBatchIngestRequest, hcalls] at h
    dsimp only at h
    split at h <;> cases h
  · rw [hsame, writeBatchIngestRequest_ok hid]
    exact ⟨idBytes, hid, writtenFiles_path _ _ _⟩

/-- Whatever fails, the capture file is what it was or the whole encoding. -/
theorem writeBatchIngestRequest_whole (files : Files) (messages : List Bytes) (bleIdentifier : PyStr) (path : Path)
    (fault : Option IoFault) : let written := (writeBatchIngestRequest files { items := messages } bleIdentifier path fault).1 path
    written = files path ∨ ∃ idBytes, written = some (encodeBatch messages idBytes) := by
  obtain ⟨writes, honly, hcases⟩ := batchCalls_cases { items := messages } bleIdentifier
  have hwrites : .replace ∉ [.openTmp] ++ writes := by
    intro hmem
    rcases List.mem_append.mp hmem with hmem | hmem
    · simp at hmem
    · obtain ⟨bytes, hbytes⟩ := honly _ hmem
      cases hbytes
  rw [writeBatchIngestRequest]
  rcases hcases with ⟨e, -, -, hcalls⟩ | ⟨idBytes, -, hid, hbytes, hcalls⟩ <;> rw [hcalls] <;> dsimp only
  · have hnot : .replace ∉ [.openTmp] ++ writes ++ [.close] := by simp_all
    exact .inl (execute_frame hnot (tmpPath_ne path))
  · rcases hraised : (execute path fault ([.openTmp] ++ writes ++ [.flush, .close, .replace]) 0 ([], files)).2 with - | -
    · rw [execute_unraised hraised, execute_all honly, hbytes]
      exact .inr ⟨idBytes, writtenFiles_path _ _ _⟩
    · have hnot : .replace ∉ [.openTmp] ++ writes ++ [.flush, .close] := by simp_all
      have hsplit : [.openTmp] ++ writes ++ [.flush, .close, .replace] = ([.openTmp] ++ writes ++ [.flush, .close]) ++ [.replace] := by
        simp
      rw [hsplit] at hraised ⊢
      exact .inl (execute_raised hnot hraised (tmpPath_ne path))

theorem syncDecode_frame {codecs : Codecs} {clock : Clock} {urandom : Nat → Fin 4 → UInt8} {client : HttpRequest → HttpReply}
    {files : Files} {base : AudioBase} {address : PyStr} {di : DeviceInfo} {keys : Option AudioKeySet} {opts : SyncOptions}
    {rawMessages : List Bytes} {fault : Option IoFault} {path : Path} (hsidecar : path ∉ base.sidecarPaths)
    (hpath : ∀ index, path ≠ base.recordingPath index) :
    (syncDecode codecs clock urandom client files base address di keys opts rawMessages fault).files path = files path := by
  rw [syncDecode]
  split
  · rfl
  · exact decodeChunksIntoFiles_others base urandom clock _ files _ none hpath fun hmem => hsidecar (sidecars_subset hmem)

namespace Sync
variable {Priv Pub : Type} {lib : EcLibrary Priv Pub} {config : SyncConfig Priv} {answered : PendantInfo → Prop}

/-- The key set that was generated for a device that has answered, with its private key on disk. -/
structure Saved (lib : EcLibrary Priv Pub) (config : SyncConfig Priv) (answered : PendantInfo → Prop) (files : Files)
    (info : PendantInfo) (keyset : ServerKeySet Priv) : Prop where
  answered : answered info
  generated : generateKeyset lib config.generated info.audioEncryptionPubKey = .ok keyset
  file : files config.base.keyPath = some (lib.privateBytes keyset.serverPriv)

/-- From the file the same key set is made again. -/
theorem Saved.restored {files : Files} {info : PendantInfo} {keyset : ServerKeySet Priv} (h : Saved lib config answered files info keyset)
    (hpem : ∀ key, lib.loadPemPrivateKey (lib.privateBytes key) = some (.secp256r1 key)) :
    keysetFromExisting lib (lib.privateBytes keyset.serverPriv) info.audioEncryptionPubKey = .ok keyset := by
  have hgenerated := h.generated
  obtain ⟨pendantPub, himport, hkeyset⟩ := bind_eq_ok.mp hgenerated
  cases hkeyset
  rw [keysetFromExisting, hpem]
  dsimp only
  rw [himport]
  rfl

/-- The keys of a run behind its key step: a pushed key is saved, and no other has been sent. -/
def Keys (lib : EcLibrary Priv Pub) (config : SyncConfig Priv) (answered : PendantInfo → Prop) (files : Files) (sent : List Bytes)
    (info : PendantInfo) (keyset : Option (ServerKeySet Priv)) : Prop :=
  if config.keyPath = none ∧ config.pushKey = true then
    ∃ generated, keyset = some generated ∧ Saved lib config answered files info generated ∧ ∀ pub ∈ sent, pub = generated.serverPubBytes
  else sent = []

/-- What holds of the files and of the keys that were sent, phase by phase. -/
def Holds (lib : EcLibrary Priv Pub) (codecs : Codecs) (clock : Clock) (urandom : Nat → Fin 4 → UInt8) (config : SyncConfig Priv)
    (answered : PendantInfo → Prop) (s : Sync Priv) : Prop :=
  match s.phase with
  | .connecting => s.sent = []
  | .saving info keyset => s.sent = [] ∧ config.keyPath = none ∧ config.pushKey = true ∧ answered info ∧
    generateKeyset lib config.generated info.audioEncryptionPubKey = .ok keyset
  | .sending info keyset => s.sent = [] ∧ config.keyPath = none ∧ config.pushKey = true ∧ Saved lib config answered s.files info keyset
  | .capturing info keyset capture _ => capture.files = s.files ∧ Keys lib config answered s.files s.sent info keyset
  | .captured info keyset rawMessages => Keys lib config answered s.files s.sent info keyset ∧ ∃ idBytes,
    config.address.encode = .ok idBytes ∧ s.files config.base.binPath = some (encodeBatch rawMessages idBytes)
  | .ended none => ∀ pub ∈ s.sent, ∃ info keyset, Saved lib config answered s.files info keyset ∧ keyset.serverPubBytes = pub
  | .ended (some run) => ∃ before info keyset rawMessages idBytes client fault, Keys lib config answered before s.sent info keyset ∧
    config.address.encode = .ok idBytes ∧ before config.base.binPath = some (encodeBatch rawMessages idBytes) ∧
    run = syncDecode codecs clock urandom client before config.base config.address info.di (keyset.map (·.toAudioKeySet)) config.opts
      rawMessages fault ∧ s.files = run.files

section
variable {codecs : Codecs} {clock : Clock} {urandom : Nat → Fin 4 → UInt8} {s t : Sync Priv}

theorem Saved.frame {files files' : Files} {info : PendantInfo} {keyset : ServerKeySet Priv} (h : Saved lib config answered files info keyset)
    (hkey : files' config.base.keyPath = files config.base.keyPath) : Saved lib config answered files' info keyset :=
  ⟨h.answered, h.generated, hkey.trans h.file⟩

theorem Keys.frame {files files' : Files} {sent : List Bytes} {info : PendantInfo} {keyset : Option (ServerKeySet Priv)}
    (h : Keys lib config answered files sent info keyset) (hkey : files' config.base.keyPath = files config.base.keyPath) :
    Keys lib config answered files' sent info keyset := by
  rw [Keys] at h ⊢
  split
  · rename_i hpush
    rw [if_pos hpush] at h
    obtain ⟨generated, hkeyset, hsaved, hsent⟩ := h
    exact ⟨generated, hkeyset, hsaved.frame hkey, hsent⟩
  · rename_i hpush
    rwa [if_neg hpush] at h

/-- Each key that was sent is saved. -/
theorem Keys.sent {files : Files} {sent : List Bytes} {info : PendantInfo} {keyset : Option (ServerKeySet Priv)}
    (h : Keys lib config answered files sent info keyset) :
    ∀ pub ∈ sent, ∃ info keyset, Saved lib config answered files info keyset ∧ keyset.serverPubBytes = pub := by
  rw [Keys] at h
  intro pub hpub
  split at h
  · obtain ⟨generated, -, hsaved, hsent⟩ := h
    exact ⟨info, generated, hsaved, (hsent pub hpub).symm⟩
  · simp [h] at hpub

/-- The capture of a run leaves the saved key alone. -/
theorem keyPath_ne (config : SyncConfig Priv) : config.base.keyPath ≠ config.base.binPath ∧
    config.base.keyPath ≠ tmpPath config.base.binPath := by
  have hnodup := config.base.artifacts_nodup
  rw [AudioBase.artifacts] at hnodup
  simp only [List.cons_append, List.nil_append, List.nodup_cons, List.mem_cons, not_or] at hnodup
  exact ⟨hnodup.1.1, hnodup.1.2.1⟩

/-- What a step can do to a run of `sync`. -/
inductive Stepped (lib : EcLibrary Priv Pub) (codecs : Codecs) (clock : Clock) (urandom : Nat → Fin 4 → UInt8)
    (config : SyncConfig Priv) (s : Sync Priv) : SyncAct → Sync Priv → Prop
  | unanswered (hphase : s.phase = .connecting) : Stepped lib codecs clock urandom config s (.info none) { s with phase := .ended none }
  | answered (hphase : s.phase = .connecting) (info : PendantInfo) :
    Stepped lib codecs clock urandom config s (.info (some info)) { s with phase := s.onInfo lib config info }
  | saved {info keyset} (hphase : s.phase = .saving info keyset) (fault : Option WriteFault) :
    Stepped lib codecs clock urandom config s (.save fault) { s with
      files := writeBytes s.files config.base.keyPath (lib.privateBytes keyset.serverPriv) fault
      phase := if fault.isNone then .sending info keyset else .ended none }
  | sent {info keyset} (hphase : s.phase = .sending info keyset) (delivered returns : Bool) :
    Stepped lib codecs clock urandom config s (.send delivered returns) { s with
      sent := if delivered then s.sent ++ [keyset.serverPubBytes] else s.sent
      phase := if returns then .capturing info (some keyset) (config.capture s.files) false else .ended none }
  | captured {info keyset capture raising next a} (hphase : s.phase = .capturing info keyset capture raising)
    (ha : ∀ fault, a ≠ .finish fault) (hnext : capture.step codecs.parsePendantAll config.address config.base.binPath a = some next) :
    Stepped lib codecs clock urandom config s (.capture a)
      { s with phase := .capturing info keyset next (raising || a.raises capture.phase) }
  | finished {info keyset capture raising} (hphase : s.phase = .capturing info keyset capture raising)
    (hleft : capture.phase = .finishing) (fault : Option IoFault) :
    Stepped lib codecs clock urandom config s (.capture (.finish fault)) { s with
      files := (writeBatchIngestRequest capture.files { items := capture.rawMessages } config.address config.base.binPath fault).1
      phase := onFinish config info keyset capture raising fault }
  | decoded {info keyset rawMessages run} (hphase : s.phase = .captured info keyset rawMessages) (client : HttpRequest → HttpReply)
    (fault : Option IoFault) (hrun : run = syncDecode codecs clock urandom client s.files config.base config.address info.di
      (keyset.map (·.toAudioKeySet)) config.opts rawMessages fault) :
    Stepped lib codecs clock urandom config s (.decode client fault) { s with files := run.files, phase := .ended (some run) }

theorem stepped {a : SyncAct} (hstep : s.step lib codecs clock urandom config a = some t) :
    Stepped lib codecs clock urandom config s a t := by
  cases a with
  | info reply =>
    simp only [Sync.step] at hstep
    split at hstep
    · rename_i hphase
      cases hstep
      exact .unanswered hphase
    · rename_i info hphase
      cases hstep
      exact .answered hphase info
    · cases hstep
  | save fault =>
    simp only [Sync.step] at hstep
    split at hstep
    · rename_i info keyset hphase
      cases hstep
      exact .saved hphase fault
    · cases hstep
  | send delivered returns =>
    simp only [Sync.step] at hstep
    split at hstep
    · rename_i info keyset hphase
      cases hstep
      exact .sent hphase delivered returns
    · cases hstep
  | capture a =>
    simp only [Sync.step] at hstep
    split at hstep
    · rename_i info keyset capture raising hphase
      obtain ⟨next, hnext, ht⟩ := Option.map_eq_some_iff.mp hstep
      cases a with
      | finish fault =>
        cases ht
        cases Capture.stepped hnext with
        | finish _ hleft => exact .finished hphase hleft fault
      | _ =>
        cases ht
        exact .captured hphase (by simp) hnext
    · cases hstep
  | decode client fault =>
    simp only [Sync.step] at hstep
    split at hstep
    · rename_i info keyset rawMessages hphase
      cases hstep
      exact .decoded hphase client fault rfl
    · cases hstep

theorem holds_info (h : Holds lib codecs clock urandom config answered s) (hphase : s.phase = .connecting) {info : PendantInfo}
    (hinfo : answered info) :
    Holds lib codecs clock urandom config answered { s with phase := s.onInfo lib config info } := by
  rw [Holds, hphase] at h
  dsimp only at h
  have hended : Holds lib codecs clock urandom config answered { s with phase := .ended none } := by
    simp [Holds, h]
  rw [onInfo]
  cases hkey : config.keyPath with
  | some path =>
    dsimp only
    split
    · exact hended
    · split
      · exact hended
      · simp [Holds, Keys, SyncConfig.capture, hkey, h]
  | none =>
    dsimp only
    split
    · rename_i hpush
      split
      · exact hended
      · rename_i keyset hgenerated
        simp [Holds, h, hkey, hpush, hinfo, hgenerated]
    · rename_i hpush
      simp [Holds, Keys, SyncConfig.capture, h, hpush]

theorem holds_finish {info : PendantInfo} {keyset : Option (ServerKeySet Priv)} {capture : Capture}
    (hkeys : Keys lib config answered s.files s.sent info keyset) (hfiles : capture.files = s.files) (raising : Bool) (fault : Option IoFault) :
    Holds lib codecs clock urandom config answered { s with
      files := (writeBatchIngestRequest capture.files { items := capture.rawMessages } config.address config.base.binPath fault).1
      phase := onFinish config info keyset capture raising fault } := by
  obtain ⟨hbin, htmp⟩ := keyPath_ne config
  have hkeys' := hkeys.frame ((writeBatchIngestRequest_frame hbin htmp capture.files { items := capture.rawMessages } config.address
    fault).trans (congrFun hfiles _))
  rw [onFinish]
  split
  · exact hkeys'.sent
  · rename_i total hreturned
    split
    · exact hkeys'.sent
    · exact ⟨hkeys', writeBatchIngestRequest_returned hreturned⟩

/-- Each step of `sync` keeps it. -/
theorem holds_step {a : SyncAct} (h : Holds lib codecs clock urandom config answered s)
    (hanswered : ∀ info, a = .info (some info) → answered info) (hstep : s.step lib codecs clock urandom config a = some t) :
    Holds lib codecs clock urandom config answered t := by
  cases stepped hstep with
  | unanswered hphase =>
    rw [Holds, hphase] at h
    simp [Holds, show s.sent = [] from h]
  | answered hphase info => exact holds_info h hphase (hanswered info rfl)
  | saved hphase fault =>
    rw [Holds, hphase] at h
    obtain ⟨hsent, hkey, hpush, hinfo, hgenerated⟩ := h
    rcases fault with - | fault
    · exact ⟨hsent, hkey, hpush, hinfo, hgenerated, Function.update_self ..⟩
    · simp [Holds, hsent]
  | @sent info keyset hphase delivered returns =>
    rw [Holds, hphase] at h
    obtain ⟨hsent, hkey, hpush, hsaved⟩ := h
    have hkeys : Keys lib config answered s.files (if delivered then s.sent ++ [keyset.serverPubBytes] else s.sent) info (some keyset) := by
      rw [Keys, if_pos ⟨hkey, hpush⟩]
      refine ⟨keyset, rfl, hsaved, fun pub hpub => ?_⟩
      split at hpub <;> simp [hsent] at hpub
      exact hpub
    rcases returns with - | -
    · exact hkeys.sent
    · exact ⟨rfl, hkeys⟩
  | captured hphase ha hnext =>
    rw [Holds, hphase] at h
    exact ⟨(files_step ha hnext).trans h.1, h.2⟩
  | finished hphase hleft fault =>
    rw [Holds, hphase] at h
    exact holds_finish h.2 h.1 _ fault
  | decoded hphase client fault hrun =>
    rw [Holds, hphase] at h
    obtain ⟨hkeys, idBytes, haddress, hbin⟩ := h
    exact ⟨s.files, _, _, _, idBytes, client, fault, hkeys, haddress, hbin, hrun, rfl⟩

/-- What holds at the end of a run. -/
theorem holds_run {files : Files} {acts : List SyncAct}
    (hrun : Transition.run (Sync.step lib codecs clock urandom config) { files } acts = some s) :
    Holds lib codecs clock urandom config (fun info => .info (some info) ∈ acts) s := by
  refine Transition.run_invariant_of_meets
    (fun _ a _ h (ha : a ∈ acts) hstep => holds_step h (fun _ heq => heq ▸ ha) hstep) ?_ hrun rfl
  rintro pre a post t rfl -
  exact List.mem_append_right pre List.mem_cons_self

/-- The decode step leaves the saved key and the capture alone. -/
theorem syncDecode_kept {client : HttpRequest → HttpReply} {files : Files} {di : DeviceInfo} {keys : Option AudioKeySet}
    {rawMessages : List Bytes} {fault : Option IoFault} {path : Path}
    (hpath : path ∈ [config.base.keyPath, config.base.binPath, tmpPath config.base.binPath]) :
    (syncDecode codecs clock urandom client files config.base config.address di keys config.opts rawMessages fault).files path =
      files path :=
  syncDecode_frame (fun hmem => AudioBase.output_not_mem (.inl hmem) hpath)
    (fun index hsame => AudioBase.output_not_mem (.inr ⟨index, hsame⟩) hpath)

/-- What a run has done to the files it found. -/
structure Leaves (config : SyncConfig Priv) (files : Files) (s : Sync Priv) : Prop where
  others : ∀ path, path ∉ [config.base.keyPath, config.base.binPath, tmpPath config.base.binPath] → path ∉ config.base.sidecarPaths →
    (∀ index, path ≠ config.base.recordingPath index) → s.files path = files path
  capture : s.files config.base.binPath = files config.base.binPath ∨
    ∃ messages idBytes, s.files config.base.binPath = some (encodeBatch messages idBytes)
  undecoded : (∀ run, s.phase ≠ .ended (some run)) →
    ∀ path, path ∉ [config.base.keyPath, config.base.binPath, tmpPath config.base.binPath] → s.files path = files path

/-- A step before the decode step writes to the key file, the capture file and its temporary file. -/
theorem Leaves.write {files : Files} (h : Leaves config files s) (hphase : ∀ run, s.phase ≠ .ended (some run))
    (hothers : ∀ path, path ∉ [config.base.keyPath, config.base.binPath, tmpPath config.base.binPath] → t.files path = s.files path)
    (hcapture : t.files config.base.binPath = s.files config.base.binPath ∨
      ∃ messages idBytes, t.files config.base.binPath = some (encodeBatch messages idBytes)) : Leaves config files t where
  others path hpath hsidecar hindex := (hothers path hpath).trans (h.others path hpath hsidecar hindex)
  capture := by
    rcases hcapture with hsame | hwhole
    · rw [hsame]
      exact h.capture
    · exact .inr hwhole
  undecoded _ path hpath := (hothers path hpath).trans (h.undecoded hphase path hpath)

theorem writeBytes_frame {files : Files} {path p : Path} (hpath : p ≠ path) (content : Bytes) (fault : Option WriteFault) :
    writeBytes files path content fault p = files p := by
  rcases fault with - | - | kept
  · exact Function.update_of_ne hpath _ _
  · rfl
  · exact Function.update_of_ne hpath _ _

theorem Leaves.step {files : Files} {a : SyncAct} (hholds : Holds lib codecs clock urandom config answered s)
    (h : Leaves config files s) (hstep : s.step lib codecs clock urandom config a = some t) : Leaves config files t := by
  cases stepped hstep with
  | unanswered hphase => exact h.write (by simp [hphase]) (fun _ _ => rfl) (.inl rfl)
  | answered hphase info => exact h.write (by simp [hphase]) (fun _ _ => rfl) (.inl rfl)
  | saved hphase fault =>
    refine h.write (by simp [hphase]) (fun path hpath => ?_) (.inl ?_)
    · simp only [List.mem_cons, not_or] at hpath
      exact writeBytes_frame hpath.1 _ fault
    · exact writeBytes_frame (Ne.symm (keyPath_ne config).1) _ fault
  | sent hphase delivered returns => exact h.write (by simp [hphase]) (fun _ _ => rfl) (.inl rfl)
  | captured hphase ha hnext => exact h.write (by simp [hphase]) (fun _ _ => rfl) (.inl rfl)
  | @finished info keyset capture raising hphase hleft fault =>
    rw [Holds, hphase] at hholds
    rw [hholds.1]
    refine h.write (by simp [hphase]) (fun path hpath => ?_) ?_
    · simp only [List.mem_cons, not_or] at hpath
      exact writeBatchIngestRequest_frame hpath.2.1 hpath.2.2.1 s.files { items := capture.rawMessages } config.address fault
    · rcases writeBatchIngestRequest_whole s.files capture.rawMessages config.address config.base.binPath fault with
        hsame | ⟨idBytes, hwhole⟩
      · exact .inl hsame
      · exact .inr ⟨_, idBytes, hwhole⟩
  | decoded hphase client fault hrun =>
    refine ⟨fun path hpath hsidecar hindex => ?_, ?_, fun hnone => absurd rfl (hnone _)⟩
    · rw [hrun]
      exact (syncDecode_frame hsidecar hindex).trans (h.others path hpath hsidecar hindex)
    · rw [hrun]
      dsimp only
      rw [syncDecode_kept (by simp)]
      exact h.capture

end

end Sync

/-- In every state of every run of `sync`, whatever raises on the way, a public key that was sent to the pendant has its private
    key in the file of its name, and from that file and the device's own key the key set is made again. -/
theorem sync_keeps_key {Priv Pub : Type} (lib : EcLibrary Priv Pub)
    (hpem : ∀ key, lib.loadPemPrivateKey (lib.privateBytes key) = some (.secp256r1 key)) (codecs : Codecs) (clock : Clock)
    (urandom : Nat → Fin 4 → UInt8) (config : SyncConfig Priv) (files : Files) (acts : List SyncAct)
    (s : Sync Priv) (hrun : Transition.run (Sync.step lib codecs clock urandom config) { files } acts = some s) :
    ∀ pub ∈ s.sent, ∃ info keyset, .info (some info) ∈ acts ∧ keyset.serverPubBytes = pub ∧
      s.files config.base.keyPath = some (lib.privateBytes keyset.serverPriv) ∧
      keysetFromExisting lib (lib.privateBytes keyset.serverPriv) info.audioEncryptionPubKey = .ok keyset := by
  have hholds := Sync.holds_run hrun
  have hsaved : ∀ pub ∈ s.sent, ∃ info keyset, Sync.Saved lib config (fun info => .info (some info) ∈ acts) s.files info keyset ∧
      keyset.serverPubBytes = pub := by
    rw [Sync.Holds] at hholds
    intro pub hpub
    split at hholds
    · simp [hholds] at hpub
    · simp [hholds.1] at hpub
    · simp [hholds.1] at hpub
    · exact hholds.2.sent pub hpub
    · exact hholds.1.sent pub hpub
    · exact hholds pub hpub
    · obtain ⟨before, info, keyset, rawMessages, idBytes, client, fault, hkeys, -, -, rfl, hfiles⟩ := hholds
      obtain ⟨info, keyset, hsaved, hsame⟩ := hkeys.sent pub hpub
      refine ⟨info, keyset, hsaved.frame ?_, hsame⟩
      rw [hfiles, Sync.syncDecode_kept (by simp)]
  intro pub hpub
  obtain ⟨info, keyset, hkept, hsame⟩ := hsaved pub hpub
  exact ⟨info, keyset, hkept.answered, hsame, hkept.file, hkept.restored hpem⟩

/-- `--push-key`, with the server's key. -/
def keySync : SyncConfig Party where
  address := []
  base := oggBase
  pushKey := true
  generated := .server

/-- What the pendant answers. -/
def pendantInfo : PendantInfo where
  di := sampleSync.di
  audioEncryptionPubKey := Party.library.publicBytes (Party.library.publicKey .pendant)

/-- A whole run with a new key, up to its decode step. -/
def keySyncRun : List SyncAct :=
  [.info (some pendantInfo), .save none, .send true true] ++ sealedCapture.map .capture ++
    [.capture (.finish none), .decode (fun _ => .raised) none]

/-- The key is saved; the pendant takes it, but its reply is lost. -/
theorem sync_keeps_key_sample : ∃ s keyset,
    Transition.run (Sync.step Party.library Party.codecs Utc.clock (fun _ _ => 7) keySync) { files := fun _ => none }
      [.info (some pendantInfo), .save none, .send true false] = some s ∧
    s.sent = [keyset.serverPubBytes] ∧ s.files "sync.opus.key.pem" = some (Party.library.privateBytes keyset.serverPriv) ∧
    keysetFromExisting Party.library (Party.library.privateBytes keyset.serverPriv) pendantInfo.audioEncryptionPubKey = .ok keyset := by
  have hrun : (Transition.run (Sync.step Party.library Party.codecs Utc.clock (fun _ _ => 7) keySync) { files := fun _ => none }
      [.info (some pendantInfo), .save none, .send true false]).map (fun s => s.sent) =
        some [Party.keyset.serverPubBytes] := by decide +kernel
  obtain ⟨s, hs, hsent⟩ := Option.map_eq_some_iff.mp hrun
  obtain ⟨info, keyset, hinfo, hsame, hfile, hrestored⟩ := sync_keeps_key Party.library Party.library_lawful.pem Party.codecs Utc.clock
    (fun _ _ => 7) keySync _ _ s hs Party.keyset.serverPubBytes (by simp [hsent])
  have hanswered : info = pendantInfo := by simpa using hinfo
  have hpath : keySync.base.keyPath = "sync.opus.key.pem" := by decide +kernel
  rw [hpath] at hfile
  rw [hanswered] at hrestored
  exact ⟨s, keyset, hs, by rw [hsent, hsame], hfile, hrestored⟩

/-- What a sync with a new key has captured can be decoded again from the files it leaves: with the saved key and the device's
    own key, `decode` ends as the sync, writes the same sidecars but for the device and the time, and leaves the same audio. -/
theorem sync_decodes_again {Priv Pub : Type} (lib : EcLibrary Priv Pub)
    (hpem : ∀ key, lib.loadPemPrivateKey (lib.privateBytes key) = some (.secp256r1 key)) (codecs : Codecs) (clock clock' : Clock)
    (hzone : clock'.isoformat = clock.isoformat) (urandom urandom' : Nat → Fin 4 → UInt8) (config : SyncConfig Priv)
    (hpush : config.keyPath = none ∧ config.pushKey = true) (hdecodes : config.opts.noDecode = false)
    (files : Files) (acts : List SyncAct) (s : Sync Priv)
    (hrun : Transition.run (Sync.step lib codecs clock urandom config) { files } acts = some s) (run : CommandRun)
    (hended : s.phase = .ended (some run)) (later : Files) (hbin : later config.base.binPath = s.files config.base.binPath)
    (hkey : later config.base.keyPath = s.files config.base.keyPath) (pubPath : Path) :
    ∃ info, .info (some info) ∈ acts ∧ (later pubPath = some info.audioEncryptionPubKey →
      let decoded := decode lib codecs clock' urandom' later config.base.binPath config.base
        { keyPath := some config.base.keyPath, pendantPubkeyPath := some pubPath, includeLogs := config.opts.includeLogs }
      decoded.ending = run.ending ∧
        (∃ iso, clock'.isoformat clock'.nowMs = .ok iso ∧
          decoded.sidecars = run.sidecars.map fun sidecar => (sidecar.1, sidecar.2.redone offlineDeviceInfo clock' iso)) ∧
        (config.base.isOgg = true → run.ending = .exit 0 → ∃ m m' log packets, run.sidecarsOf = some (m, log) ∧
          decoded.sidecarsOf = some (m', log) ∧ m.audio config.base run.files = some packets ∧
          m'.audio config.base decoded.files = some packets)) := by
  have hholds := Sync.holds_run hrun
  rw [Sync.Holds, hended] at hholds
  obtain ⟨before, info, keyset, rawMessages, idBytes, client, fault, hkeys, haddress, hwritten, hdecode, hfiles⟩ := hholds
  rw [Sync.Keys, if_pos hpush] at hkeys
  obtain ⟨generated, rfl, hsaved, -⟩ := hkeys
  rw [hfiles, hdecode, Sync.syncDecode_kept (by simp), hwritten] at hbin
  rw [hfiles, hdecode, Sync.syncDecode_kept (by simp), hsaved.file] at hkey
  refine ⟨info, hsaved.answered, ?_⟩
  intro hpub decoded
  have hload : DecodeOptions.load later
      { keyPath := some config.base.keyPath, pendantPubkeyPath := some pubPath, includeLogs := config.opts.includeLogs } =
        some (some (lib.privateBytes generated.serverPriv), some info.audioEncryptionPubKey) := by
    simp [DecodeOptions.load, hkey, hpub]
  have hkeyset : decodeKeys lib (some (lib.privateBytes generated.serverPriv)) (some info.audioEncryptionPubKey) =
      .ok (some generated) := by
    rw [decodeKeys, hsaved.restored hpem]
    rfl
  obtain ⟨hending, hsidecars, -⟩ := decode_redoes hzone urandom urandom' client before config.base haddress info.di hdecodes fault hbin
    rfl hload hkeyset rfl
  have hdecoded : decoded = _ := decode_encodeBatch codecs clock' urandom' config.base haddress hbin hload hkeyset
  rw [hdecode]
  refine ⟨hending, hsidecars, fun hogg hexit => ?_⟩
  have hexit' : decoded.ending = .exit 0 := hending.trans hexit
  rw [hdecoded] at hexit' ⊢
  rw [syncDecode, hdecodes, if_neg Bool.false_ne_true] at hexit ⊢
  obtain ⟨m, hlisted, haudio⟩ := run_packets hogg _ hexit
  obtain ⟨m', hlisted', haudio'⟩ := run_packets hogg [] hexit'
  exact ⟨m, m', _, _, hlisted, hlisted', haudio, haudio'⟩

/-- How a sync has ended, and what it has logged and heard. -/
def Sync.heard {Priv : Type} (base : AudioBase) (s : Sync Priv) : Option (CommandEnd × List Event × Option (List Bytes)) :=
  match s.phase with
  | .ended (some run) => run.sidecarsOf.map fun (m, log) => (run.ending, log, m.audio base run.files)
  | _ => none

theorem Sync.ended_of_heard {Priv : Type} {base : AudioBase} {s : Sync Priv} {ending : CommandEnd} {log : List Event}
    {packets : Option (List Bytes)} (h : s.heard base = some (ending, log, packets)) : ∃ run m,
      s.phase = .ended (some run) ∧ run.ending = ending ∧ run.sidecarsOf = some (m, log) ∧ m.audio base run.files = packets := by
  rw [Sync.heard] at h
  split at h
  · rename_i run hphase
    obtain ⟨⟨m, log'⟩, hlisted, hsame⟩ := Option.map_eq_some_iff.mp h
    cases hsame
    exact ⟨run, m, hphase, rfl, hlisted, rfl⟩
  · cases h

/-- A sealed page, decoded a day later from the files of the run and the device's key. -/
theorem sync_decodes_again_sample : ∃ s run m,
    Transition.run (Sync.step Party.library Party.codecs Utc.clock (fun _ _ => 7) keySync) { files := fun _ => none } keySyncRun = some s ∧
    s.phase = .ended (some run) ∧ run.ending = .exit 0 ∧
    let later := Function.update s.files "pendant.pub" (some pendantInfo.audioEncryptionPubKey)
    let decoded := decode Party.library Party.codecs Utc.dayAfter (fun _ _ => 9) later "sync.bin" oggBase keyOptions
    decoded.ending = .exit 0 ∧ decoded.sidecarsOf = some (m, []) ∧ m.audio oggBase decoded.files = some [[0xB8]] := by
  have hrun : (Transition.run (Sync.step Party.library Party.codecs Utc.clock (fun _ _ => 7) keySync) { files := fun _ => none }
      keySyncRun).bind (Sync.heard oggBase) = some (.exit 0, [], some [[0xB8]]) := by decide +kernel
  obtain ⟨s, hs, hheard⟩ := Option.bind_eq_some_iff.mp hrun
  obtain ⟨run, m, hended, hexit, hlisted, haudio⟩ := Sync.ended_of_heard hheard
  let later := Function.update s.files "pendant.pub" (some pendantInfo.audioEncryptionPubKey)
  have hbinPath : keySync.base.binPath = "sync.bin" := by decide +kernel
  have hkeyPath : keySync.base.keyPath = "sync.opus.key.pem" := by decide +kernel
  obtain ⟨info, hinfo, hagain⟩ := sync_decodes_again Party.library Party.library_lawful.pem Party.codecs Utc.clock Utc.dayAfter rfl
    (fun _ _ => 7) (fun _ _ => 9) keySync ⟨rfl, rfl⟩ rfl _ _ s hs run hended later
    (by simp [later, hbinPath]) (by simp [later, hkeyPath]) "pendant.pub"
  have hanswered : info = pendantInfo := by simpa [keySyncRun, sealedCapture] using hinfo
  rw [hanswered] at hagain
  obtain ⟨hending, -, hpackets⟩ := hagain (by simp [later])
  obtain ⟨m₀, m', log, packets, hlisted₀, hlisted', haudio₀, haudio'⟩ := hpackets (by decide +kernel) hexit
  rw [hlisted] at hlisted₀
  cases hlisted₀
  have hheard₀ : some packets = some [[0xB8]] := haudio₀.symm.trans haudio
  rw [hheard₀] at haudio'
  rw [hbinPath, hkeyPath] at hending hlisted' haudio'
  exact ⟨s, run, m', hs, hended, hexit, hending.trans hexit, hlisted', haudio'⟩

end PendantClient
