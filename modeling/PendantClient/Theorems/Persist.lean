import PendantClient.Capture
import PendantClient.Theorems.Batch
import PendantClient.Theorems.PageLoss

/-! Acknowledged pages and the capture file: what a failing writer leaves on disk, and whether it still holds
    every message that was acknowledged. -/

namespace PendantClient

/-! ### A writer with a failing call -/

theorem execute_fault {path : Path} {f : IoFault} {before after : List IoCall} {call : IoCall} {s : Bytes × Files}
    (h : before.length = f.call) :
    execute path (some f) (before ++ call :: after) 0 s =
      (call.fail path f.kept (before.foldl (IoCall.perform path) s), true) := by
  rw [execute_append before _ fun g hg => by cases hg; omega, execute, if_pos (by omega)]

theorem execute_late {path : Path} {f : IoFault} {calls : List IoCall} {s : Bytes × Files} (h : calls.length ≤ f.call) :
    execute path (some f) calls 0 s = execute path none calls 0 s := by
  have hlate : execute path (some f) (calls ++ []) 0 s = _ := execute_append calls [] fun g hg => by cases hg; omega
  have hnone : execute path none (calls ++ []) 0 s = _ := execute_append calls [] (by simp)
  rw [List.append_nil] at hlate hnone
  rw [hlate, hnone]
  rfl

theorem perform_written {path : Path} {calls : List IoCall} (h : .openTmp ∉ calls) : ∀ {s : Bytes × Files},
    (calls.foldl (IoCall.perform path) s).1 = s.1 ++ calls.flatMap IoCall.bytes := by
  induction calls with
  | nil =>
    intro s
    rw [List.flatMap_nil, List.append_nil]
    rfl
  | cons call calls ih =>
    intro s
    rw [List.foldl_cons, ih fun hc => h (List.mem_cons_of_mem _ hc), List.flatMap_cons, ← List.append_assoc]
    congr 1
    cases call with
    | openTmp => exact absurd (List.mem_cons_self ..) h
    | write bytes => rfl
    | flush => exact (List.append_nil _).symm
    | close => exact (List.append_nil _).symm
    | replace => exact (List.append_nil _).symm

/-- The bytes of a capture file: the identifier is left out when it is empty or cannot be encoded. -/
def captureBytes (messages : List Bytes) (bleIdentifier : PyStr) : Bytes :=
  encodeBatch messages (bleIdentifier.encode.toOption.getD [])

theorem OnlyWrites.openTmp {writes : List IoCall} (h : OnlyWrites writes) : IoCall.openTmp ∉ writes := by
  intro hc
  obtain ⟨bytes, hb⟩ := h _ hc
  cases hb

/-- The calls for a list of messages: the file is opened, written, and closed; unless the identifier cannot be
    encoded it also replaces its target. -/
theorem batchCalls_spec (messages : List Bytes) (bleIdentifier : PyStr) :
    ∃ writes tail, (batchCalls { items := messages } bleIdentifier).1 = .openTmp :: (writes ++ tail) ∧ OnlyWrites writes ∧
      writes.flatMap IoCall.bytes = captureBytes messages bleIdentifier ∧
      (tail = [.flush, .close, .replace] ∨ tail = [.close]) := by
  obtain ⟨writes, honly, ⟨e, hraises | herror, hbytes, hcalls⟩ | ⟨idBytes, -, hid, hbytes, hcalls⟩⟩ :=
    batchCalls_cases { items := messages } bleIdentifier
  · cases hraises
  · refine ⟨writes, _, by rw [hcalls, List.append_assoc]; rfl, honly, ?_, .inr rfl⟩
    rw [hbytes, captureBytes, herror, encodeBatch, show (Except.error e : Except PyError Bytes).toOption.getD [] = [] from rfl,
      encodeIdentifier, if_pos rfl, List.append_nil]
  · refine ⟨writes, _, by rw [hcalls, List.append_assoc]; rfl, honly, ?_, .inl rfl⟩
    rw [hbytes, captureBytes, hid]
    rfl

section
variable {messages : List Bytes} {bleIdentifier : PyStr} {files : Files} {path : Path} {f : IoFault}

theorem writeBatchIngestRequest_files (fault : Option IoFault) :
    (writeBatchIngestRequest files { items := messages } bleIdentifier path fault).1 =
      (execute path fault (batchCalls { items := messages } bleIdentifier).1 0 ([], files)).1 := rfl

theorem batchCalls_bytes (messages : List Bytes) (bleIdentifier : PyStr) :
    (batchCalls { items := messages } bleIdentifier).1.flatMap IoCall.bytes = captureBytes messages bleIdentifier := by
  obtain ⟨writes, tail, hcalls, -, hbytes, htail⟩ := batchCalls_spec messages bleIdentifier
  rw [hcalls, List.flatMap_cons, List.flatMap_append, hbytes]
  rcases htail with rfl | rfl <;> simp [IoCall.bytes]

theorem perform_openTmp {writes : List IoCall} (h : OnlyWrites writes) :
    (IoCall.openTmp :: writes).foldl (IoCall.perform path) ([], files) =
      (writes.flatMap IoCall.bytes, Function.update files (tmpPath path) (some [])) := by
  rw [List.foldl_cons]
  exact (perform_writes h).trans (by rw [List.nil_append])

/-- With no failing call the whole capture is on disk, under its own name or the temporary one. -/
theorem write_ok (messages : List Bytes) (bleIdentifier : PyStr) (files : Files) (path : Path) :
    ∃ p, (writeBatchIngestRequest files { items := messages } bleIdentifier path none).1 p =
    some (captureBytes messages bleIdentifier) := by
  obtain ⟨writes, tail, hcalls, honly, hbytes, htail⟩ := batchCalls_spec messages bleIdentifier
  rw [writeBatchIngestRequest_files, hcalls, ← List.cons_append, execute_append _ _ (by simp), perform_openTmp honly, hbytes]
  rcases htail with rfl | rfl
  · refine ⟨path, ?_⟩
    simp only [execute, IoCall.perform, Function.update_self, Function.update_of_ne (tmpPath_ne path)]
  · refine ⟨tmpPath path, ?_⟩
    simp only [execute, IoCall.perform, Function.update_self]

theorem split_of_getElem? {α : Type} {xs : List α} {k : Nat} {x : α} (h : xs[k]? = some x) :
    ∃ before after, xs = before ++ x :: after ∧ before.length = k := by
  obtain ⟨hk, hx⟩ := List.getElem?_eq_some_iff.mp h
  refine ⟨xs.take k, xs.drop (k + 1), ?_, List.length_take_of_le (Nat.le_of_lt hk)⟩
  rw [← hx, List.getElem_cons_drop, List.take_append_drop]

theorem write_replace_fails (h : (batchCalls { items := messages } bleIdentifier).1[f.call]? = some .replace) :
    (writeBatchIngestRequest files { items := messages } bleIdentifier path (some f)).1 (tmpPath path) =
      some (captureBytes messages bleIdentifier) := by
  obtain ⟨before, after, hsplit, hlen⟩ := split_of_getElem? h
  rw [writeBatchIngestRequest_files, hsplit, execute_fault hlen]
  obtain ⟨writes, tail, hcalls, honly, hbytes, htail⟩ := batchCalls_spec messages bleIdentifier
  have hnot : ∀ call ∈ IoCall.openTmp :: writes, call ≠ .replace := by
    intro call hcall
    rcases List.mem_cons.mp hcall with rfl | hcall
    · exact nofun
    · obtain ⟨bytes, rfl⟩ := honly call hcall
      exact nofun
  rw [hcalls, ← List.cons_append] at hsplit
  -- the replace is the last of the calls
  have hbefore : before = (IoCall.openTmp :: writes) ++ [.flush, .close] := by
    rcases htail with rfl | rfl
    · rcases List.eq_nil_or_concat after with rfl | ⟨after, last, rfl⟩
      · have hends : ((IoCall.openTmp :: writes) ++ [.flush, .close]) ++ [.replace] = before ++ [.replace] := by
          rw [List.append_assoc]
          exact hsplit
        exact (List.append_inj' hends rfl).1.symm
      · rw [List.concat_eq_append, ← List.cons_append, ← List.append_assoc,
          show [IoCall.flush, .close, .replace] = [.flush, .close] ++ [.replace] from rfl, ← List.append_assoc] at hsplit
        have hmem : IoCall.replace ∈ (IoCall.openTmp :: writes) ++ [.flush, .close] := by
          rw [(List.append_inj' hsplit rfl).1]
          exact List.mem_append_right _ (List.mem_cons_self ..)
        rcases List.mem_append.mp hmem with hm | hm
        · exact absurd rfl (hnot _ hm)
        · simp at hm
    · have hmem : IoCall.replace ∈ (IoCall.openTmp :: writes) ++ [.close] := by
        rw [hsplit]
        exact List.mem_append_right _ (List.mem_cons_self ..)
      rcases List.mem_append.mp hmem with hm | hm
      · exact absurd rfl (hnot _ hm)
      · simp at hm
  rw [hbefore, List.foldl_append, perform_openTmp honly, hbytes]
  simp only [IoCall.fail, List.foldl_cons, List.foldl_nil, IoCall.perform, Function.update_self]

theorem write_open_fails (files : Files) (path : Path) (h : f.call = 0) :
    (writeBatchIngestRequest files { items := messages } bleIdentifier path (some f)).1 = files := by
  obtain ⟨writes, tail, hcalls, -⟩ := batchCalls_spec messages bleIdentifier
  rw [writeBatchIngestRequest_files, hcalls, execute, if_pos h]
  rfl

/-- How many bytes of the file are on disk when the call fails. -/
def bytesOnDisk (messages : List Bytes) (bleIdentifier : PyStr) (f : IoFault) : Nat :=
  min f.kept (((batchCalls { items := messages } bleIdentifier).1.take (f.call + 1)).flatMap IoCall.bytes).length

/-- A failing write, flush or close leaves the first bytes of the capture in the temporary file. -/
theorem write_fails (files : Files) (path : Path) {call : IoCall}
    (h : (batchCalls { items := messages } bleIdentifier).1[f.call]? = some call)
    (hopen : call ≠ .openTmp) (hreplace : call ≠ .replace) :
    (writeBatchIngestRequest files { items := messages } bleIdentifier path (some f)).1 (tmpPath path) =
      some ((captureBytes messages bleIdentifier).take (bytesOnDisk messages bleIdentifier f)) := by
  obtain ⟨before, after, hsplit, hlen⟩ := split_of_getElem? h
  obtain ⟨writes, tail, hcalls, honly, hbytes, htail⟩ := batchCalls_spec messages bleIdentifier
  have hnotOpen : IoCall.openTmp ∉ writes ++ tail := by
    rintro hm
    rcases List.mem_append.mp hm with hm | hm
    · exact honly.openTmp hm
    · rcases htail with rfl | rfl <;> simp at hm
  -- the calls before the failing one begin with the open
  obtain ⟨mid, rfl, hmid⟩ : ∃ mid, before = .openTmp :: mid ∧ IoCall.openTmp ∉ mid := by
    rw [hcalls] at hsplit
    cases before with
    | nil => exact absurd (List.cons.inj hsplit).1.symm hopen
    | cons b mid =>
      obtain ⟨rfl, htl⟩ := List.cons.inj hsplit
      exact ⟨mid, rfl, fun hm => hnotOpen (htl ▸ List.mem_append_left _ hm)⟩
  have htake : (batchCalls { items := messages } bleIdentifier).1.take (f.call + 1) = (.openTmp :: mid) ++ [call] := by
    rw [hsplit, ← hlen, List.take_append, List.take_of_length_le (Nat.le_succ _), Nat.add_sub_cancel_left]
    rfl
  have hreached : captureBytes messages bleIdentifier =
      (mid.flatMap IoCall.bytes ++ call.bytes) ++ after.flatMap IoCall.bytes := by
    rw [← batchCalls_bytes, hsplit]
    simp [IoCall.bytes]
  have hwritten : (mid.foldl (IoCall.perform path) (IoCall.openTmp.perform path ([], files))).1 = _ := perform_written hmid
  rw [writeBatchIngestRequest_files, hsplit, execute_fault hlen, bytesOnDisk, htake, hreached, List.flatMap_append,
    List.flatMap_cons, List.flatMap_singleton, List.foldl_cons]
  show call.fail path f.kept _ (tmpPath path) = some (((mid.flatMap IoCall.bytes ++ call.bytes) ++ _).take
    (min f.kept (mid.flatMap IoCall.bytes ++ call.bytes).length))
  rw [List.take_append_of_le_length (Nat.min_le_right _ _), ← List.take_eq_take_min]
  have hw : (mid.foldl (IoCall.perform path) (IoCall.openTmp.perform path ([], files))).1 = mid.flatMap IoCall.bytes :=
    hwritten.trans (List.nil_append _)
  generalize mid.foldl (IoCall.perform path) _ = s at hw ⊢
  cases call with
  | openTmp => exact absurd rfl hopen
  | write bytes => simp only [IoCall.fail, Function.update_self, hw, IoCall.bytes]
  | flush => simp only [IoCall.fail, Function.update_self, hw, IoCall.bytes, List.append_nil]
  | close => simp only [IoCall.fail, Function.update_self, hw, IoCall.bytes, List.append_nil]
  | replace => exact absurd rfl hreplace

end

/-! ### Messages on disk -/

/-- Some file on disk is a whole `BatchIngestRequest` with the message in it. -/
def Persisted (files : Files) (b : Bytes) : Prop :=
  ∃ path messages idBytes, files path = some (encodeBatch messages idBytes) ∧ b ∈ messages

/-- A fault spares the acknowledged messages when none are acknowledged, when it strikes behind the writes, or when
    what it leaves on disk is the whole capture or ends between two messages behind the last acknowledged one. -/
def faultKeeps (messages acked : List Bytes) (bleIdentifier : PyStr) : Option IoFault → Bool
  | none => true
  | some f =>
    match (batchCalls { items := messages } bleIdentifier).1[f.call]? with
    | none | some .replace => true
    | some .openTmp => acked.isEmpty
    | some _ =>
      acked.isEmpty || bytesOnDisk messages bleIdentifier f = (captureBytes messages bleIdentifier).length ||
        (List.range (messages.length + 1)).any fun n =>
          bytesOnDisk messages bleIdentifier f = (encodeMessages (messages.take n)).length &&
            acked.all fun b => b ∈ messages.take n

section
variable {messages acked : List Bytes} {bleIdentifier : PyStr} {files : Files} {path : Path}

theorem persisted_of_take {p : Path} {data : Bytes} {n : Nat} {b : Bytes} (hfile : files p = some data)
    (hdata : data = (captureBytes messages bleIdentifier).take (encodeMessages (messages.take n)).length)
    (hb : b ∈ messages.take n) : Persisted files b := by
  refine ⟨p, messages.take n, [], ?_, hb⟩
  have hmessages : encodeMessages messages = encodeMessages (messages.take n) ++ encodeMessages (messages.drop n) := by
    rw [← encodeMessages_append, List.take_append_drop]
  rw [hfile, hdata, captureBytes, encodeBatch, hmessages, List.append_assoc, List.take_left, encodeBatch, encodeIdentifier,
    if_pos rfl, List.append_nil]

theorem persisted_of_faultKeeps {fault : Option IoFault} (h : faultKeeps messages acked bleIdentifier fault = true)
    (hall : ∀ b ∈ acked, b ∈ messages) :
    ∀ b ∈ acked, Persisted (writeBatchIngestRequest files { items := messages } bleIdentifier path fault).1 b := by
  intro b hb
  have hne : acked.isEmpty = false := by
    cases acked with
    | nil => cases hb
    | cons => rfl
  cases fault with
  | none =>
    obtain ⟨p, hp⟩ := write_ok messages bleIdentifier files path
    exact ⟨p, messages, _, hp, hall b hb⟩
  | some f =>
    simp only [faultKeeps, hne, Bool.false_or] at h
    split at h
    · rename_i hlate
      rw [writeBatchIngestRequest_files, execute_late (List.getElem?_eq_none_iff.mp hlate), ← writeBatchIngestRequest_files]
      obtain ⟨p, hp⟩ := write_ok messages bleIdentifier files path
      exact ⟨p, messages, _, hp, hall b hb⟩
    · rename_i hreplace
      exact ⟨_, messages, _, write_replace_fails hreplace, hall b hb⟩
    · cases h
    · rename_i call hreplace hopen hcall
      have hfile := write_fails files path hcall hopen hreplace
      rcases Bool.or_eq_true_iff.mp h with hwhole | hpart
      · rw [of_decide_eq_true hwhole, List.take_length] at hfile
        exact ⟨_, messages, _, hfile, hall b hb⟩
      · obtain ⟨n, -, hn⟩ := List.any_eq_true.mp hpart
        rw [Bool.and_eq_true] at hn
        rw [of_decide_eq_true hn.1] at hfile
        exact persisted_of_take hfile rfl (of_decide_eq_true (List.all_eq_true.mp hn.2 b hb))

end

/-! ### The capture phase -/

section
variable {parse : Bytes → Option PendantAllMsg} {address : PyStr} {path : Path}

theorem deliverDelete_keeps (d : Download) (index : Int) (delivered : Bool) :
    (d.deliverDelete index delivered).acked = d.acked ∧ (d.deliverDelete index delivered).yielded = d.yielded := by
  rw [Download.deliverDelete]
  split <;> exact ⟨rfl, rfl⟩

theorem onNotification_keeps (parse : Bytes → Option PendantAllMsg) (d : Download) (raw : Bytes) : (d.onNotification parse raw).acked = d.acked ∧
    (d.onNotification parse raw).yielded = d.yielded ∧ (d.onNotification parse raw).phase = d.phase := by
  unfold Download.onNotification
  dsimp only
  split <;> exact ⟨rfl, rfl, rfl⟩

/-- Only a resumed generator acknowledges, and only `take` yields. -/
theorem step_keeps {d e : Download} {a : DownloadAct} (h : d.step parse a = some e) :
    (a ≠ .resume → e.acked = d.acked) ∧ (a ≠ .take → e.yielded = d.yielded) := by
  cases Download.stepped h with
  | notify raw =>
    obtain ⟨hacked, hyielded, -⟩ := onNotification_keeps parse d raw
    exact ⟨fun _ => hacked, fun _ => hyielded⟩
  | take => exact ⟨fun _ => rfl, fun hne => absurd rfl hne⟩
  | resumePage => exact ⟨fun hne => absurd rfl hne, fun _ => rfl⟩
  | ackDone delivered =>
    obtain ⟨hacked, hyielded⟩ := deliverDelete_keeps d _ delivered
    exact ⟨fun _ => hacked, fun _ => hyielded⟩
  | abortAcking delivered =>
    obtain ⟨hacked, hyielded⟩ := deliverDelete_keeps d _ delivered
    exact ⟨fun _ => hacked, fun _ => hyielded⟩
  | _ => exact ⟨fun _ => rfl, fun _ => rfl⟩

theorem phase_step {d e : Download} {a : DownloadAct} (ha : (∃ raw, a = .notify raw) ∨ ∃ b, a = .session b)
    (h : d.step parse a = some e) : e.phase = d.phase := by
  rcases ha with ⟨raw, rfl⟩ | ⟨b, rfl⟩
  · cases h
    exact (onNotification_keeps parse d raw).2.2
  · cases Download.stepped h
    rfl

theorem acked_resume {d e : Download} (h : d.step parse .resume = some e) :
    ∃ entry, d.phase = .yielded entry ∧ ∀ x ∈ e.acked, x ∈ d.acked ∨ x = entry := by
  cases Download.stepped h with
  | resumePage hphase hpage =>
    refine ⟨_, hphase, fun x hx => ?_⟩
    rcases List.mem_append.mp hx with hx | hx
    · exact .inl hx
    · exact .inr (List.mem_singleton.mp hx)
  | resumeOther hphase hpage => exact ⟨_, hphase, fun x hx => .inl hx⟩

/-- What has been acknowledged has been collected, and once the phase has ended it is on disk. -/
structure Collected (c : Capture) : Prop where
  raw : ∀ e ∈ c.download.acked, e.1 ∈ c.rawMessages
  held : c.phase = .body true → ∀ e, c.download.phase = .yielded e → e.1 ∈ c.rawMessages
  ended : c.phase = .ended → ∀ e ∈ c.download.acked, Persisted c.files e.1

/-- The final write spares what was acknowledged. -/
def writeKeeps (address : PyStr) (c : Capture) : CaptureAct → Bool
  | .finish fault => faultKeeps c.rawMessages (c.download.acked.map (·.1)) address fault
  | _ => true

theorem Collected.download {c : Capture} {d : Download} {a : DownloadAct} (h : Collected c)
    (hallow : Capture.allows c.phase a = true) (hstep : c.download.step parse a = some d) :
    Collected { c with download := d, phase := Capture.phaseAfter c.phase a } := by
  have ha : a ≠ .resume := by
    rintro rfl
    cases hallow
  have hacked := (step_keeps hstep).1 ha
  constructor
  · show ∀ e ∈ d.acked, e.1 ∈ c.rawMessages
    rw [hacked]
    exact h.raw
  · intro hbody e he
    have hlink : (∃ raw, a = .notify raw) ∨ ∃ b, a = .session b := by
      cases a with
      | notify raw => exact .inl ⟨raw, rfl⟩
      | session b => exact .inr ⟨b, rfl⟩
      | begin ok => cases ok <;> simp_all [Capture.phaseAfter, Capture.allows]
      | take => cases hbody
      | timeout => simp_all [Capture.phaseAfter, Capture.allows]
      | resume => exact absurd rfl ha
      | ackDone delivered => simp_all [Capture.phaseAfter, Capture.allows]
      | abort delivered => simp_all [Capture.phaseAfter, Capture.allows, CapturePhase.inBody]
      | stop =>
        simp only [Capture.phaseAfter] at hbody
        split at hbody
        · cases hbody
        · simp [Capture.allows, hbody, CapturePhase.inBody] at hallow
    have hphase : Capture.phaseAfter c.phase a = c.phase := by
      rcases hlink with ⟨raw, rfl⟩ | ⟨b, rfl⟩ <;> rfl
    exact h.held (hphase ▸ hbody) e ((phase_step hlink hstep).symm.trans he)
  · intro hended
    show ∀ e ∈ d.acked, Persisted c.files e.1
    rw [hacked]
    refine h.ended ?_
    cases a with
    | begin ok => cases ok <;> simp_all [Capture.phaseAfter]
    | take => cases hended
    | stop =>
      simp only [Capture.phaseAfter] at hended
      split at hended
      · cases hended
      · exact hended
    | _ => exact hended

theorem Collected.step {c c' : Capture} {a : CaptureAct} (h : Collected c) (hkeep : writeKeeps address c a = true)
    (hstep : c.step parse address path a = some c') : Collected c' := by
  cases a with
  | download a =>
    simp only [Capture.step] at hstep
    split at hstep
    · obtain ⟨d, hd, rfl⟩ := Option.map_eq_some_iff.mp hstep
      exact h.download ‹_› hd
    · cases hstep
  | append =>
    simp only [Capture.step] at hstep
    split at hstep
    · rename_i entry hphase hentry
      cases hstep
      refine ⟨fun e he => List.mem_append_left _ (h.raw e he), fun _ e he => ?_, fun he => (by cases he)⟩
      obtain rfl := DownloadPhase.yielded.inj (hentry.symm.trans he)
      exact List.mem_concat_self
    · cases hstep
  | next =>
    simp only [Capture.step] at hstep
    split at hstep
    · rename_i hbody
      obtain ⟨d, hd, rfl⟩ := Option.map_eq_some_iff.mp hstep
      obtain ⟨entry, hentry, hacked⟩ := acked_resume hd
      refine ⟨fun e he => ?_, fun hb => (by cases hb), fun he => (by cases he)⟩
      rcases hacked e he with he | rfl
      · exact h.raw e he
      · exact h.held hbody e hentry
    · cases hstep
  | interrupt =>
    simp only [Capture.step] at hstep
    split at hstep
    · cases hstep
      exact ⟨h.raw, fun hb => (by cases hb), fun he => (by cases he)⟩
    · cases hstep
  | finish fault =>
    simp only [Capture.step] at hstep
    split at hstep
    · cases hstep
      refine ⟨h.raw, fun hb => (by cases hb), fun _ e he => ?_⟩
      refine persisted_of_faultKeeps hkeep (fun b hb => ?_) e.1 (List.mem_map_of_mem he)
      obtain ⟨e', he', rfl⟩ := List.mem_map.mp hb
      exact h.raw e' he'
    · cases hstep

/-- Before the final write the capture is in memory only. -/
theorem files_step {c c' : Capture} {a : CaptureAct} (ha : ∀ fault, a ≠ .finish fault)
    (hstep : c.step parse address path a = some c') : c'.files = c.files := by
  cases a with
  | download a =>
    simp only [Capture.step] at hstep
    split at hstep
    · obtain ⟨d, -, rfl⟩ := Option.map_eq_some_iff.mp hstep
      rfl
    · cases hstep
  | append =>
    simp only [Capture.step] at hstep
    split at hstep <;> cases hstep
    rfl
  | next =>
    simp only [Capture.step] at hstep
    split at hstep
    · obtain ⟨d, -, rfl⟩ := Option.map_eq_some_iff.mp hstep
      rfl
    · cases hstep
  | interrupt =>
    simp only [Capture.step] at hstep
    split at hstep <;> cases hstep
    rfl
  | finish fault => exact absurd rfl (ha fault)

theorem files_run (acts : List CaptureAct) : ∀ {c c' : Capture}, (∀ fault, .finish fault ∉ acts) →
    Transition.run (Capture.step parse address path) c acts = some c' → c'.files = c.files := by
  induction acts with
  | nil =>
    intro c c' _ hrun
    cases hrun
    rfl
  | cons a acts ih =>
    intro c c' hnot hrun
    obtain ⟨d, hd, hrest⟩ := Transition.run_cons.mp hrun
    rw [ih (fun fault hmem => hnot fault (List.mem_cons_of_mem _ hmem)) hrest]
    exact files_step (fun fault ha => hnot fault (ha ▸ List.mem_cons_self ..)) hd

end

/-- When the final write spares them, all messages acknowledged during a capture are on disk once it has ended. -/
theorem acknowledged_messages_persist (parse : Bytes → Option PendantAllMsg) (address : PyStr) (path : Path)
    (files : Files) (acts : List CaptureAct) (c : Capture)
    (hrun : Transition.run (Capture.step parse address path) { files } acts = some c)
    (hkeep : Transition.Meets (Capture.step parse address path) (fun c a => writeKeeps address c a = true) { files } acts) :
    c.phase = .ended → ∀ e ∈ c.download.acked, Persisted c.files e.1 :=
  (Transition.run_invariant_of_meets (P := Collected) (fun _ _ _ h hc hs => h.step hc hs) hkeep hrun
    ⟨fun _ he => (by cases he), fun hb => (by cases hb), fun he => (by cases he)⟩).ended

/-- A capture of one page, up to its final write. -/
def onePageCapture : List CaptureAct :=
  [.download (.begin true), .download (.notify (encodeFragment 1 0 1 (pageMessage 1))), .download .take, .append, .next,
    .download (.ackDone true), .download .timeout, .download .stop]

/-- The page is acknowledged, the file is written, and the page is in it. -/
theorem acknowledged_messages_persist_sample :
    ∃ c, Transition.run (Capture.step parsePageMessage [] "capture.bin") { files := fun _ => none }
        (onePageCapture ++ [.finish none]) = some c ∧
      c.download.acked.map (·.1) = [pageMessage 1] ∧ ∀ e ∈ c.download.acked, Persisted c.files e.1 := by
  have hrun : (Transition.run (Capture.step parsePageMessage [] "capture.bin") { files := fun _ => none }
      (onePageCapture ++ [.finish none])).map (fun c => (c.phase, c.download.acked.map (·.1))) =
        some (.ended, [pageMessage 1]) := by
    decide +kernel
  obtain ⟨c, hc, hview⟩ := Option.map_eq_some_iff.mp hrun
  obtain ⟨hended, hacked⟩ := Prod.mk.inj hview
  exact ⟨c, hc, hacked, acknowledged_messages_persist parsePageMessage [] "capture.bin" (fun _ => none) _ c hc
    (by decide +kernel) hended⟩

/-- The page has been acknowledged, then the capture file cannot be opened. -/
theorem failing_open_loses_acknowledged_page :
    ∃ c, Transition.run (Capture.step parsePageMessage [] "capture.bin") { files := fun _ => none }
        (onePageCapture ++ [.finish (some ⟨0, 0⟩)]) = some c ∧
      c.phase = .ended ∧ c.download.deletes = [1] ∧ ∃ e ∈ c.download.acked, ¬ Persisted c.files e.1 := by
  have hrun : (Transition.run (Capture.step parsePageMessage [] "capture.bin") { files := fun _ => none } onePageCapture).map
      (fun c => (c.phase, c.download.deletes, c.download.acked.map (·.1))) = some (.finishing, [1], [pageMessage 1]) := by
    decide +kernel
  obtain ⟨c, hc, hview⟩ := Option.map_eq_some_iff.mp hrun
  obtain ⟨hphase, hview⟩ := Prod.mk.inj hview
  obtain ⟨hdeletes, hacked⟩ := Prod.mk.inj hview
  obtain ⟨e, he, -⟩ := List.mem_map.mp (hacked ▸ List.mem_singleton.mpr rfl : pageMessage 1 ∈ c.download.acked.map (·.1))
  have hfiles : c.files = fun _ => none := files_run onePageCapture (by simp [onePageCapture]) hc
  have hlast : c.step parsePageMessage [] "capture.bin" (.finish (some ⟨0, 0⟩)) = some { c with
      files := (writeBatchIngestRequest c.files { items := c.rawMessages } [] "capture.bin" (some ⟨0, 0⟩)).1
      phase := .ended } := by
    simp only [Capture.step, hphase]
  refine ⟨_, Transition.run_snoc hc hlast, rfl, hdeletes, e, he, ?_⟩
  rintro ⟨p, messages, idBytes, hfile, -⟩
  dsimp only at hfile
  rw [write_open_fails _ _ rfl, hfiles] at hfile
  cases hfile

end PendantClient
