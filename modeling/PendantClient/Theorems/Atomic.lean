import PendantClient.Theorems.Batch

/-! The capture file is replaced in one piece. Up to the last call the writer touches only the temporary file, and the
    last call is the replace, so a failure at any call leaves every other file as it was. -/

namespace PendantClient

/-! ### Calls and files -/

section
variable {path p : Path} {fault : Option IoFault} {call : IoCall} {calls : List IoCall} {n : Nat} {s : Bytes × Files}

theorem perform_frame (h : call ≠ .replace) (hp : p ≠ tmpPath path) : (call.perform path s).2 p = s.2 p := by
  cases call with
  | openTmp => exact Function.update_of_ne hp _ _
  | write bytes => rfl
  | flush => rfl
  | close => exact Function.update_of_ne hp _ _
  | replace => exact absurd rfl h

theorem fail_frame (kept : Nat) (hp : p ≠ tmpPath path) : call.fail path kept s p = s.2 p := by
  cases call with
  | openTmp => rfl
  | write bytes => exact Function.update_of_ne hp _ _
  | flush => exact Function.update_of_ne hp _ _
  | close => exact Function.update_of_ne hp _ _
  | replace => rfl

theorem execute_cons (path : Path) (fault : Option IoFault) (call : IoCall) (calls : List IoCall) (n : Nat) (s : Bytes × Files) :
    (∃ kept, execute path fault (call :: calls) n s = (call.fail path kept s, true)) ∨
    execute path fault (call :: calls) n s = execute path fault calls (n + 1) (call.perform path s) := by
  cases fault with
  | none => exact .inr rfl
  | some f =>
    rw [execute]
    split
    · exact .inl ⟨f.kept, rfl⟩
    · exact .inr rfl

/-- Without the replace only the temporary file changes. -/
theorem execute_frame (h : .replace ∉ calls) (hp : p ≠ tmpPath path) : (execute path fault calls n s).1 p = s.2 p := by
  induction calls generalizing n s with
  | nil => rfl
  | cons call calls ih =>
    rcases execute_cons path fault call calls n s with ⟨kept, hfails⟩ | hnext
    · rw [hfails]
      exact fail_frame kept hp
    · rw [hnext, ih fun hc => h (List.mem_cons_of_mem call hc)]
      exact perform_frame (fun hc => h (hc ▸ List.mem_cons_self)) hp

/-- With the replace at the end, a run that raises has not replaced anything. -/
theorem execute_raised (h : .replace ∉ calls) (hraised : (execute path fault (calls ++ [.replace]) n s).2 = true)
    (hp : p ≠ tmpPath path) : (execute path fault (calls ++ [.replace]) n s).1 p = s.2 p := by
  induction calls generalizing n s with
  | nil =>
    rw [List.nil_append] at hraised ⊢
    rcases execute_cons path fault .replace [] n s with ⟨kept, hfails⟩ | hnext
    · rw [hfails]
      rfl
    · rw [hnext] at hraised
      cases hraised
  | cons call calls ih =>
    rw [List.cons_append] at hraised ⊢
    rcases execute_cons path fault call (calls ++ [.replace]) n s with ⟨kept, hfails⟩ | hnext
    · rw [hfails]
      exact fail_frame kept hp
    · rw [hnext] at hraised ⊢
      rw [ih (fun hc => h (List.mem_cons_of_mem call hc)) hraised]
      exact perform_frame (fun hc => h (hc ▸ List.mem_cons_self)) hp

/-- A run that does not raise is the run without a fault. -/
theorem execute_unraised (h : (execute path fault calls n s).2 = false) :
    execute path fault calls n s = execute path none calls n s := by
  induction calls generalizing n s with
  | nil => rfl
  | cons call calls ih =>
    rcases execute_cons path fault call calls n s with ⟨kept, hfails⟩ | hnext
    · rw [hfails] at h
      cases h
    · rw [hnext] at h ⊢
      exact ih h

end

/-! ### The writer -/

/-- When the writer raises, at whatever call, no file but the temporary one has changed. When it returns, the destination
    holds the whole encoding, and no file but these two has changed. It returns when no call fails, the messages end and the
    identifier can be encoded. -/
theorem capture_is_replaced_whole (files : Files) (messages : MessageSource) (bleIdentifier : PyStr) (path : Path)
    (fault : Option IoFault) :
    let r := writeBatchIngestRequest files messages bleIdentifier path fault
    (∀ e, r.2 = .error e → ∀ p, p ≠ tmpPath path → r.1 p = files p) ∧
    (∀ n, r.2 = .ok n → ∃ idBytes, messages.raises = none ∧ bleIdentifier.encode = .ok idBytes ∧
      r.1 path = some (encodeBatch messages.items idBytes) ∧ n = (encodeBatch messages.items idBytes).length ∧
      ∀ p, p ≠ path → p ≠ tmpPath path → r.1 p = files p) ∧
    (fault = none → messages.raises = none → (∃ idBytes, bleIdentifier.encode = .ok idBytes) → ∃ n, r.2 = .ok n) := by
  obtain ⟨writes, honly, hcases⟩ := batchCalls_cases messages bleIdentifier
  have hnot : ∀ {tail : List IoCall}, .replace ∉ tail → .replace ∉ [.openTmp] ++ writes ++ tail := by
    intro tail htail hmem
    rcases List.mem_append.mp hmem with hmem | hmem
    · rcases List.mem_append.mp hmem with hmem | hmem
      · simp at hmem
      · obtain ⟨bytes, hbytes⟩ := honly _ hmem
        cases hbytes
    · exact htail hmem
  unfold writeBatchIngestRequest
  dsimp only
  rcases hcases with ⟨e, hbroken, -, hcalls⟩ | ⟨idBytes, hends, hid, hbytes, hcalls⟩
  · rw [hcalls]
    refine ⟨fun _ _ p hp => execute_frame (hnot (by simp)) hp, fun n hn => ?_, fun _ hends ⟨idBytes, hid⟩ => ?_⟩
    · dsimp only at hn
      split at hn <;> cases hn
    · rcases hbroken with hraises | herror
      · rw [hends] at hraises
        cases hraises
      · rw [hid] at herror
        cases herror
  · rw [hcalls]
    dsimp only
    cases hraised : (execute path fault ([.openTmp] ++ writes ++ [.flush, .close, .replace]) 0 ([], files)).2 with
    | true =>
      refine ⟨fun _ _ p hp => ?_, fun n hn => (by cases hn), fun hfault _ _ => ?_⟩
      · have hsplit : [.openTmp] ++ writes ++ [.flush, .close, .replace] =
            ([.openTmp] ++ writes ++ [.flush, .close]) ++ [.replace] := by
          rw [List.append_assoc _ [IoCall.flush, .close]]
          rfl
        rw [hsplit] at hraised ⊢
        exact execute_raised (hnot (by simp)) hraised hp
      · rw [hfault, execute_all honly] at hraised
        cases hraised
    | false =>
      refine ⟨fun e he => (by cases he), fun n hn => ?_, fun _ _ _ => ⟨_, rfl⟩⟩
      cases hn
      rw [execute_unraised hraised, execute_all honly, hbytes]
      exact ⟨idBytes, hends, hid, writtenFiles_path _ _ _, rfl, fun p hpath htmp => writtenFiles_other hpath htmp⟩

end PendantClient
