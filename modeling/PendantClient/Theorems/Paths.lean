import PendantClient.Commands
import PendantClient.Theorems.Recording

/-! The files of a run by their names: the capture, its temporary file, the saved key, the sidecars and the recordings. -/

namespace PendantClient

namespace AudioBase
variable {base : AudioBase}

/-- The files beside the recordings. -/
def artifacts (base : AudioBase) : List Path :=
  [base.keyPath, base.binPath, tmpPath base.binPath] ++ base.sidecarPaths

theorem binPath_eq : base.binPath = base.parent ++ base.stem ++ ".bin" := by
  rw [binPath]
  split
  · rfl
  · rename_i h
    rw [name, not_not.mp h, String.append_empty]

/-- Their names have the same stem and end differently. -/
theorem artifacts_nodup : base.artifacts.Nodup := by
  rw [artifacts, sidecarPaths, binPath_eq, tmpPath, keyPath, sidecarPath, sidecarPath]
  simp only [List.cons_append, List.nil_append, List.nodup_cons, List.mem_cons, List.not_mem_nil, or_false, not_or, String.append_assoc, String.append_right_inj,
    List.nodup_nil, and_true, not_false_eq_true]
  refine ⟨⟨?_, ?_, ?_, ?_⟩, ⟨?_, ?_, ?_⟩, ⟨?_, ?_⟩, ?_⟩ <;>
  · intro h
    have := congrArg (fun s => s.toList.reverse) h
    simp at this

theorem exists_tail {path : Path} (h : path ∈ base.artifacts) :
    ∃ rest, path = base.parent ++ base.stem ++ ("." ++ rest) := by
  have hdotted (extension : String) : ∃ rest, base.suffix ++ ("." ++ extension) = "." ++ rest := by
    rcases base.suffix_cases with hnone | ⟨rest, hrest⟩
    · exact ⟨extension, by rw [hnone, String.empty_append]⟩
    · exact ⟨rest ++ ("." ++ extension), by rw [hrest, String.append_assoc]⟩
  rw [artifacts, sidecarPaths, binPath_eq, tmpPath, keyPath, sidecarPath, sidecarPath] at h
  simp only [List.cons_append, List.nil_append, List.mem_cons, List.not_mem_nil, or_false] at h
  rcases h with rfl | rfl | rfl | rfl | rfl
  · obtain ⟨rest, hrest⟩ := hdotted "key.pem"
    exact ⟨rest, congrArg _ hrest⟩
  · exact ⟨"bin", rfl⟩
  · exact ⟨"bin.tmp", by simp [String.append_assoc]⟩
  · obtain ⟨rest, hrest⟩ := hdotted "manifest.json"
    exact ⟨rest, by rw [← hrest, ← String.append_assoc]; rfl⟩
  · obtain ⟨rest, hrest⟩ := hdotted "events.json"
    exact ⟨rest, by rw [← hrest, ← String.append_assoc]; rfl⟩

/-- No recording is written to one of them: its name goes on behind the stem without a dot. -/
theorem ne_recordingPath {path : Path} (h : path ∈ base.artifacts) (index : Nat) :
    path ≠ base.recordingPath index := by
  obtain ⟨rest, rfl⟩ := exists_tail h
  intro h
  simp only [recordingPath, recordingName, String.append_assoc, String.append_right_inj] at h
  have := congrArg String.toList h
  simp at this

/-- What a decoding writes is none of the other files. -/
theorem output_not_mem {path : Path} (h : path ∈ base.sidecarPaths ∨ ∃ index, path = base.recordingPath index) :
    path ∉ [base.keyPath, base.binPath, tmpPath base.binPath] := by
  intro hmem
  rcases h with hsidecar | ⟨index, rfl⟩
  · exact List.disjoint_of_nodup_append base.artifacts_nodup hmem hsidecar
  · exact ne_recordingPath (List.mem_append_left _ hmem) index rfl

end AudioBase

end PendantClient
