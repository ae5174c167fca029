import SchemaModels.Proofs.Disk.Names
import SchemaModels.Proofs.Run.Failed

namespace SchemaModels

open Text (Bytes)

namespace Staging

open Disk

variable {d d' : Disk}

theorem isPlainName_tempName (n : Nat) : IsPlainName (tempName n) := by
  have htext : (tempName n).toList = ".tmp".toList ++
      (List.replicate (6 - (Nat.toDigits 10 n).length) '0' ++ Nat.toDigits 10 n) := by
    simp only [tempName, String.toList_append, String.toList_ofList]
  have hlength : 4 ≤ (tempName n).toList.length := by
    simp [htext]
  refine ⟨?_, ?_, ?_, ?_⟩
  · rw [htext, List.mem_append, List.mem_append, not_or, not_or]
    refine ⟨by decide, fun hmem => ?_, fun hmem => ?_⟩
    · exact absurd (List.eq_of_mem_replicate hmem) (by decide)
    · exact absurd (Nat.isDigit_of_mem_toDigits (by decide) (by decide) hmem) (by decide)
  all_goals
    intro heq
    simp [heq] at hlength

theorem wellNamed_stage {target : Path} {bytes : Bytes} (h : d.WellNamed) :
    (stage d target bytes).1.WellNamed := by
  have hmade := h.makeDirs target.directory.ancestors
  unfold stage makeDirAll
  dsimp only
  split <;> rename_i hm <;> rw [hm] at hmade
  · exact hmade
  · split
    · exact hmade
    · rename_i written name hw
      obtain ⟨loc, n, -, rfl, -, rfl⟩ := writeTemp_eq_ok hw
      exact (hmade.set (isPlainName_tempName _) (.file bytes)).of_entries rfl

theorem wellNamed_discard {staged : List Staged} (h : d.WellNamed) :
    (discard d staged).WellNamed := by
  induction staged generalizing d with
  | nil => exact h
  | cons s staged ih =>
    refine ih ?_
    unfold drop
    split
    · exact h.eraseFile _
    · exact h

theorem wellNamed_stageAll {files : List (Path × Bytes)} {staged : List Staged}
    (h : d.WellNamed) : (stageAll d staged files).1.WellNamed := by
  induction files generalizing d staged with
  | nil => exact h
  | cons file files ih =>
    obtain ⟨target, bytes⟩ := file
    have hstage : (stage d target bytes).1.WellNamed := wellNamed_stage h
    rw [stageAll]
    split <;> rename_i hs <;> rw [hs] at hstage
    · exact wellNamed_discard hstage
    · exact ih hstage

theorem wellNamed_unlink {done : List Path} (h : d.WellNamed) :
    (done.foldl unlink d).WellNamed := by
  induction done generalizing d with
  | nil => exact h
  | cons p done ih => exact ih (h.unlink p)

theorem wellNamed_commitAfter {done : List Path} {staged : List Staged} (h : d.WellNamed) :
    (commitAfter done d staged).1.WellNamed := by
  induction staged generalizing d done with
  | nil => exact h
  | cons s staged ih =>
    rw [commitAfter]
    split
    · rename_i moved hr
      exact ih (h.rename hr)
    · exact wellNamed_discard (wellNamed_unlink h)

end Staging

theorem Run.wellNamed_write {d : Disk} {s : Settings} {tables : List Table} (h : d.WellNamed) :
    (write d s tables).1.WellNamed := by
  have hstage : (Staging.stageAll d [] (files s tables)).1.WellNamed :=
    Staging.wellNamed_stageAll h
  rcases disk_write d s tables with ⟨f, hs⟩ | ⟨mid, staged, hs, heq⟩
  · rwa [hs] at hstage
  · rw [hs] at hstage
    rw [heq]
    exact Staging.wellNamed_commitAfter hstage

theorem wellNamed_run {d : Disk} {s : Settings} {dry : Bool} (h : d.WellNamed) :
    (run d s dry).1.WellNamed := by
  rcases disk_run d s dry with heq | ⟨-, tables, -, heq⟩
  · rwa [heq]
  · rw [heq]
    exact Run.wellNamed_write h

end SchemaModels
