import SchemaModels.Proofs.Staging.Again
import SchemaModels.Proofs.Staging.Tracked

namespace SchemaModels.Staging

open Disk
open Text (Bytes)

variable {d d' mid : Disk} {done paths : List Path} {ws front back : List Waiting}

/-- Staged files that nothing touched since: each temporary file lies at a place of its own with the
bytes that were staged, and no target leads to one of these places. -/
structure Intact (d : Disk) (ws : List Waiting) : Prop where
  waiting : ∀ w ∈ ws, w.staged.place? d = some w.temp ∧ d.get? w.temp = some (.file w.bytes)
  distinct : (ws.map Waiting.temp).Nodup
  apart : ∀ w ∈ ws, ∀ v ∈ ws, d.place? w.staged.target ≠ some v.temp

theorem Intact.of_append (h : Intact d (front ++ back)) : Intact d front := by
  have hdistinct := h.distinct
  rw [List.map_append] at hdistinct
  refine ⟨fun w hw => h.waiting w (List.mem_append_left back hw), hdistinct.of_append_left, ?_⟩
  exact fun w hw v hv => h.apart w (List.mem_append_left back hw) v (List.mem_append_left back hv)

theorem Intact.take (h : Intact d ws) (n : Nat) : Intact d (ws.take n) := by
  rw [← List.take_append_drop n ws] at h
  exact h.of_append

theorem Ready.commitAfter (h : Ready d (front ++ back))
    (hc : commitAfter done d (front.map Waiting.staged) = (d', .ok paths)) : Ready d' back := by
  induction front generalizing d done with
  | nil =>
    cases hc
    exact h
  | cons w front ih =>
    rw [List.map_cons] at hc
    obtain ⟨moved, hr, hc⟩ := commitAfter_cons_eq_ok.1 hc
    exact ih (h.rename hr).1 hc

end SchemaModels.Staging
