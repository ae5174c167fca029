import SchemaModels.Discovery
import SchemaModels.Proofs.Disk.Walk

namespace SchemaModels.Discovery

variable {turn : Nat} {read : List (Except Failure Table)} {tables : List Table}
  {failure : Failure}

theorem mem_failures : failure ∈ failures read ↔ .error failure ∈ read := by
  rw [failures, List.mem_filterMap]
  constructor
  · rintro ⟨r, hr, heq⟩
    cases r with
    | ok t => cases heq
    | error f =>
      cases heq
      exact hr
  · intro h
    exact ⟨.error failure, h, rfl⟩

theorem failures_append (front back : List (Except Failure Table)) :
    failures (front ++ back) = failures front ++ failures back :=
  List.filterMap_append

theorem failures_map_ok (tables : List Table) : failures (tables.map .ok) = [] := by
  rw [failures, List.filterMap_map]
  exact List.filterMap_eq_nil_iff.2 fun _ _ => rfl

theorem exists_eq_map_ok (h : failures read = []) :
    ∃ tables : List Table, read = tables.map .ok := by
  induction read with
  | nil => exact ⟨[], rfl⟩
  | cons r read ih =>
    cases r with
    | ok t =>
      obtain ⟨tables, rfl⟩ := ih h
      exact ⟨t :: tables, rfl⟩
    | error f => cases h

theorem gather_map_ok (turn : Nat) (tables : List Table) :
    gather turn (tables.map .ok) = .ok tables := by
  rw [gather, failures_map_ok]
  simp [List.filterMap_map, Except.toOption]

theorem exists_gather_eq_error (turn : Nat) (h : failures read ≠ []) :
    ∃ failure, .error failure ∈ read ∧ gather turn read = .error failure := by
  have hlt : turn % (failures read).length < (failures read).length :=
    Nat.mod_lt turn (List.length_pos_iff.2 h)
  refine ⟨(failures read)[turn % (failures read).length],
    mem_failures.1 (List.getElem_mem hlt), ?_⟩
  rw [gather, List.getElem?_eq_getElem hlt]

theorem gather_eq_ok : gather turn read = .ok tables ↔ read = tables.map .ok := by
  constructor
  · intro h
    by_cases hnone : failures read = []
    · obtain ⟨tables', rfl⟩ := exists_eq_map_ok hnone
      rw [gather_map_ok, Except.ok.injEq] at h
      rw [h]
    · obtain ⟨failure, -, hfailure⟩ := exists_gather_eq_error turn hnone
      cases h.symm.trans hfailure
  · rintro rfl
    exact gather_map_ok turn tables

theorem mem_of_gather_eq_error (h : gather turn read = .error failure) : .error failure ∈ read := by
  by_cases hnone : failures read = []
  · obtain ⟨tables, rfl⟩ := exists_eq_map_ok hnone
    cases h.symm.trans (gather_map_ok turn tables)
  · obtain ⟨failure', hmem, hfailure⟩ := exists_gather_eq_error turn hnone
    cases h.symm.trans hfailure
    exact hmem

/-- The threads can come back with the failure of any file that has one, and with no other. -/
theorem exists_gather_eq_error_iff :
    (∃ turn, gather turn read = .error failure) ↔ .error failure ∈ read := by
  constructor
  · rintro ⟨turn, h⟩
    exact mem_of_gather_eq_error h
  · intro h
    obtain ⟨turn, hlt, hget⟩ := List.mem_iff_getElem.1 (mem_failures.2 h)
    refine ⟨turn, ?_⟩
    rw [gather, Nat.mod_eq_of_lt hlt, List.getElem?_eq_getElem hlt, hget]

/-- A single thread stops at the first failure. -/
theorem gather_zero (f : Path → Except Failure Table) (paths : List Path) :
    gather 0 (paths.map f) = paths.mapM f := by
  cases hread : paths.mapM f with
  | ok tables =>
    rw [gather_eq_ok, ← List.forall₂_eq_eq_eq, List.forall₂_map_left_iff,
      List.forall₂_map_right_iff]
    exact mapM_eq_ok.1 hread
  | error failure =>
    obtain ⟨above, path, below, rfl, habove, hpath⟩ := mapM_eq_error.1 hread
    have hnone : failures (above.map f) = [] := by
      rw [List.eq_nil_iff_forall_not_mem]
      intro failure' hmem
      obtain ⟨p, hp, heq⟩ := List.mem_map.1 (mem_failures.1 hmem)
      obtain ⟨t, ht⟩ := habove p hp
      cases ht.symm.trans heq
    have hfirst : failures ((above ++ path :: below).map f) =
        failure :: failures (below.map f) := by
      rw [List.map_append, failures_append, hnone, List.map_cons, hpath]
      rfl
    rw [gather, hfirst, Nat.zero_mod]
    rfl

theorem load_eq (d : Disk) (paths : List Path) :
    load d paths = paths.mapM (readTable d) >>= accept paths := by
  rw [load, loadBy, gather_zero]

end SchemaModels.Discovery
