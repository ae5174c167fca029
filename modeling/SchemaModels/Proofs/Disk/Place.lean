import SchemaModels.Proofs.Disk.Walk

namespace SchemaModels.Disk

open Text (Bytes)

/-- The place of the file that a path names, whether or not there is one. -/
def place? (d : Disk) (p : Path) : Option Location :=
  match d.lastStep p with
  | .ok (dir, .name n) =>
    if nameLimit < n.utf8ByteSize || endsInSlash p then none else some (n :: dir)
  | _ => none

theorem lastStep_eq_ok {d : Disk} {p : Path} {dir : Location} {c : Path.Component} :
    d.lastStep p = .ok (dir, c) ↔ checkText p = .ok () ∧
      d.walk (d.origin p) (steps p).dropLast = .ok dir ∧ d.isDirAt dir = true ∧
      (steps p).getLast?.getD .root = c := by
  simp only [lastStep, bind_eq_ok, Unique.exists_iff, ite_else_error_eq_ok, Except.ok.injEq,
    Prod.mk.injEq]
  constructor
  · rintro ⟨hc, _, hw, hd, rfl, hlast⟩
    exact ⟨hc, hw, hd, hlast⟩
  · rintro ⟨hc, hw, hd, hlast⟩
    exact ⟨hc, dir, hw, hd, rfl, hlast⟩

theorem KeepsDirs.lastStep {d d' : Disk} (h : d.KeepsDirs d') {p : Path} {dir : Location}
    {c : Path.Component} (hl : d.lastStep p = .ok (dir, c)) : d'.lastStep p = .ok (dir, c) := by
  obtain ⟨hc, hw, hd, hlast⟩ := lastStep_eq_ok.1 hl
  refine lastStep_eq_ok.2 ⟨hc, ?_, h.isDirAt hd, hlast⟩
  rw [h.origin]
  exact h.walk hw hd

theorem place?_eq_some {d : Disk} {p : Path} {loc : Location} :
    d.place? p = some loc ↔ ∃ dir n, loc = n :: dir ∧ d.lastStep p = .ok (dir, .name n) ∧
      ¬ nameLimit < n.utf8ByteSize ∧ endsInSlash p = false := by
  unfold place?
  constructor
  · intro h
    split at h
    · rename_i dir n hl
      split at h
      · cases h
      · rename_i hok
        simp only [Bool.or_eq_true, decide_eq_true_eq, not_or, Bool.not_eq_true] at hok
        cases h
        exact ⟨dir, n, rfl, hl, hok.1, hok.2⟩
    · cases h
  · rintro ⟨dir, n, rfl, hl, hlong, hslash⟩
    simp [hl, hlong, hslash]

theorem KeepsDirs.place? {d d' : Disk} (h : d.KeepsDirs d') {p : Path} {loc : Location}
    (hp : d.place? p = some loc) : d'.place? p = some loc := by
  obtain ⟨dir, n, hloc, hl, hlong, hslash⟩ := place?_eq_some.1 hp
  exact place?_eq_some.2 ⟨dir, n, hloc, h.lastStep hl, hlong, hslash⟩

theorem walk_append (d : Disk) (loc : Location) (cs ds : List Path.Component) :
    d.walk loc (cs ++ ds) = d.walk loc cs >>= fun dest => d.walk dest ds := by
  induction cs generalizing loc with
  | nil => rfl
  | cons c cs ih =>
    rw [List.cons_append, walk, walk]
    split
    · cases d.step loc c with
      | error e => rfl
      | ok next => exact ih next
    · rfl

/-- A path whose last step is a name leads there as soon as something is there. -/
theorem walk_steps_of_lastStep {d : Disk} {p : Path} {dir : Location} {n : String}
    (hl : d.lastStep p = .ok (dir, .name n)) (hlong : ¬ nameLimit < n.utf8ByteSize) :
    d.walk (d.origin p) (steps p) =
      if (d.get? (n :: dir)).isNone then .error .notFound else .ok (n :: dir) := by
  obtain ⟨-, hw, hd, hlast⟩ := lastStep_eq_ok.1 hl
  have hsteps : steps p = (steps p).dropLast ++ [.name n] := by
    cases hg : (steps p).getLast? with
    | none => simp [hg] at hlast
    | some c =>
      rw [hg, Option.getD_some] at hlast
      obtain ⟨front, hfront⟩ := List.getLast?_eq_some_iff.1 hg
      rw [hfront, List.dropLast_concat, hlast]
  -- Up to the last step the walk is the one of `lastStep`, and the last step looks for its name.
  rw [hsteps, walk_append, hw]
  change d.walk dir [.name n] = _
  rw [walk, if_pos hd, step, if_neg hlong]
  split <;> rfl

theorem resolve_of_place? {d : Disk} {p : Path} {loc : Location} {node : Node}
    (hp : d.place? p = some loc) (hn : d.get? loc = some node) : d.resolve p = .ok loc := by
  obtain ⟨dir, n, rfl, hl, hlong, hslash⟩ := place?_eq_some.1 hp
  refine resolve_eq_ok.2 ⟨(lastStep_eq_ok.1 hl).1, ?_, by simp [hslash]⟩
  rw [walk_steps_of_lastStep hl hlong, hn]
  rfl

theorem resolve_of_place?_of_none {d : Disk} {p : Path} {loc : Location}
    (hp : d.place? p = some loc) (hn : d.get? loc = none) : d.resolve p = .error .notFound := by
  obtain ⟨dir, n, rfl, hl, hlong, -⟩ := place?_eq_some.1 hp
  rw [resolve, (lastStep_eq_ok.1 hl).1]
  change (d.walk (d.origin p) (steps p) >>= _) = _
  rw [walk_steps_of_lastStep hl hlong, hn]
  rfl

theorem unlink_of_place? {d : Disk} {p : Path} {loc : Location} (hp : d.place? p = some loc) :
    d.unlink p = d.eraseFile loc := by
  unfold unlink
  cases hn : d.get? loc with
  | none => simp [resolve_of_place?_of_none hp hn, eraseFile, hn]
  | some node => simp [resolve_of_place? hp hn]

theorem read_of_place? {d : Disk} {p : Path} {loc : Location} {bytes : Bytes}
    (hp : d.place? p = some loc) (hn : d.get? loc = some (.file bytes)) :
    d.read p = .ok bytes := by
  simp [read, resolve_of_place? hp hn, bind, Except.bind, hn]

end SchemaModels.Disk
