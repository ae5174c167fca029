import Mathlib.Data.List.Forall2
import SchemaModels.Disk.Basic

namespace SchemaModels

theorem bind_eq_ok {ε α β : Type} {x : Except ε α} {f : α → Except ε β} {b : β} :
    (x >>= f) = .ok b ↔ ∃ a, x = .ok a ∧ f a = .ok b := by
  cases x with
  | error e => simp [bind, Except.bind]
  | ok a => simp [bind, Except.bind]

theorem bind_eq_error {ε α β : Type} {x : Except ε α} {f : α → Except ε β} {e : ε} :
    (x >>= f) = .error e ↔ x = .error e ∨ ∃ a, x = .ok a ∧ f a = .error e := by
  cases x with
  | error e' => simp [bind, Except.bind]
  | ok a => simp [bind, Except.bind]

@[simp] theorem ite_error_eq_ok {ε α : Type} {p : Prop} [Decidable p] {e : ε} {x : Except ε α}
    {a : α} : (if p then .error e else x) = .ok a ↔ ¬ p ∧ x = .ok a := by
  by_cases hp : p <;> simp [hp]

@[simp] theorem ite_else_error_eq_ok {ε α : Type} {p : Prop} [Decidable p] {e : ε}
    {x : Except ε α} {a : α} : (if p then x else .error e) = .ok a ↔ p ∧ x = .ok a := by
  by_cases hp : p <;> simp [hp]

theorem mapError_eq_ok {ε ε' α : Type} {x : Except ε α} {f : ε → ε'} {a : α} :
    x.mapError f = .ok a ↔ x = .ok a := by
  cases x <;> simp [Except.mapError]

theorem mapM_eq_ok {ε α β : Type} {f : α → Except ε β} {xs : List α} {ys : List β} :
    xs.mapM f = .ok ys ↔ List.Forall₂ (fun x y => f x = .ok y) xs ys := by
  induction xs generalizing ys with
  | nil => simp [pure, Except.pure, eq_comm]
  | cons x xs ih =>
    rw [List.mapM_cons, bind_eq_ok, List.forall₂_cons_left_iff]
    refine exists_congr fun y => ?_
    simp only [bind_eq_ok, ih, pure, Except.pure, Except.ok.injEq]
    constructor
    · rintro ⟨hy, rest, hrest, rfl⟩
      exact ⟨rest, hy, hrest, rfl⟩
    · rintro ⟨rest, hy, hrest, rfl⟩
      exact ⟨hy, rest, hrest, rfl⟩

theorem mapM_eq_error {ε α β : Type} {f : α → Except ε β} {xs : List α} {e : ε} :
    xs.mapM f = .error e ↔ ∃ above x below, xs = above ++ x :: below ∧
      (∀ a ∈ above, ∃ b, f a = .ok b) ∧ f x = .error e := by
  induction xs with
  | nil => simp [pure, Except.pure]
  | cons x xs ih =>
    have hrest (b : β) : (xs.mapM f >>= fun bs => pure (b :: bs)) = .error e ↔
        xs.mapM f = .error e := by
      simp [bind_eq_error, pure, Except.pure]
    rw [List.mapM_cons, bind_eq_error]
    simp only [hrest, ih]
    constructor
    · rintro (hx | ⟨b, hb, above, y, below, rfl, habove, hy⟩)
      · exact ⟨[], x, xs, rfl, List.forall_mem_nil _, hx⟩
      · exact ⟨x :: above, y, below, rfl, List.forall_mem_cons.2 ⟨⟨b, hb⟩, habove⟩, hy⟩
    · rintro ⟨above, y, below, heq, habove, hy⟩
      cases above with
      | nil =>
        obtain ⟨rfl, -⟩ := List.cons_eq_cons.1 heq
        exact .inl hy
      | cons a above =>
        obtain ⟨rfl, rfl⟩ := List.cons_eq_cons.1 heq
        rw [List.forall_mem_cons] at habove
        obtain ⟨⟨b, hb⟩, habove⟩ := habove
        exact .inr ⟨b, hb, above, y, below, rfl, habove, hy⟩

theorem exists_of_forall₂ {α β : Type} {R : α → β → Prop} {xs : List α} {ys : List β} {y : β}
    (h : List.Forall₂ R xs ys) (hy : y ∈ ys) : ∃ x ∈ xs, R x y := by
  induction h with
  | nil => cases hy
  | @cons x _ _ _ hxy _ ih =>
    rcases List.mem_cons.1 hy with rfl | hmem
    · exact ⟨x, List.mem_cons_self, hxy⟩
    · obtain ⟨x', hx', h'⟩ := ih hmem
      exact ⟨x', List.mem_cons_of_mem x hx', h'⟩

namespace Disk

theorem isDirAt_iff {d : Disk} {loc : Location} :
    d.isDirAt loc = true ↔ d.get? loc = some .dir := by
  simp [isDirAt]

/-- Every directory stays, and relative paths start where they did. -/
structure KeepsDirs (d d' : Disk) : Prop where
  work : d'.work = d.work
  isDirAt : ∀ {loc}, d.isDirAt loc = true → d'.isDirAt loc = true

theorem KeepsDirs.refl (d : Disk) : d.KeepsDirs d := ⟨rfl, id⟩

theorem KeepsDirs.trans {d₁ d₂ d₃ : Disk} (h : d₁.KeepsDirs d₂) (h' : d₂.KeepsDirs d₃) :
    d₁.KeepsDirs d₃ :=
  ⟨h'.work.trans h.work, fun hd => h'.isDirAt (h.isDirAt hd)⟩

theorem step_name_eq_ok {d : Disk} {loc dest : Location} {name : String} :
    d.step loc (.name name) = .ok dest ↔
      name.utf8ByteSize ≤ nameLimit ∧ (d.get? (name :: loc)).isSome = true ∧
        dest = name :: loc := by
  rw [step, ite_error_eq_ok, ite_error_eq_ok, Except.ok.injEq, eq_comm (b := dest)]
  simp [Option.isSome_iff_ne_none]

theorem walk_cons_eq_ok {d : Disk} {loc dest : Location} {c : Path.Component}
    {cs : List Path.Component} : d.walk loc (c :: cs) = .ok dest ↔
      d.isDirAt loc = true ∧ ∃ next, d.step loc c = .ok next ∧ d.walk next cs = .ok dest := by
  rw [walk, ite_else_error_eq_ok, bind_eq_ok]

theorem isDirAt_of_walk {d : Disk} {loc dest : Location} {cs : List Path.Component}
    (h : d.walk loc cs = .ok dest) (hto : d.isDirAt dest = true) : d.isDirAt loc = true := by
  cases cs with
  | nil =>
    cases h
    exact hto
  | cons c cs => exact (walk_cons_eq_ok.1 h).1

theorem step_of_isSome {d d' : Disk} {loc dest : Location} {c : Path.Component}
    (hs : d.step loc c = .ok dest) (hdest : (d.get? dest).isSome → (d'.get? dest).isSome) :
    d'.step loc c = .ok dest := by
  cases c with
  | name n =>
    obtain ⟨hshort, hthere, rfl⟩ := step_name_eq_ok.1 hs
    exact step_name_eq_ok.2 ⟨hshort, hdest hthere, rfl⟩
  | _ => exact hs

/-- Steps lead to the same place if directories stay and what is at the end does. -/
theorem KeepsDirs.walk_of_isSome {d d' : Disk} (h : d.KeepsDirs d') {cs : List Path.Component}
    {loc dest : Location} (hw : d.walk loc cs = .ok dest)
    (hdest : (d.get? dest).isSome → (d'.get? dest).isSome) : d'.walk loc cs = .ok dest := by
  induction cs generalizing loc with
  | nil => exact hw
  | cons c cs ih =>
    obtain ⟨hdir, next, hstep, hrest⟩ := walk_cons_eq_ok.1 hw
    refine walk_cons_eq_ok.2 ⟨h.isDirAt hdir, next, step_of_isSome hstep fun hnext => ?_, ih hrest⟩
    -- The last place is there, and the others are directories, as the walk goes on from them.
    cases cs with
    | nil =>
      cases hrest
      exact hdest hnext
    | cons c cs => simp [isDirAt_iff.1 (h.isDirAt (walk_cons_eq_ok.1 hrest).1)]

theorem KeepsDirs.walk {d d' : Disk} (h : d.KeepsDirs d') {cs : List Path.Component}
    {loc dest : Location} (hw : d.walk loc cs = .ok dest) (hto : d.isDirAt dest = true) :
    d'.walk loc cs = .ok dest :=
  h.walk_of_isSome hw fun _ => by simp [isDirAt_iff.1 (h.isDirAt hto)]

theorem KeepsDirs.origin {d d' : Disk} (h : d.KeepsDirs d') (p : Path) :
    d'.origin p = d.origin p := by
  simp only [Disk.origin, h.work]

theorem resolve_eq_ok {d : Disk} {p : Path} {loc : Location} :
    d.resolve p = .ok loc ↔ checkText p = .ok () ∧ d.walk (d.origin p) (steps p) = .ok loc ∧
      ¬ (endsInSlash p = true ∧ d.isDirAt loc = false) := by
  simp [resolve, bind_eq_ok, Unique.exists_iff]

theorem resolveDir_eq_ok {d : Disk} {p : Path} {loc : Location} :
    d.resolveDir p = .ok loc ↔ d.resolve p = .ok loc ∧ d.isDirAt loc = true := by
  simp [resolveDir, bind_eq_ok]

theorem KeepsDirs.resolve {d d' : Disk} (h : d.KeepsDirs d') {p : Path} {loc : Location}
    (hr : d.resolve p = .ok loc) (hloc : (d.get? loc).isSome → (d'.get? loc).isSome) :
    d'.resolve p = .ok loc := by
  obtain ⟨htext, hwalk, hslash⟩ := resolve_eq_ok.1 hr
  refine resolve_eq_ok.2 ⟨htext, ?_, ?_⟩
  · rw [h.origin]
    exact h.walk_of_isSome hwalk hloc
  · rintro ⟨hends, hnot⟩
    refine hslash ⟨hends, ?_⟩
    rw [Bool.eq_false_iff] at hnot ⊢
    exact fun hdir => hnot (h.isDirAt hdir)

theorem KeepsDirs.resolveDir {d d' : Disk} (h : d.KeepsDirs d') {p : Path} {loc : Location}
    (hr : d.resolveDir p = .ok loc) : d'.resolveDir p = .ok loc := by
  obtain ⟨hres, hd⟩ := resolveDir_eq_ok.1 hr
  have hthere : (d'.get? loc).isSome := by simp [isDirAt_iff.1 (h.isDirAt hd)]
  exact resolveDir_eq_ok.2 ⟨h.resolve hres fun _ => hthere, h.isDirAt hd⟩

end Disk

end SchemaModels
