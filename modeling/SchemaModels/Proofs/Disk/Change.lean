import Mathlib.Logic.Relation
import SchemaModels.Proofs.Disk.Place

namespace SchemaModels.Disk

open Text (Bytes)

variable {d d₁ d₂ d₃ : Disk} {loc other : Location}

structure Extends (d₁ d₂ : Disk) : Prop where
  work : d₂.work = d₁.work
  get? : ∀ {loc node}, d₁.get? loc = some node → d₂.get? loc = some node

theorem Extends.refl (d : Disk) : d.Extends d := ⟨rfl, id⟩

theorem Extends.trans (h : d₁.Extends d₂) (h' : d₂.Extends d₃) : d₁.Extends d₃ :=
  ⟨h'.work.trans h.work, fun hn => h'.get? (h.get? hn)⟩

theorem Extends.keepsDirs (h : d₁.Extends d₂) : d₁.KeepsDirs d₂ :=
  ⟨h.work, fun hd => isDirAt_iff.2 (h.get? (isDirAt_iff.1 hd))⟩

theorem Extends.get?_eq_none (h : d₁.Extends d₂) (hn : d₂.get? loc = none) :
    d₁.get? loc = none := by
  cases hd : d₁.get? loc with
  | none => rfl
  | some node => exact absurd (h.get? hd) (by simp [hn])

/-- Every file of the second disk is one of the first, with the same bytes. -/
def NoNewFile (d₁ d₂ : Disk) : Prop :=
  ∀ loc bytes, d₂.get? loc = some (.file bytes) → d₁.get? loc = some (.file bytes)

/-- The files that some paths lead to are gone, and all others are as they were. -/
structure LosesOnly (d₁ d₂ : Disk) (paths : List Path) : Prop where
  kept : ∀ loc bytes, d₁.get? loc = some (.file bytes) →
    (∀ p ∈ paths, d₂.place? p ≠ some loc) → d₂.get? loc = some (.file bytes)
  lost : ∀ loc bytes, d₁.get? loc = some (.file bytes) →
    (∃ p ∈ paths, d₂.place? p = some loc) → d₂.get? loc = none

theorem LosesOnly.refl (d : Disk) : d.LosesOnly d [] where
  kept _ _ hf _ := hf
  lost := by simp

/-- Both disks have the same directories, and relative paths start at the same one. -/
structure SameDirs (d₁ d₂ : Disk) : Prop where
  work : d₂.work = d₁.work
  isDirAt : ∀ loc, d₂.isDirAt loc = d₁.isDirAt loc

theorem SameDirs.refl (d : Disk) : d.SameDirs d := ⟨rfl, fun _ => rfl⟩

theorem SameDirs.symm (h : d₁.SameDirs d₂) : d₂.SameDirs d₁ :=
  ⟨h.work.symm, fun loc => (h.isDirAt loc).symm⟩

theorem SameDirs.trans (h : d₁.SameDirs d₂) (h' : d₂.SameDirs d₃) : d₁.SameDirs d₃ :=
  ⟨h'.work.trans h.work, fun loc => (h'.isDirAt loc).trans (h.isDirAt loc)⟩

theorem SameDirs.keepsDirs (h : d₁.SameDirs d₂) : d₁.KeepsDirs d₂ :=
  ⟨h.work, fun hd => (h.isDirAt _).trans hd⟩

theorem SameDirs.place? (h : d₁.SameDirs d₂) : d₂.place? = d₁.place? := by
  funext p
  cases h₁ : d₁.place? p with
  | some loc => exact h.keepsDirs.place? h₁
  | none =>
    cases h₂ : d₂.place? p with
    | none => rfl
    | some loc => simp [h.symm.keepsDirs.place? h₂] at h₁

theorem ne_nil_of_get?_ne_dir (d : Disk) (h : d.get? loc ≠ some .dir) : loc ≠ [] := by
  rintro rfl
  exact h rfl

theorem extends_set {node : Node} (h : d.get? loc = none) : d.Extends (d.set loc node) where
  work := rfl
  get? := by
    intro l n hl
    rw [get?_set_of_ne d node (fun heq => by simp [← heq, hl] at h)]
    exact hl

theorem get?_eraseFile_of_ne (h : other ≠ loc) : (d.eraseFile loc).get? other = d.get? other := by
  unfold eraseFile
  split
  · exact get?_erase_of_ne d h
  · rfl

theorem get?_eraseFile_self {bytes : Bytes} :
    (d.eraseFile loc).get? loc ≠ some (.file bytes) := by
  unfold eraseFile
  split
  · rename_i hfile
    rw [get?_erase_self d (ne_nil_of_get?_ne_dir d (by simp [hfile]))]
    simp
  · rename_i hno
    exact hno bytes

theorem noNewFile_eraseFile (d : Disk) (loc : Location) : d.NoNewFile (d.eraseFile loc) := by
  intro other bytes h
  by_cases heq : other = loc
  · exact absurd (heq ▸ h) get?_eraseFile_self
  · rwa [get?_eraseFile_of_ne heq] at h

theorem sameDirs_eraseFile (d : Disk) (loc : Location) : d.SameDirs (d.eraseFile loc) where
  work := by
    unfold eraseFile
    split <;> rfl
  isDirAt other := by
    by_cases heq : other = loc
    · subst heq
      unfold eraseFile
      split
      · rename_i hfile
        rw [isDirAt, isDirAt, hfile,
          get?_erase_self d (ne_nil_of_get?_ne_dir d (by simp [hfile]))]
        rfl
      · rfl
    · rw [isDirAt, isDirAt, get?_eraseFile_of_ne heq]

def eraseFiles (d : Disk) (locs : List Location) : Disk := locs.foldl eraseFile d

theorem noNewFile_eraseFiles (d : Disk) (locs : List Location) :
    d.NoNewFile (d.eraseFiles locs) := by
  induction locs generalizing d with
  | nil => exact fun _ _ => id
  | cons loc locs ih =>
    exact fun other bytes h => noNewFile_eraseFile d loc other bytes (ih _ other bytes h)

theorem sameDirs_eraseFiles (d : Disk) (locs : List Location) : d.SameDirs (d.eraseFiles locs) := by
  induction locs generalizing d with
  | nil => exact .refl d
  | cons loc locs ih => exact (sameDirs_eraseFile d loc).trans (ih _)

theorem get?_eraseFiles_of_notMem {locs : List Location} (h : loc ∉ locs) :
    (d.eraseFiles locs).get? loc = d.get? loc := by
  induction locs generalizing d with
  | nil => rfl
  | cons other locs ih =>
    rw [List.mem_cons, not_or] at h
    exact (ih h.2).trans (get?_eraseFile_of_ne h.1)

theorem get?_eraseFiles_of_mem {locs : List Location} (h : loc ∈ locs) (bytes : Bytes) :
    (d.eraseFiles locs).get? loc ≠ some (.file bytes) := by
  induction locs generalizing d with
  | nil => simp at h
  | cons other locs ih =>
    rcases List.mem_cons.1 h with rfl | hmem
    · exact fun hfile => get?_eraseFile_self (noNewFile_eraseFiles _ locs _ bytes hfile)
    · exact ih hmem

theorem get?_eraseFiles_eq_none {locs : List Location} (h : loc ∈ locs)
    (hdir : d.isDirAt loc = false) : (d.eraseFiles locs).get? loc = none := by
  have hsame := (sameDirs_eraseFiles d locs).isDirAt loc
  cases hget : (d.eraseFiles locs).get? loc with
  | none => rfl
  | some node =>
    cases node with
    | dir => simp [isDirAt_iff.2 hget, hdir] at hsame
    | file bytes => exact absurd hget (get?_eraseFiles_of_mem h bytes)

/-- Taking away what lies at some places, one by one, is taking those files away: no place moves
while only files go. -/
theorem foldl_eq_eraseFiles {α : Type} (act : Disk → α → Disk) (place : Disk → α → Option Location)
    (hact : ∀ {d x loc}, place d x = some loc → act d x = d.eraseFile loc)
    (hplace : ∀ {d d' x loc}, d.KeepsDirs d' → place d x = some loc → place d' x = some loc)
    {xs : List α} {locs : List Location} (h : xs.map (place d) = locs.map some) :
    xs.foldl act d = d.eraseFiles locs := by
  -- On the list, for every disk, as each step leaves the places of the rest where they are.
  induction xs generalizing d locs with
  | nil =>
    cases locs with
    | nil => rfl
    | cons loc locs => simp at h
  | cons x xs ih =>
    cases locs with
    | nil => simp at h
    | cons loc locs =>
      rw [List.map_cons, List.map_cons, List.cons.injEq] at h
      rw [List.foldl_cons, hact h.1]
      apply ih
      rw [← h.2]
      apply List.map_congr_left
      intro y hy
      have hsome : place d y ∈ locs.map some := h.2 ▸ List.mem_map_of_mem hy
      obtain ⟨l, -, hl⟩ := List.mem_map.1 hsome
      rw [← hl]
      exact hplace (sameDirs_eraseFile d loc).keepsDirs hl.symm

theorem makeDir_eq_ok {p : Path} {made : Disk} (h : d.makeDir p = .ok made) :
    ∃ dir n, d.lastStep p = .ok (dir, .name n) ∧ ¬ nameLimit < n.utf8ByteSize ∧
      d.get? (n :: dir) = none ∧ made = d.set (n :: dir) .dir := by
  obtain ⟨⟨dir, c⟩, hlast, h⟩ := bind_eq_ok.1 h
  cases c with
  | name n =>
    simp only [ite_error_eq_ok, Except.ok.injEq] at h
    obtain ⟨hlong, hnone, rfl⟩ := h
    exact ⟨dir, n, hlast, hlong, by simpa using hnone, rfl⟩
  | root => cases h
  | here => cases h
  | up => cases h

/-- The second disk has all of the first, and no other files. -/
structure AddsDirs (d₁ d₂ : Disk) : Prop where
  grown : d₁.Extends d₂
  noNewFile : d₁.NoNewFile d₂

theorem AddsDirs.refl (d : Disk) : d.AddsDirs d := ⟨.refl d, fun _ _ => id⟩

theorem AddsDirs.trans (h : d₁.AddsDirs d₂) (h' : d₂.AddsDirs d₃) : d₁.AddsDirs d₃ :=
  ⟨h.grown.trans h'.grown, fun loc bytes hf => h.noNewFile loc bytes (h'.noNewFile loc bytes hf)⟩

theorem addsDirs_makeDir {p : Path} {made : Disk} (h : d.makeDir p = .ok made) :
    d.AddsDirs made := by
  obtain ⟨dir, n, -, -, hnone, rfl⟩ := makeDir_eq_ok h
  refine ⟨extends_set hnone, ?_⟩
  intro other bytes hf
  by_cases heq : other = n :: dir
  · subst heq
    rw [get?_set_self d .dir (ne_nil_of_get?_ne_dir d (by simp [hnone]))] at hf
    simp at hf
  · rwa [get?_set_of_ne d .dir heq] at hf

def Makes (ps : List Path) (d made : Disk) : Prop := ∃ p ∈ ps, d.makeDir p = .ok made

theorem makes_makeDirs (d : Disk) (ps : List Path) :
    Relation.ReflTransGen (Makes ps) d (d.makeDirs ps).1 := by
  induction ps generalizing d with
  | nil => exact .refl
  | cons p above ih =>
    unfold makeDirs
    split
    · rename_i made hmade
      exact .single ⟨p, List.mem_cons_self, hmade⟩
    · have habove : Relation.ReflTransGen (Makes (p :: above)) d (d.makeDirs above).1 := by
        refine Relation.ReflTransGen.mono ?_ d _ (ih d)
        rintro d₁ d₂ ⟨q, hq, hmade⟩
        exact ⟨q, List.mem_cons_of_mem p hq, hmade⟩
      split
      · rename_i made cause hm
        rwa [hm] at habove
      · rename_i made hm
        rw [hm] at habove
        split
        · rename_i made' hmade
          exact habove.tail ⟨p, List.mem_cons_self, hmade⟩
        · exact habove
    · exact .refl

theorem addsDirs_makeDirs (ps : List Path) : d.AddsDirs (d.makeDirs ps).1 := by
  have hchain := makes_makeDirs d ps
  generalize (d.makeDirs ps).1 = made at hchain ⊢
  induction hchain with
  | refl => exact .refl d
  | tail _ hmakes ih =>
    obtain ⟨p, -, hmade⟩ := hmakes
    exact ih.trans (addsDirs_makeDir hmade)

section Move

variable {source dest : Location} {node : Node}

theorem get?_move_self (hto : d.isDirAt dest = false) :
    ((d.erase source).set dest node).get? dest = some node := by
  refine get?_set_self _ node ?_
  rintro rfl
  cases hto

theorem get?_move_of_ne (hsource : loc ≠ source) (hto : loc ≠ dest) :
    ((d.erase source).set dest node).get? loc = d.get? loc :=
  (get?_set_of_ne _ node hto).trans (get?_erase_of_ne d hsource)

theorem get?_move_source (hne : source ≠ dest) (hroot : source ≠ []) :
    ((d.erase source).set dest node).get? source = none :=
  (get?_set_of_ne _ node hne).trans (get?_erase_self d hroot)

theorem sameDirs_move {bytes : Bytes} (hfile : d.get? source = some (.file bytes))
    (hto : d.isDirAt dest = false) :
    d.SameDirs ((d.erase source).set dest (.file bytes)) where
  work := rfl
  isDirAt loc := by
    by_cases heq : loc = dest
    · subst heq
      rw [hto, isDirAt, get?_move_self hto]
      rfl
    · by_cases hsource : loc = source
      · subst hsource
        rw [isDirAt, isDirAt, hfile,
          get?_move_source heq (ne_nil_of_get?_ne_dir d (by simp [hfile]))]
        rfl
      · rw [isDirAt, isDirAt, get?_move_of_ne hsource heq]

end Move

theorem rename_eq_ok {dir target : Path} {name : String} {moved : Disk} :
    d.rename dir name target = .ok moved ↔ ∃ source dest node, d.resolveDir dir = .ok source ∧
      d.place? target = some dest ∧ d.get? (name :: source) = some node ∧
      d.isDirAt dest = false ∧ moved = (d.erase (name :: source)).set dest node := by
  constructor
  · intro h
    obtain ⟨source, hs, h⟩ := bind_eq_ok.1 h
    obtain ⟨⟨targetDir, c⟩, hl, h⟩ := bind_eq_ok.1 h
    cases c with
    | name t =>
      dsimp only at h
      split at h
      · cases h
      · rename_i node hnode
        simp only [ite_error_eq_ok, Except.ok.injEq] at h
        obtain ⟨hlong, hslash, hdir, rfl⟩ := h
        exact ⟨source, t :: targetDir, node, hs,
          place?_eq_some.2 ⟨targetDir, t, rfl, hl, hlong, by simpa using hslash⟩,
          hnode, by simpa using hdir, rfl⟩
    | root => cases h
    | here => cases h
    | up => cases h
  · rintro ⟨source, dest, node, hs, hp, hnode, hdir, rfl⟩
    obtain ⟨targetDir, t, rfl, hl, hlong, hslash⟩ := place?_eq_some.1 hp
    refine bind_eq_ok.2 ⟨source, hs, bind_eq_ok.2 ⟨(targetDir, .name t), hl, ?_⟩⟩
    simp [hnode, hlong, hslash, hdir]

end SchemaModels.Disk
