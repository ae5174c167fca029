import SchemaModels.Proofs.Glob.Growth
import SchemaModels.Proofs.Run.Written
import SchemaModels.Proofs.Staging.Again

namespace SchemaModels.Run

open Disk
open Text (Bytes)

variable {d d' mid : Disk} {s : Settings} {tables : List Table} {written : List Path}
  {loc : Location}

/-- A place where a run puts one of its files. -/
def IsTarget (d : Disk) (s : Settings) (tables : List Table) (loc : Location) : Prop :=
  ∃ file ∈ files s tables, d.place? file.1 = some loc

theorem exists_last {α : Type} {xs : List α} {P : α → Prop} (h : ∃ x ∈ xs, P x) :
    ∃ front x back, xs = front ++ x :: back ∧ P x ∧ ∀ y ∈ back, ¬ P y := by
  induction xs with
  | nil => simp at h
  | cons x xs ih =>
    by_cases hrest : ∃ y ∈ xs, P y
    · obtain ⟨front, y, back, rfl, hy, hback⟩ := ih hrest
      exact ⟨x :: front, y, back, rfl, hy, hback⟩
    · obtain ⟨y, hy, hP⟩ := h
      have heq : y = x := (List.mem_cons.1 hy).resolve_right fun hmem => hrest ⟨y, hmem, hP⟩
      subst heq
      exact ⟨[], y, xs, rfl, hP, fun z hz hPz => hrest ⟨z, hz, hPz⟩⟩

theorem get?_of_last (hnames : NamedApart tables) (h : write d s tables = (d', .ok written))
    {front back : List (Path × Bytes)} {file : Path × Bytes}
    (hfiles : files s tables = front ++ file :: back) (hfile : d'.place? file.1 = some loc)
    (hback : ∀ other ∈ back, d'.place? other.1 ≠ some loc) : d'.get? loc = some (.file file.2) := by
  obtain ⟨loc', hloc', hheld⟩ := write_ok hnames h front file back hfiles
  cases hfile.symm.trans hloc'
  exact hheld hback

theorem exists_file_of_isTarget (hnames : NamedApart tables)
    (h : write d s tables = (d', .ok written)) (ht : IsTarget d' s tables loc) :
    ∃ bytes, d'.get? loc = some (.file bytes) := by
  obtain ⟨front, file, back, hfiles, hfile, hback⟩ := exists_last ht
  exact ⟨file.2, get?_of_last hnames h hfiles hfile hback⟩

theorem exists_target (hnames : NamedApart tables) (h : write d s tables = (d', .ok written)) :
    ∀ file ∈ files s tables, ∃ loc, d'.place? file.1 = some loc := by
  intro file hfile
  obtain ⟨front, back, hfiles⟩ := List.append_of_mem hfile
  obtain ⟨loc, hloc, -⟩ := write_ok hnames h front file back hfiles
  exact ⟨loc, hloc⟩

theorem sameDirs_of_commit {ws : List Staging.Waiting} {paths : List Path}
    (hready : Staging.Ready mid ws)
    (h : Staging.commit mid (ws.map Staging.Waiting.staged) = (d', .ok paths)) : mid.SameDirs d' :=
  (Staging.commitAfter_ok hready h).1

theorem get?_of_commit {ws : List Staging.Waiting} {paths : List Path}
    (hready : Staging.Ready mid ws) (hws : ws.map Staging.Waiting.file = files s tables)
    (h : Staging.commit mid (ws.map Staging.Waiting.staged) = (d', .ok paths))
    (htemp : loc ∉ ws.map Staging.Waiting.temp) (htarget : ¬ IsTarget d' s tables loc) :
    d'.get? loc = mid.get? loc := by
  refine Staging.get?_commitAfter hready h htemp fun w hw hp => htarget ?_
  rw [← (sameDirs_of_commit hready h).place?] at hp
  exact ⟨w.file, hws ▸ List.mem_map_of_mem hw, hp⟩

theorem targets_of_waiting {ws : List Staging.Waiting}
    (hws : ws.map Staging.Waiting.file = files s tables) :
    (ws.map Staging.Waiting.staged).map Staged.target = (files s tables).map Prod.fst := by
  rw [← hws, List.map_map, List.map_map]
  rfl

/-- A run keeps what is there apart from files at the places of its own. -/
theorem keeps_of_write (hnames : NamedApart tables) (h : write d s tables = (d', .ok written)) :
    d.KeepsKinds d' ∧ ∀ {loc bytes}, d.get? loc = some (.file bytes) →
      ¬ IsTarget d' s tables loc → d'.get? loc = some (.file bytes) := by
  obtain ⟨mid, staged, paths, hstage, hcommit, -⟩ := write_eq_ok.1 h
  obtain ⟨ws, hprep, hready, rfl, hws⟩ := ready_of_stageAll hnames hstage
  have hsame := sameDirs_of_commit hready hcommit
  have hkept {loc : Location} {bytes : Bytes} (hfile : d.get? loc = some (.file bytes))
      (htarget : ¬ IsTarget d' s tables loc) : d'.get? loc = some (.file bytes) := by
    rw [get?_of_commit hready hws hcommit _ htarget, hprep.grown.get? hfile]
    intro hmem
    obtain ⟨w, hw, rfl⟩ := List.mem_map.1 hmem
    simp [(hprep.holds w hw).free] at hfile
  refine ⟨⟨hsame.work.trans hprep.grown.work, ?_, ?_⟩, hkept⟩
  · intro loc hdir
    rw [← isDirAt_iff, hsame.isDirAt, isDirAt_iff]
    exact hprep.grown.get? hdir
  · intro loc bytes hfile
    by_cases htarget : IsTarget d' s tables loc
    · exact exists_file_of_isTarget hnames h htarget
    · exact ⟨bytes, hkept hfile htarget⟩

theorem get?_eq_of_write (hnames : NamedApart tables) (h : write d s tables = (d', .ok written))
    (hdirs : d.SameDirs d') (htarget : ¬ IsTarget d' s tables loc) : d'.get? loc = d.get? loc := by
  obtain ⟨mid, staged, paths, hstage, hcommit, -⟩ := write_eq_ok.1 h
  obtain ⟨ws, hprep, hready, rfl, hws⟩ := ready_of_stageAll hnames hstage
  have hback := sameDirs_of_commit hready hcommit
  have hmid : d.SameDirs mid :=
    ⟨hprep.grown.work, fun loc => (hback.isDirAt loc).symm.trans (hdirs.isDirAt loc)⟩
  by_cases htemp : loc ∈ ws.map Staging.Waiting.temp
  · obtain ⟨w, hw, rfl⟩ := List.mem_map.1 htemp
    rw [Staging.get?_temp_of_commitAfter hready hcommit hw, (hprep.holds w hw).free]
    intro u hu hp
    refine htarget ⟨u.file, hws ▸ List.mem_map_of_mem hu, ?_⟩
    rw [hback.place?]
    exact hp
  · rw [get?_of_commit hready hws hcommit htemp htarget, hprep.get?_eq hmid htemp]

/-- Writing the same files again succeeds and leaves the disk as it is. -/
theorem write_again (hnames : NamedApart tables) (h : write d s tables = (d', .ok written)) :
    ∃ d'', write d' s tables = (d'', .ok written) ∧ d''.work = d'.work ∧
      ∀ loc, d''.get? loc = d'.get? loc := by
  obtain ⟨mid, staged, paths, hstage, hcommit, rfl⟩ := write_eq_ok.1 h
  obtain ⟨ws, -, hready, rfl, hws⟩ := ready_of_stageAll hnames hstage
  have hstageable : ∀ file ∈ files s tables, Staging.Stageable d' file.1 := fun file hfile =>
    ((Staging.stageable_of_stageAll hstage).2 file hfile).of_keepsDirs
      (sameDirs_of_commit hready hcommit).keepsDirs
  obtain ⟨mid', staged', hstage', hsame⟩ := Staging.stageAll_of_stageable hstageable
  obtain ⟨vs, -, hready', rfl, hvs⟩ := ready_of_stageAll hnames hstage'
  have htargets : ∀ v ∈ vs, ∃ dest, mid'.place? v.staged.target = some dest ∧
      mid'.isDirAt dest = false := by
    intro v hv
    have hfile : v.file ∈ files s tables := hvs ▸ List.mem_map_of_mem hv
    obtain ⟨dest, hdest⟩ := exists_target hnames h v.file hfile
    obtain ⟨bytes, hbytes⟩ := exists_file_of_isTarget hnames h ⟨v.file, hfile, hdest⟩
    refine ⟨dest, hsame.place? ▸ hdest, ?_⟩
    rw [hsame.isDirAt, isDirAt, hbytes]
    rfl
  obtain ⟨d'', paths', hcommit'⟩ := Staging.commitAfter_of_ready [] hready' htargets
  have hpaths : paths' = paths := by
    rw [Staging.paths_of_commitAfter hcommit', Staging.paths_of_commitAfter hcommit,
      List.nil_append, List.nil_append, targets_of_waiting hws, targets_of_waiting hvs]
  subst hpaths
  have hwrite := write_eq_ok.2 ⟨mid', _, paths', hstage', hcommit', rfl⟩
  have hsame' := hsame.trans (sameDirs_of_commit hready' hcommit')
  refine ⟨d'', hwrite, hsame'.work, fun loc => ?_⟩
  by_cases htarget : IsTarget d' s tables loc
  · -- The last file with this place is there after both runs.
    obtain ⟨front, file, back, hfiles, hfile, hback⟩ := exists_last htarget
    rw [get?_of_last hnames h hfiles hfile hback]
    rw [← hsame'.place?] at hfile hback
    exact get?_of_last hnames hwrite hfiles hfile hback
  · refine get?_eq_of_write hnames hwrite hsame' ?_
    rwa [IsTarget, hsame'.place?]

end SchemaModels.Run
