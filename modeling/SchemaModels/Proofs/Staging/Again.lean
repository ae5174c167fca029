import SchemaModels.Proofs.Disk.Way
import SchemaModels.Proofs.Staging.Commit

namespace SchemaModels

open Text (Bytes)

namespace Disk

variable {d d' made : Disk} {p : Path}

theorem makeDir_of_isDir (h : d.isDir p = true) : d.makeDir p = .error .alreadyExists := by
  obtain ⟨loc, hr, hdir⟩ := isDir_iff_resolve.1 h
  obtain ⟨htext, hwalk, -⟩ := resolve_eq_ok.1 hr
  rcases List.eq_nil_or_concat (steps p) with hnil | ⟨front, c, hsteps⟩
  · rw [hnil] at hwalk
    cases hwalk
    have hlast : d.lastStep p = .ok (d.origin p, .root) :=
      lastStep_eq_ok.2 ⟨htext, by rw [hnil]; rfl, hdir, by rw [hnil]; rfl⟩
    rw [makeDir, hlast]
    rfl
  · rw [hsteps, List.concat_eq_append] at hwalk
    obtain ⟨mid, hmid, hmidDir, hstep⟩ := isDirAt_of_walk_concat hwalk
    have hlast : d.lastStep p = .ok (mid, c) :=
      lastStep_eq_ok.2 ⟨htext, by simpa [hsteps] using hmid, hmidDir, by simp [hsteps]⟩
    rw [makeDir, hlast]
    cases c with
    | name n =>
      obtain ⟨hshort, hthere, -⟩ := step_name_eq_ok.1 hstep
      simp [bind, Except.bind, Nat.not_lt.2 hshort, hthere]
    | _ => rfl

theorem makeDirs_of_isDir (h : d.isDir p = true) (above : List Path) :
    d.makeDirs (p :: above) = (d, .ok ()) := by
  rw [makeDirs, makeDir_of_isDir h]
  simp [h]

theorem resolveDir_of_makeDir (h : d.makeDir p = .ok made) :
    ∃ loc, d.get? loc = none ∧ made = d.set loc .dir ∧ made.resolveDir p = .ok loc := by
  have hkeeps := (addsDirs_makeDir h).grown.keepsDirs
  obtain ⟨dir, n, hlast, hlong, hnone, rfl⟩ := makeDir_eq_ok h
  have hthere := get?_set_self d .dir (List.cons_ne_nil n dir)
  have hdir : (d.set (n :: dir) .dir).isDirAt (n :: dir) = true := isDirAt_iff.2 hthere
  have htext := (lastStep_eq_ok.1 hlast).1
  refine ⟨n :: dir, hnone, rfl,
    resolveDir_eq_ok.2 ⟨resolve_eq_ok.2 ⟨htext, ?_, by simp [hdir]⟩, hdir⟩⟩
  rw [walk_steps_of_lastStep (hkeeps.lastStep hlast) hlong, hthere]
  rfl

theorem isDir_of_makeDir (h : d.makeDir p = .ok made) : made.isDir p = true := by
  obtain ⟨loc, -, -, hresolve⟩ := resolveDir_of_makeDir h
  exact isDir_iff_resolve.2 ⟨loc, resolveDir_eq_ok.1 hresolve⟩

theorem isDir_of_makeDirs {above : List Path} (h : d.makeDirs (p :: above) = (d', .ok ())) :
    d'.isDir p = true := by
  have hchecked {d₁ d₂ : Disk} {cause : Cause}
      (h : (d₁, if d₁.isDir p then .ok () else .error cause) = (d₂, Except.ok ())) :
      d₂.isDir p = true := by
    obtain ⟨rfl, h⟩ := Prod.mk.inj h
    split at h
    · assumption
    · cases h
  unfold makeDirs at h
  split at h
  · rename_i made hmade
    cases h
    exact isDir_of_makeDir hmade
  · split at h
    · cases h
    · split at h
      · rename_i made hmade
        cases h
        exact isDir_of_makeDir hmade
      · exact hchecked h
  · exact hchecked h

end Disk

namespace Staging

open Disk

variable {d d' d₀ : Disk} {target : Path} {bytes : Bytes}

/-- The directory of a target is there, and its path is not too long. -/
structure Stageable (d : Disk) (target : Path) : Prop where
  made : ∀ dir ∈ target.directory.ancestors.head?, d.isDir dir = true
  dir : ∃ loc, d.resolveDir target.directory = .ok loc
  text : checkText (tempPath d target.directory) = .ok ()

theorem Stageable.of_keepsDirs (h : Stageable d target) (hdirs : d.KeepsDirs d') :
    Stageable d' target where
  made dir hdir := hdirs.isDir (h.made dir hdir)
  dir := h.dir.imp fun _ hloc => hdirs.resolveDir hloc
  text := by
    have htext := h.text
    rwa [tempPath, ← hdirs.work] at htext

theorem writeTemp_of_resolveDir {dir : Path} {loc : Location} (hloc : d.resolveDir dir = .ok loc)
    (htext : checkText (tempPath d dir) = .ok ()) (bytes : Bytes) :
    ∃ d' name, writeTemp d dir bytes = .ok (d', name) := by
  rw [writeTemp, hloc, htext]
  exact ⟨_, _, rfl⟩

theorem resolveDir_of_writeTemp {dir : Path} {name : String}
    (h : writeTemp d dir bytes = .ok (d', name)) :
    ∃ loc, d.resolveDir dir = .ok loc ∧ checkText (tempPath d dir) = .ok () := by
  obtain ⟨loc, hloc, h⟩ := bind_eq_ok.1 h
  obtain ⟨_, htext, -⟩ := bind_eq_ok.1 h
  exact ⟨loc, hloc, htext⟩

theorem sameDirs_writeTemp {dir : Path} {name : String}
    (h : writeTemp d dir bytes = .ok (d', name)) : d.SameDirs d' := by
  obtain ⟨loc, n, -, -, hfree, rfl⟩ := writeTemp_eq_ok h
  refine ⟨rfl, fun other => ?_⟩
  change (d.set (name :: loc) (.file bytes)).isDirAt other = _
  by_cases heq : other = name :: loc
  · rw [heq, isDirAt, isDirAt, get?_set_self d _ (List.cons_ne_nil name loc), hfree]
    rfl
  · rw [isDirAt, isDirAt, get?_set_of_ne d _ heq]

theorem stageable_of_stage {s : Staged} (h : stage d target bytes = (d', .ok s)) :
    Stageable d' target := by
  obtain ⟨made, name, hm, hw, rfl⟩ := stage_eq_ok h
  obtain ⟨loc, hloc, htext⟩ := resolveDir_of_writeTemp hw
  have hmade : Stageable made target := by
    refine ⟨?_, ⟨loc, hloc⟩, htext⟩
    intro dir hdir
    obtain ⟨above, habove⟩ := List.head?_eq_some_iff.1 hdir
    rw [Disk.makeDirAll, habove] at hm
    exact isDir_of_makeDirs hm
  exact hmade.of_keepsDirs (sameDirs_writeTemp hw).keepsDirs

theorem Stageable.makeDirAll (h : Stageable d target) :
    d.makeDirAll target.directory = (d, .ok ()) := by
  unfold Disk.makeDirAll
  cases hdirs : target.directory.ancestors with
  | nil => rfl
  | cons dir above => exact makeDirs_of_isDir (h.made dir (by simp [hdirs])) above

theorem Stageable.stage (h : Stageable d target) (bytes : Bytes) :
    ∃ d' s, stage d target bytes = (d', .ok s) ∧ d.SameDirs d' := by
  obtain ⟨loc, hloc⟩ := h.dir
  obtain ⟨d', name, hwrite⟩ := writeTemp_of_resolveDir hloc h.text bytes
  refine ⟨d', ⟨target.directory, name, target⟩, ?_, sameDirs_writeTemp hwrite⟩
  unfold Staging.stage
  dsimp only
  rw [h.makeDirAll]
  dsimp only
  rw [hwrite]

theorem stageAll_of_stageable {files : List (Path × Bytes)} {staged : List Staged}
    (h : ∀ file ∈ files, Stageable d file.1) :
    ∃ d' all, stageAll d staged files = (d', .ok all) ∧ d.SameDirs d' := by
  induction files generalizing d staged with
  | nil => exact ⟨d, staged, rfl, .refl d⟩
  | cons file files ih =>
    obtain ⟨target, bytes⟩ := file
    rw [List.forall_mem_cons] at h
    obtain ⟨mid, s, hstage, hsame⟩ := h.1.stage bytes
    have hrest : ∀ file ∈ files, Stageable mid file.1 := fun file hfile =>
      (h.2 file hfile).of_keepsDirs hsame.keepsDirs
    obtain ⟨d', all, hall, hsame'⟩ := ih hrest
    exact ⟨d', all, stageAll_cons_eq_ok.2 ⟨mid, s, hstage, hall⟩, hsame.trans hsame'⟩

theorem stageable_of_stageAll {files : List (Path × Bytes)} {staged all : List Staged}
    (h : stageAll d staged files = (d', .ok all)) :
    d.KeepsDirs d' ∧ ∀ file ∈ files, Stageable d' file.1 := by
  induction files generalizing d staged with
  | nil =>
    cases h
    exact ⟨.refl _, by simp⟩
  | cons file files ih =>
    obtain ⟨target, bytes⟩ := file
    obtain ⟨mid, s, hstage, h⟩ := stageAll_cons_eq_ok.1 h
    obtain ⟨hdirs, hrest⟩ := ih h
    have hmid := (stage_ok hstage).1.grown.keepsDirs
    exact ⟨hmid.trans hdirs, List.forall_mem_cons.2
      ⟨(stageable_of_stage hstage).of_keepsDirs hdirs, hrest⟩⟩

theorem Prepared.get?_eq {ws : List Waiting} {loc : Location} (h : Prepared d₀ d ws)
    (hsame : d₀.SameDirs d) (hloc : loc ∉ ws.map Waiting.temp) : d.get? loc = d₀.get? loc := by
  cases hget : d.get? loc with
  | none => exact (h.grown.get?_eq_none hget).symm
  | some node =>
    cases node with
    | dir =>
      have hdir := hsame.isDirAt loc
      rw [isDirAt_iff.2 hget] at hdir
      exact (isDirAt_iff.1 hdir.symm).symm
    | file content => exact ((h.noOther loc content hget).resolve_right hloc).symm

/-- A commit succeeds if every target has a place and none is a directory. -/
theorem commitAfter_of_ready {ws : List Waiting} (done : List Path) (h : Ready d ws)
    (htargets : ∀ w ∈ ws, ∃ dest, d.place? w.staged.target = some dest ∧ d.isDirAt dest = false) :
    ∃ d' paths, commitAfter done d (ws.map Waiting.staged) = (d', .ok paths) := by
  induction ws generalizing d done with
  | nil => exact ⟨d, done, rfl⟩
  | cons w ws ih =>
    rw [List.forall_mem_cons] at htargets
    obtain ⟨⟨dest, hdest, hfree⟩, htargets⟩ := htargets
    obtain ⟨hplace, hfile⟩ := h.waiting w List.mem_cons_self
    obtain ⟨source, hsource, htemp⟩ := Staged.place?_eq_some.1 hplace
    have hrename := rename_eq_ok.2 ⟨source, dest, _, hsource, hdest, htemp ▸ hfile, hfree, rfl⟩
    obtain ⟨hready, hsame, -⟩ := h.rename hrename
    rw [List.map_cons, commitAfter, hrename]
    refine ih _ hready fun v hv => ?_
    rw [hsame.place?]
    obtain ⟨dest', hdest', hfree'⟩ := htargets v hv
    exact ⟨dest', hdest', (hsame.isDirAt dest').trans hfree'⟩

/-- No temporary file is left by a commit unless a target has its place. -/
theorem get?_temp_of_commitAfter {ws : List Waiting} {done paths : List Path} {w : Waiting}
    (h : Ready d ws) (hc : commitAfter done d (ws.map Waiting.staged) = (d', .ok paths))
    (hw : w ∈ ws) (htarget : ∀ v ∈ ws, d.place? v.staged.target ≠ some w.temp) :
    d'.get? w.temp = none := by
  induction ws generalizing d done with
  | nil => cases hw
  | cons v ws ih =>
    rw [List.map_cons] at hc
    obtain ⟨moved, hr, hc⟩ := commitAfter_cons_eq_ok.1 hc
    obtain ⟨hready, hsame, -⟩ := h.rename hr
    rw [List.forall_mem_cons, ← hsame.place?] at htarget
    rcases List.mem_cons.1 hw with rfl | hw
    · obtain ⟨hplace, hfile⟩ := h.waiting w List.mem_cons_self
      have hgone : moved.get? w.temp = none := by
        obtain ⟨dest, bytes, hdest, -, -, rfl⟩ :=
          rename_of_place? hplace (by simp [isDirAt, hfile]) hr
        refine get?_move_source ?_ (ne_nil_of_get?_ne_dir d (by simp [hfile]))
        rintro heq
        exact htarget.1 (by rw [hsame.place?, hdest, heq])
      rw [get?_commitAfter hready hc (List.nodup_cons.1 h.distinct).1 htarget.2, hgone]
    · exact ih hready hc hw htarget.2

end Staging

end SchemaModels
