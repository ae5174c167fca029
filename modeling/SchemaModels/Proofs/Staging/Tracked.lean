import SchemaModels.Proofs.Staging.Commit

namespace SchemaModels

open Text (Bytes)

def Staging.IsTempPlace (loc : Location) : Prop := ∃ n dir, loc = tempName n :: dir

/-- A path whose last step is a temporary name. -/
def Path.NamesTemp (p : Path) : Prop :=
  ∃ n, (Disk.steps p).getLast? = some (.name (Staging.tempName n))

/-- Temporary names end in a digit. -/
theorem Path.not_namesTemp {p : Path} {name : String}
    (hlast : (Disk.steps p).getLast? = some (.name name))
    (hname : name.toList.getLast?.any Char.isDigit = false) : ¬ p.NamesTemp := by
  rintro ⟨n, hn⟩
  rw [hlast, Option.some.injEq, Path.Component.name.injEq] at hn
  obtain ⟨c, hc, hdigit⟩ := Staging.getLast?_tempName n
  rw [hn, hc, Option.any_some, hdigit] at hname
  cases hname

namespace Disk

def IsTempFile (d : Disk) (loc : Location) : Prop :=
  Staging.IsTempPlace loc ∧ ∃ bytes, d.get? loc = some (.file bytes)

theorem not_isTempPlace_of_place? {d : Disk} {p : Path} {loc : Location} (h : ¬ p.NamesTemp)
    (hp : d.place? p = some loc) : ¬ Staging.IsTempPlace loc := by
  obtain ⟨dir, name, rfl, hlast, -⟩ := place?_eq_some.1 hp
  rintro ⟨n, above, heq⟩
  obtain ⟨rfl, -⟩ := List.cons.inj heq
  apply h
  refine ⟨n, ?_⟩
  have hstep := (lastStep_eq_ok.1 hlast).2.2.2
  cases hg : (steps p).getLast? with
  | none => simp [hg] at hstep
  | some c => rw [← hstep, hg, Option.getD_some]

end Disk

namespace Staging

open Disk

/-- A staged file waits beside its target under a temporary name. -/
structure Waiting.Waits (d : Disk) (w : Waiting) : Prop where
  name : ∃ n, w.staged.name = tempName n
  dir : w.staged.dir = w.staged.target.directory
  target : ¬ w.staged.target.NamesTemp
  place : w.staged.place? d = some w.temp
  content : d.get? w.temp = some (.file w.bytes)

theorem Waiting.Waits.isTempPlace {d : Disk} {w : Waiting} (h : w.Waits d) :
    IsTempPlace w.temp := by
  obtain ⟨n, hn⟩ := h.name
  obtain ⟨dir, -, hloc⟩ := Staged.place?_eq_some.1 h.place
  exact ⟨n, dir, hn ▸ hloc⟩

/-- The files that wait are all the temporary files on the disk, each once. -/
structure Tracks (d : Disk) (ws : List Waiting) : Prop where
  waits : ∀ w ∈ ws, w.Waits d
  distinct : (ws.map Waiting.temp).Nodup
  noOther : ∀ loc, d.IsTempFile loc → loc ∈ ws.map Waiting.temp

theorem Tracks.perm {d : Disk} {ws vs : List Waiting} (h : Tracks d ws) (hp : ws.Perm vs) :
    Tracks d vs where
  waits w hw := h.waits w (hp.mem_iff.2 hw)
  distinct := (hp.map Waiting.temp).nodup_iff.1 h.distinct
  noOther loc hloc := (hp.map Waiting.temp).mem_iff.1 (h.noOther loc hloc)

/-- Some files wait no longer once their temporary files are gone and no other one is touched. -/
theorem Tracks.release {d d' : Disk} (gone : List Waiting) {ws : List Waiting}
    (h : Tracks d (gone ++ ws)) (hdirs : d.KeepsDirs d')
    (hgone : ∀ loc ∈ gone.map Waiting.temp, ∀ bytes, d'.get? loc ≠ some (.file bytes))
    (hkept : ∀ loc, IsTempPlace loc → loc ∉ gone.map Waiting.temp → ∀ bytes,
      d'.get? loc = some (.file bytes) ↔ d.get? loc = some (.file bytes)) : Tracks d' ws := by
  have hdistinct := h.distinct
  rw [List.map_append, List.nodup_append] at hdistinct
  refine ⟨?_, hdistinct.2.1, ?_⟩
  · intro w hw
    have hwaits := h.waits w (List.mem_append_right gone hw)
    have hnot : w.temp ∉ gone.map Waiting.temp := by
      intro hmem
      exact hdistinct.2.2 _ hmem _ (List.mem_map_of_mem hw) rfl
    exact ⟨hwaits.name, hwaits.dir, hwaits.target, hdirs.stagedPlace? hwaits.place,
      (hkept _ hwaits.isTempPlace hnot _).2 hwaits.content⟩
  · rintro loc ⟨htemp, bytes, hfile⟩
    have hnot : loc ∉ gone.map Waiting.temp := fun hmem => hgone loc hmem bytes hfile
    have hmem := h.noOther loc ⟨htemp, bytes, (hkept loc htemp hnot bytes).1 hfile⟩
    rw [List.map_append, List.mem_append] at hmem
    exact hmem.resolve_left hnot

theorem Tracks.of_addsDirs {d d' : Disk} {ws : List Waiting} (h : Tracks d ws)
    (hdirs : d.AddsDirs d') : Tracks d' ws :=
  h.release [] hdirs.grown.keepsDirs (by simp) fun loc _ _ bytes =>
    ⟨hdirs.noNewFile loc bytes, hdirs.grown.get?⟩

theorem Tracks.eraseFiles {d : Disk} {gone ws : List Waiting} (locs : List Location)
    (h : Tracks d (gone ++ ws)) (hlocs : ∀ loc ∈ locs, ¬ IsTempPlace loc) :
    Tracks (d.eraseFiles (locs ++ gone.map Waiting.temp)) ws := by
  refine h.release gone (sameDirs_eraseFiles d _).keepsDirs ?_ ?_
  · intro loc hloc
    exact get?_eraseFiles_of_mem (List.mem_append_right locs hloc)
  · intro loc htemp hnot bytes
    rw [get?_eraseFiles_of_notMem]
    rw [List.mem_append, not_or]
    exact ⟨fun hmem => hlocs loc hmem htemp, hnot⟩

theorem Tracks.discard {d : Disk} {gone ws : List Waiting} (h : Tracks d (gone ++ ws)) :
    Tracks (discard d (gone.map Waiting.staged)) ws := by
  rw [discard_eq_eraseFiles fun w hw => (h.waits w (List.mem_append_left ws hw)).place]
  exact h.eraseFiles [] (by simp)

theorem Tracks.stage {d d' : Disk} {ws : List Waiting} {target : Path} {bytes : Bytes} {s : Staged}
    (h : Tracks d ws) (htarget : ¬ target.NamesTemp) (hs : stage d target bytes = (d', .ok s)) :
    ∃ temp, Tracks d' (⟨s, bytes, temp⟩ :: ws) := by
  obtain ⟨hstages, rfl⟩ := stage_ok hs
  obtain ⟨temp, hplace, hfree, hcontent, hother⟩ := hstages.place
  refine ⟨temp, List.forall_mem_cons.2 ⟨⟨hstages.name, dir_of_stage hs, htarget, hplace, hcontent⟩,
    ?_⟩, List.nodup_cons.2 ⟨?_, h.distinct⟩, ?_⟩
  · intro w hw
    have hwaits := h.waits w hw
    exact ⟨hwaits.name, hwaits.dir, hwaits.target,
      hstages.grown.keepsDirs.stagedPlace? hwaits.place, hstages.grown.get? hwaits.content⟩
  · -- The place was free, and those of the files that waited held them.
    intro hmem
    obtain ⟨w, hw, rfl⟩ := List.mem_map.1 hmem
    simp [(h.waits w hw).content] at hfree
  · rintro loc ⟨htemp, content, hfile⟩
    by_cases heq : loc = temp
    · exact heq ▸ List.mem_cons_self
    · exact List.mem_cons_of_mem temp (h.noOther loc ⟨htemp, content, hother loc content heq hfile⟩)

theorem Tracks.rename {d moved : Disk} {w : Waiting} {ws : List Waiting} (h : Tracks d (w :: ws))
    (hr : d.rename w.staged.dir w.staged.name w.staged.target = .ok moved) :
    Tracks moved ws ∧ d.SameDirs moved ∧
      ∃ dest, d.place? w.staged.target = some dest ∧ ¬ IsTempPlace dest := by
  have hwaits := h.waits w List.mem_cons_self
  obtain ⟨dest, bytes, hdest, hfile, hdir, rfl⟩ :=
    rename_of_place? hwaits.place (by simp [isDirAt, hwaits.content]) hr
  have hsame := sameDirs_move hfile hdir
  have hnot := not_isTempPlace_of_place? hwaits.target hdest
  have hne : w.temp ≠ dest := fun heq => hnot (heq ▸ hwaits.isTempPlace)
  refine ⟨h.release [w] hsame.keepsDirs ?_ ?_, hsame, dest, hdest, hnot⟩
  · intro loc hloc content
    rw [List.mem_singleton.1 hloc,
      get?_move_source hne (ne_nil_of_get?_ne_dir d (by simp [hfile]))]
    simp
  · intro loc htemp hloc content
    have hsource : loc ≠ w.temp := fun heq => hloc (List.mem_singleton.2 heq)
    have hto : loc ≠ dest := by
      rintro rfl
      exact hnot htemp
    rw [get?_move_of_ne hsource hto]

/-- No file that a commit takes waits after it, also when a rename fails. -/
theorem Tracks.commitAfter {d : Disk} {done : List Path} (locs : List Location)
    {picked ws : List Waiting} (h : Tracks d (picked ++ ws))
    (hdone : done.map d.place? = locs.map some) (hlocs : ∀ loc ∈ locs, ¬ IsTempPlace loc) :
    Tracks (commitAfter done d (picked.map Waiting.staged)).1 ws := by
  induction picked generalizing d done locs with
  | nil => exact h
  | cons w picked ih =>
    rw [List.map_cons, Staging.commitAfter]
    split
    · rename_i moved hr
      obtain ⟨hmoved, hsame, dest, hdest, hnot⟩ := h.rename hr
      refine ih (locs ++ [dest]) hmoved ?_ ?_
      · simp [hsame.place?, hdone, hdest]
      · simpa [or_imp, forall_and] using ⟨hlocs, hnot⟩
    · have hplaces : ∀ v ∈ w :: picked, v.staged.place? d = some v.temp := fun v hv =>
        (h.waits v (List.mem_append_left ws hv)).place
      rw [← List.map_cons (f := Waiting.staged), rollBack_eq_eraseFiles hdone hplaces]
      exact h.eraseFiles locs hlocs

theorem Tracks.commit {d : Disk} {picked ws : List Waiting} (h : Tracks d (picked ++ ws)) :
    Tracks (commit d (picked.map Waiting.staged)).1 ws :=
  h.commitAfter [] rfl (by simp)

theorem Tracks.stageAll {d : Disk} {picked ws : List Waiting} {files : List (Path × Bytes)}
    (h : Tracks d (picked ++ ws)) (hfiles : ∀ file ∈ files, ¬ file.1.NamesTemp) :
    ∃ all, Tracks (stageAll d (picked.map Waiting.staged) files).1 (all ++ ws) ∧
      ((stageAll d (picked.map Waiting.staged) files).2 = .ok (all.map Waiting.staged) ∨
        all = [] ∧ ∃ f, (stageAll d (picked.map Waiting.staged) files).2 = .error f) := by
  induction files generalizing d picked with
  | nil => exact ⟨picked, h, Or.inl rfl⟩
  | cons file files ih =>
    obtain ⟨target, bytes⟩ := file
    rw [List.forall_mem_cons] at hfiles
    rw [Staging.stageAll]
    split
    · rename_i mid f hstage
      have hmid := h.of_addsDirs (stage_error hstage).1
      exact ⟨[], hmid.discard, Or.inr ⟨rfl, f, rfl⟩⟩
    · rename_i mid s hstage
      obtain ⟨temp, hmid⟩ := h.stage hfiles.1 hstage
      have hperm : (⟨s, bytes, temp⟩ :: (picked ++ ws) : List Waiting).Perm
          ((picked ++ [⟨s, bytes, temp⟩]) ++ ws) := by
        rw [List.append_assoc]
        exact List.perm_middle.symm
      simpa using ih (hmid.perm hperm) hfiles.2

end Staging

end SchemaModels
