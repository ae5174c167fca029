import SchemaModels.Proofs.Disk.Names
import SchemaModels.Proofs.Staging.Fresh

namespace SchemaModels

open Text (Bytes)

def Staged.place? (d : Disk) (s : Staged) : Option Location :=
  match d.resolveDir s.dir with
  | .ok loc => some (s.name :: loc)
  | .error _ => none

theorem Staged.place?_eq_some {d : Disk} {s : Staged} {loc : Location} :
    s.place? d = some loc ↔ ∃ dir, d.resolveDir s.dir = .ok dir ∧ loc = s.name :: dir := by
  unfold Staged.place?
  cases d.resolveDir s.dir with
  | ok dir => simp [eq_comm]
  | error cause => simp

theorem Disk.KeepsDirs.stagedPlace? {d d' : Disk} (h : d.KeepsDirs d') {s : Staged}
    {loc : Location} (hp : s.place? d = some loc) : s.place? d' = some loc := by
  obtain ⟨dir, hr, rfl⟩ := Staged.place?_eq_some.1 hp
  exact Staged.place?_eq_some.2 ⟨dir, h.resolveDir hr, rfl⟩

namespace Staging

open Disk

theorem drop_of_place? {d : Disk} {s : Staged} {loc : Location} (h : s.place? d = some loc) :
    drop d s = d.eraseFile loc := by
  obtain ⟨dir, hr, rfl⟩ := Staged.place?_eq_some.1 h
  simp [drop, hr]

/-- What staging one file does: it may make directories, and it writes a file with a temporary
name at a place that was free. -/
structure Stages (d d' : Disk) (s : Staged) (bytes : Bytes) : Prop where
  grown : d.Extends d'
  name : ∃ n, s.name = tempName n
  place : ∃ loc, s.place? d' = some loc ∧ d.get? loc = none ∧ d'.get? loc = some (.file bytes) ∧
    ∀ other content, other ≠ loc → d'.get? other = some (.file content) →
      d.get? other = some (.file content)

theorem writeTemp_eq_ok {d d' : Disk} {dir : Path} {bytes : Bytes} {name : String}
    (h : writeTemp d dir bytes = .ok (d', name)) : ∃ loc n, d.resolveDir dir = .ok loc ∧
      name = tempName n ∧ d.get? (name :: loc) = none ∧
      d' = { d.set (name :: loc) (.file bytes) with tempCount := n + 1 } := by
  obtain ⟨loc, hloc, h⟩ := bind_eq_ok.1 h
  obtain ⟨_, -, h⟩ := bind_eq_ok.1 h
  cases h
  refine ⟨loc, _, hloc, rfl, ?_, rfl⟩
  rw [← Option.not_isSome_iff_eq_none, ← Disk.mem_children_iff]
  exact tempName_freshNumber_notMem _ _

theorem stage_eq_ok {d d' : Disk} {target : Path} {bytes : Bytes} {s : Staged}
    (h : stage d target bytes = (d', .ok s)) :
    ∃ made name, d.makeDirAll target.directory = (made, .ok ()) ∧
      writeTemp made target.directory bytes = .ok (d', name) ∧
      s = ⟨target.directory, name, target⟩ := by
  unfold stage at h
  dsimp only at h
  split at h
  · cases h
  · rename_i made hm
    split at h
    · cases h
    · rename_i written name hw
      cases h
      exact ⟨made, name, hm, hw, rfl⟩

/-- A failure to stage leaves the directories that were made. -/
theorem stage_eq_error {d d' : Disk} {target : Path} {bytes : Bytes} {f : Failure}
    (h : stage d target bytes = (d', .error f)) :
    d' = (d.makeDirAll target.directory).1 ∧ ∃ cause, f = .write target.directory cause := by
  unfold stage at h
  dsimp only at h
  split at h
  · rename_i made cause hm
    cases h
    exact ⟨by rw [hm], cause, rfl⟩
  · rename_i made hm
    split at h
    · rename_i cause hw
      cases h
      exact ⟨by rw [hm], cause, rfl⟩
    · cases h

theorem stage_ok {d d' : Disk} {target : Path} {bytes : Bytes} {s : Staged}
    (h : stage d target bytes = (d', .ok s)) : Stages d d' s bytes ∧ s.target = target := by
  obtain ⟨made, name, hm, hw, rfl⟩ := stage_eq_ok h
  have hmade := addsDirs_makeDirs (d := d) target.directory.ancestors
  rw [show d.makeDirs target.directory.ancestors = (made, .ok ()) from hm] at hmade
  obtain ⟨loc, n, hloc, hname, hfree, rfl⟩ := writeTemp_eq_ok hw
  have hgrown : made.Extends { made.set (name :: loc) (.file bytes) with tempCount := n + 1 } :=
    ⟨rfl, (extends_set hfree).get?⟩
  refine ⟨⟨hmade.grown.trans hgrown, ⟨n, hname⟩, name :: loc, ?_, ?_, ?_, ?_⟩, rfl⟩
  · exact Staged.place?_eq_some.2 ⟨loc, hgrown.keepsDirs.resolveDir hloc, rfl⟩
  · exact hmade.grown.get?_eq_none hfree
  · exact get?_set_self made (.file bytes) (by simp)
  · intro other content hne hfile
    apply hmade.noNewFile other content
    rwa [← get?_set_of_ne made (.file bytes) hne]

theorem dir_of_stage {d d' : Disk} {target : Path} {bytes : Bytes} {s : Staged}
    (h : stage d target bytes = (d', .ok s)) : s.dir = target.directory := by
  obtain ⟨made, name, -, -, rfl⟩ := stage_eq_ok h
  rfl

theorem stage_error {d d' : Disk} {target : Path} {bytes : Bytes} {f : Failure}
    (h : stage d target bytes = (d', .error f)) :
    d.AddsDirs d' ∧ ∃ cause, f = .write target.directory cause := by
  obtain ⟨hmade, hf⟩ := stage_eq_error h
  rw [hmade]
  exact ⟨addsDirs_makeDirs target.directory.ancestors, hf⟩

/-- A staged file with its bytes and the place of its temporary file. -/
structure Waiting where
  staged : Staged
  bytes : Bytes
  temp : Location

def Waiting.file (w : Waiting) : Path × Bytes := (w.staged.target, w.bytes)

theorem discard_eq_eraseFiles {d : Disk} {ws : List Waiting}
    (h : ∀ w ∈ ws, w.staged.place? d = some w.temp) :
    discard d (ws.map Waiting.staged) = d.eraseFiles (ws.map Waiting.temp) := by
  apply foldl_eq_eraseFiles drop (fun d s => s.place? d) drop_of_place?
    (fun hk hp => hk.stagedPlace? hp)
  rw [List.map_map, List.map_map]
  exact List.map_congr_left h

/-- The temporary file lies where nothing was on the first disk and holds the bytes. -/
structure Waiting.Holds (d₀ d : Disk) (w : Waiting) : Prop where
  name : ∃ n, w.staged.name = tempName n
  place : w.staged.place? d = some w.temp
  free : d₀.get? w.temp = none
  content : d.get? w.temp = some (.file w.bytes)

/-- Some files are staged since the first disk, and no other file is new. -/
structure Prepared (d₀ d : Disk) (ws : List Waiting) : Prop where
  grown : d₀.Extends d
  holds : ∀ w ∈ ws, w.Holds d₀ d
  distinct : (ws.map Waiting.temp).Nodup
  noOther : ∀ loc bytes, d.get? loc = some (.file bytes) →
    d₀.get? loc = some (.file bytes) ∨ loc ∈ ws.map Waiting.temp

theorem prepared_nil (d : Disk) : Prepared d d [] where
  grown := .refl d
  holds := by simp
  distinct := .nil
  noOther := fun _ _ => Or.inl

theorem Waiting.Holds.of_extends {d₀ d d' : Disk} {w : Waiting} (h : w.Holds d₀ d)
    (hgrown : d.Extends d') : w.Holds d₀ d' where
  name := h.name
  place := hgrown.keepsDirs.stagedPlace? h.place
  free := h.free
  content := hgrown.get? h.content

theorem Prepared.of_addsDirs {d₀ d d' : Disk} {ws : List Waiting} (h : Prepared d₀ d ws)
    (hdirs : d.AddsDirs d') : Prepared d₀ d' ws where
  grown := h.grown.trans hdirs.grown
  holds w hw := (h.holds w hw).of_extends hdirs.grown
  distinct := h.distinct
  noOther loc bytes hf := h.noOther loc bytes (hdirs.noNewFile loc bytes hf)

theorem Prepared.stage {d₀ d d' : Disk} {ws : List Waiting} {s : Staged} {bytes : Bytes}
    (h : Prepared d₀ d ws) (hs : Stages d d' s bytes) :
    ∃ temp, Prepared d₀ d' (ws ++ [⟨s, bytes, temp⟩]) := by
  obtain ⟨temp, hplace, hfree, hcontent, hother⟩ := hs.place
  refine ⟨temp, h.grown.trans hs.grown, ?_, ?_, ?_⟩
  · intro w hw
    rcases List.mem_append.1 hw with hold | hnew
    · exact (h.holds w hold).of_extends hs.grown
    · rw [List.mem_singleton.1 hnew]
      exact ⟨hs.name, hplace, h.grown.get?_eq_none hfree, hcontent⟩
  · rw [List.map_append, List.nodup_append]
    refine ⟨h.distinct, by simp, ?_⟩
    intro loc hloc new hnew
    obtain ⟨w, hw, rfl⟩ := List.mem_map.1 hloc
    rw [List.mem_singleton.1 hnew]
    -- The new place was free while the older ones hold their files.
    intro heq
    have hfile := (h.holds w hw).content
    simp [heq, hfree] at hfile
  · intro loc content hf
    rw [List.map_append, List.mem_append]
    by_cases heq : loc = temp
    · exact Or.inr (Or.inr (by simp [heq]))
    · exact (h.noOther loc content (hother loc content heq hf)).imp_right Or.inl

/-- Discarding all that is staged leaves the files that were there first. -/
theorem Prepared.discard {d₀ d : Disk} {ws : List Waiting} (h : Prepared d₀ d ws) :
    d₀.NoNewFile (discard d (ws.map Waiting.staged)) ∧
      d₀.LosesOnly (Staging.discard d (ws.map Waiting.staged)) [] := by
  rw [discard_eq_eraseFiles fun w hw => (h.holds w hw).place]
  refine ⟨?_, ?_, by simp⟩
  · intro loc bytes hf
    have hno : loc ∉ ws.map Waiting.temp := fun hmem => get?_eraseFiles_of_mem hmem bytes hf
    rw [get?_eraseFiles_of_notMem hno] at hf
    exact (h.noOther loc bytes hf).resolve_right hno
  · intro loc bytes hf _
    rw [get?_eraseFiles_of_notMem]
    · exact h.grown.get? hf
    · intro hmem
      obtain ⟨w, hw, rfl⟩ := List.mem_map.1 hmem
      simp [(h.holds w hw).free] at hf

theorem stageAll_cons_eq_ok {d d' : Disk} {done staged : List Staged} {target : Path}
    {bytes : Bytes} {rest : List (Path × Bytes)} :
    stageAll d done ((target, bytes) :: rest) = (d', .ok staged) ↔ ∃ mid s,
      stage d target bytes = (mid, .ok s) ∧
        stageAll mid (done ++ [s]) rest = (d', .ok staged) := by
  rw [stageAll]
  rcases stage d target bytes with ⟨mid, f | s⟩
  · simp
  · simp

theorem stageAll_cons_eq_error {d d' : Disk} {done : List Staged} {target : Path} {bytes : Bytes}
    {rest : List (Path × Bytes)} {f : Failure} :
    stageAll d done ((target, bytes) :: rest) = (d', .error f) ↔
      (∃ mid, stage d target bytes = (mid, .error f) ∧ d' = discard mid done) ∨
      ∃ mid s, stage d target bytes = (mid, .ok s) ∧
        stageAll mid (done ++ [s]) rest = (d', .error f) := by
  rw [stageAll]
  rcases stage d target bytes with ⟨mid, f' | s⟩
  · simp [eq_comm, and_comm]
  · simp

theorem stageAll_ok {d₀ d d' : Disk} {ws : List Waiting} {files : List (Path × Bytes)}
    {staged : List Staged} (h : Prepared d₀ d ws)
    (hs : stageAll d (ws.map Waiting.staged) files = (d', .ok staged)) :
    ∃ more, Prepared d₀ d' (ws ++ more) ∧ staged = (ws ++ more).map Waiting.staged ∧
      more.map Waiting.file = files := by
  induction files generalizing d ws with
  | nil =>
    cases hs
    exact ⟨[], by simpa using h, by simp, rfl⟩
  | cons file files ih =>
    obtain ⟨target, bytes⟩ := file
    obtain ⟨mid, s, hstage, hs⟩ := stageAll_cons_eq_ok.1 hs
    obtain ⟨hstages, htarget⟩ := stage_ok hstage
    obtain ⟨temp, hmid⟩ := h.stage hstages
    obtain ⟨more, hprep, hall, hfiles⟩ := ih hmid (by simpa using hs)
    refine ⟨⟨s, bytes, temp⟩ :: more, by simpa using hprep, by simpa using hall, ?_⟩
    rw [List.map_cons, hfiles, Waiting.file, htarget]

theorem stageAll_error {d₀ d d' : Disk} {ws : List Waiting} {files : List (Path × Bytes)}
    {f : Failure} (h : Prepared d₀ d ws)
    (hs : stageAll d (ws.map Waiting.staged) files = (d', .error f)) :
    d₀.NoNewFile d' ∧ d₀.LosesOnly d' [] ∧ ∃ dir cause, f = .write dir cause := by
  induction files generalizing d ws with
  | nil => cases hs
  | cons file files ih =>
    obtain ⟨target, bytes⟩ := file
    rcases stageAll_cons_eq_error.1 hs with ⟨mid, hstage, rfl⟩ | ⟨mid, s, hstage, hs⟩
    · obtain ⟨hdirs, cause, rfl⟩ := stage_error hstage
      obtain ⟨hno, hkeep⟩ := (h.of_addsDirs hdirs).discard
      exact ⟨hno, hkeep, _, cause, rfl⟩
    · obtain ⟨temp, hmid⟩ := h.stage (stage_ok hstage).1
      exact ih hmid (by simpa using hs)

end Staging

end SchemaModels
