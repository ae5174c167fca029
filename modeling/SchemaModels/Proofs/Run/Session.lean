import Mathlib.Logic.Relation
import SchemaModels.Proofs.Run.Written
import SchemaModels.Proofs.Staging.Tracked

namespace SchemaModels

open Text (Bytes)

structure Session where
  disk : Disk
  pending : List (Staged × Bytes)

namespace Session

/-- A file that cannot be staged does not become one that waits. -/
def stage (s : Session) (target : Path) (bytes : Bytes) : Session :=
  match Staging.stage s.disk target bytes with
  | (d, .ok staged) => ⟨d, s.pending ++ [(staged, bytes)]⟩
  | (d, .error _) => { s with disk := d }

/-- One step, whether it fails or not. No file is written under a temporary name as its own. -/
inductive Step (s : Session) : Session → Prop
  | stage (target : Path) (bytes : Bytes) (h : ¬ target.NamesTemp) : Step s (s.stage target bytes)
  | stageModel (dir : Path) (fileName contents : String) (h : ¬ (dir.join fileName).NamesTemp) :
    Step s (s.stage (dir.join fileName) (Text.encode contents.toList))
  | stageReport (path : Path) (tables : List Table) (h : ¬ path.NamesTemp) :
    Step s (s.stage path (Text.encode (Diagnostics.text tables).toList))
  | commit (picked rest : List (Staged × Bytes)) (h : s.pending.Perm (picked ++ rest)) :
    Step s ⟨(Staging.commit s.disk (picked.map Prod.fst)).1, rest⟩
  | drop (picked rest : List (Staged × Bytes)) (h : s.pending.Perm (picked ++ rest)) :
    Step s ⟨Staging.discard s.disk (picked.map Prod.fst), rest⟩
  | writeAtomic (target : Path) (bytes : Bytes) (h : ¬ target.NamesTemp) :
    Step s { s with disk := (Staging.writeAtomic s.disk target bytes).1 }
  | writeModel (dir : Path) (fileName contents : String) (h : ¬ (dir.join fileName).NamesTemp) :
    Step s { s with disk := (Staging.writeModel s.disk dir fileName contents).1 }
  | emit (m : Model) (dir : Path) (h : ¬ (dir.join (Name.modelFile m.table)).NamesTemp) :
    Step s { s with
      disk := (Staging.writeModel s.disk dir (Name.modelFile m.table) m.source).1 }
  | run (settings : Settings) (dry : Bool)
    (h : dry = false → ∀ path, settings.report? = some path → ¬ path.NamesTemp) :
    Step s { s with disk := (SchemaModels.run s.disk settings dry).1 }

/-- The temporary files on the disk are those of the staged files, one for each: in the directory
of its target, under its name, with the bytes that were staged. -/
def Tracked (s : Session) : Prop :=
  ∃ locs : List Location, locs.Nodup ∧ (∀ loc, s.disk.IsTempFile loc ↔ loc ∈ locs) ∧
    List.Forall₂ (fun file loc =>
      (∃ dir, s.disk.resolveDir file.1.target.directory = .ok dir ∧ loc = file.1.name :: dir) ∧
        s.disk.get? loc = some (.file file.2)) s.pending locs

def entry (w : Staging.Waiting) : Staged × Bytes := (w.staged, w.bytes)

/-- The staged files of a session, with the places of their temporary files. -/
structure Waits (s : Session) (ws : List Staging.Waiting) : Prop where
  pending : s.pending = ws.map entry
  tracks : Staging.Tracks s.disk ws

theorem Waits.tracked {s : Session} {ws : List Staging.Waiting} (h : s.Waits ws) : s.Tracked := by
  refine ⟨ws.map Staging.Waiting.temp, h.tracks.distinct, ?_, ?_⟩
  · intro loc
    constructor
    · exact h.tracks.noOther loc
    · intro hmem
      obtain ⟨w, hw, rfl⟩ := List.mem_map.1 hmem
      have hwaits := h.tracks.waits w hw
      exact ⟨hwaits.isTempPlace, w.bytes, hwaits.content⟩
  · rw [h.pending, List.forall₂_map_left_iff, List.forall₂_map_right_iff, List.forall₂_same]
    intro w hw
    have hwaits := h.tracks.waits w hw
    obtain ⟨dir, hdir, hloc⟩ := Staged.place?_eq_some.1 hwaits.place
    exact ⟨⟨dir, hwaits.dir ▸ hdir, hloc⟩, hwaits.content⟩

theorem Waits.stage {s : Session} {ws : List Staging.Waiting} (h : s.Waits ws) {target : Path}
    (htarget : ¬ target.NamesTemp) (bytes : Bytes) : ∃ vs, (s.stage target bytes).Waits vs := by
  unfold Session.stage
  split
  · rename_i d staged hstage
    obtain ⟨temp, htracks⟩ := h.tracks.stage htarget hstage
    refine ⟨ws ++ [⟨staged, bytes, temp⟩], ?_, ?_⟩
    · simp [h.pending, entry]
    · exact htracks.perm (List.perm_append_singleton _ ws).symm
  · rename_i d f hstage
    exact ⟨ws, h.pending, h.tracks.of_addsDirs (Staging.stage_error hstage).1⟩

/-- Whatever files are picked from those that are staged, and in whatever order. -/
theorem Waits.pick {s : Session} {ws : List Staging.Waiting} (h : s.Waits ws)
    {picked rest : List (Staged × Bytes)} (hpick : s.pending.Perm (picked ++ rest)) :
    ∃ ps rs, picked.map Prod.fst = ps.map Staging.Waiting.staged ∧ rest = rs.map entry ∧
      Staging.Tracks s.disk (ps ++ rs) := by
  rw [h.pending] at hpick
  have hmap : ∃ vs : List Staging.Waiting, picked ++ rest = vs.map entry ∧ vs.Perm ws :=
    (congrFun₂ (List.eq_map_comp_perm entry) (picked ++ rest) ws).mpr hpick.symm
  obtain ⟨vs, heq, hperm⟩ := hmap
  obtain ⟨ps, rs, rfl, rfl, rfl⟩ := List.map_eq_append_iff.1 heq.symm
  exact ⟨ps, rs, by rw [List.map_map]; rfl, rfl, h.tracks.perm hperm.symm⟩

theorem tracks_writeAtomic {d : Disk} {ws : List Staging.Waiting} (h : Staging.Tracks d ws)
    {target : Path} (htarget : ¬ target.NamesTemp) (bytes : Bytes) :
    Staging.Tracks (Staging.writeAtomic d target bytes).1 ws := by
  unfold Staging.writeAtomic
  split
  · rename_i d' f hstage
    exact h.of_addsDirs (Staging.stage_error hstage).1
  · rename_i d' staged hstage
    obtain ⟨temp, htracks⟩ := h.stage htarget hstage
    have hone : Staging.Tracks d' ([⟨staged, bytes, temp⟩] ++ ws) := htracks
    have hcommit : Staging.Tracks (Staging.commit d' [staged]).1 ws := hone.commit
    split <;> rename_i hc <;> rwa [hc] at hcommit

theorem tracks_writeModel {d : Disk} {ws : List Staging.Waiting} (h : Staging.Tracks d ws)
    {dir : Path} {fileName : String} (htarget : ¬ (dir.join fileName).NamesTemp)
    (contents : String) : Staging.Tracks (Staging.writeModel d dir fileName contents).1 ws := by
  have hwrite := tracks_writeAtomic h htarget (Text.encode contents.toList)
  unfold Staging.writeModel
  dsimp only
  split <;> rename_i hw <;> rwa [hw] at hwrite

end Session

theorem Run.not_namesTemp_modelPath (s : Settings) {t : Table}
    (h : ∀ c ∈ t.names.text.toList, Text.isWord c = true) : ¬ (modelPath s t).NamesTemp :=
  Path.not_namesTemp (Disk.getLast?_steps_join (Name.isPlainName_modelFile h))
    (by rw [Name.getLast?_modelFile]; rfl)

theorem Run.not_namesTemp_of_mem_files {s : Settings} {tables : List Table}
    (hnames : NamedApart tables)
    (hreport : ∀ path, s.report? = some path → ¬ path.NamesTemp) :
    ∀ file ∈ files s tables, ¬ file.1.NamesTemp := by
  intro file hfile
  rw [files_eq, List.mem_append] at hfile
  rcases hfile with hmodel | hlast
  · obtain ⟨t, ht, rfl⟩ := List.mem_map.1 hmodel
    exact not_namesTemp_modelPath s (hnames.isWord t (List.mem_filter.1 ht).1)
  · obtain ⟨path, hpath, rfl⟩ := List.mem_map.1 hlast
    exact hreport path (by simpa using hpath)

theorem Run.tracks_write {d : Disk} {ws : List Staging.Waiting} (h : Staging.Tracks d ws)
    {s : Settings} {tables : List Table} (hfiles : ∀ file ∈ files s tables, ¬ file.1.NamesTemp) :
    Staging.Tracks (write d s tables).1 ws := by
  have hnone : Staging.Tracks d ([] ++ ws) := h
  obtain ⟨all, htracks, hall⟩ := hnone.stageAll hfiles
  rw [List.map_nil] at htracks hall
  rcases disk_write d s tables with ⟨f, hstage⟩ | ⟨mid, staged, hstage, heq⟩
  · rw [hstage] at htracks hall
    rcases hall with hok | ⟨rfl, -⟩
    · cases hok
    · exact htracks
  · rw [hstage] at htracks hall
    rcases hall with hok | ⟨-, f, hf⟩
    · cases hok
      rw [heq]
      exact htracks.commit
    · cases hf

theorem tracks_run {d : Disk} {ws : List Staging.Waiting} (h : Staging.Tracks d ws) {s : Settings}
    {dry : Bool} (hreport : dry = false → ∀ path, s.report? = some path → ¬ path.NamesTemp) :
    Staging.Tracks (run d s dry).1 ws := by
  rcases disk_run d s dry with heq | ⟨hdry, tables, htables, heq⟩
  · rwa [heq]
  · rw [heq]
    exact Run.tracks_write h (Run.not_namesTemp_of_mem_files (Run.namedApart_of_tables htables)
      (hreport hdry))

namespace Session

/-- Every step keeps the account of the temporary files. -/
theorem Waits.step {s t : Session} {ws : List Staging.Waiting} (h : s.Waits ws) (hstep : s.Step t) :
    ∃ vs, t.Waits vs := by
  cases hstep with
  | stage target bytes htarget => exact h.stage htarget bytes
  | stageModel dir fileName contents htarget => exact h.stage htarget _
  | stageReport path tables hpath => exact h.stage hpath _
  | commit picked rest hpick =>
    obtain ⟨ps, rs, hpicked, hrest, htracks⟩ := h.pick hpick
    exact ⟨rs, hrest, hpicked ▸ htracks.commit⟩
  | drop picked rest hpick =>
    obtain ⟨ps, rs, hpicked, hrest, htracks⟩ := h.pick hpick
    exact ⟨rs, hrest, hpicked ▸ htracks.discard⟩
  | writeAtomic target bytes htarget =>
    exact ⟨ws, h.pending, tracks_writeAtomic h.tracks htarget bytes⟩
  | writeModel dir fileName contents htarget =>
    exact ⟨ws, h.pending, tracks_writeModel h.tracks htarget contents⟩
  | emit m dir htarget => exact ⟨ws, h.pending, tracks_writeModel h.tracks htarget m.source⟩
  | run settings dry hreport => exact ⟨ws, h.pending, tracks_run h.tracks hreport⟩

theorem waits_of_steps {s t : Session} (hstart : ∃ ws, s.Waits ws)
    (h : Relation.ReflTransGen Step s t) : ∃ ws, t.Waits ws := by
  induction h with
  | refl => exact hstart
  | tail _ hstep ih =>
    obtain ⟨ws, hws⟩ := ih
    exact hws.step hstep

theorem waits_nil {d : Disk} (h : ∀ loc, ¬ d.IsTempFile loc) : Waits ⟨d, []⟩ [] where
  pending := rfl
  tracks := ⟨by simp, .nil, fun loc hloc => absurd hloc (h loc)⟩

/-- From a disk without temporary files on, the temporary files are after every step those of the
files that are staged. None is left once all are committed or dropped. There are no symbolic links
on a disk, which could take a temporary file out of reach. -/
theorem tracked_of_steps {d : Disk} {s : Session} (hstart : ∀ loc, ¬ d.IsTempFile loc)
    (h : Relation.ReflTransGen Step ⟨d, []⟩ s) :
    s.Tracked ∧ (s.pending = [] → ∀ loc, ¬ s.disk.IsTempFile loc) := by
  obtain ⟨ws, hws⟩ := waits_of_steps ⟨[], waits_nil hstart⟩ h
  refine ⟨hws.tracked, ?_⟩
  intro hnone loc hloc
  have hempty : ws = [] := List.map_eq_nil_iff.1 (hws.pending.symm.trans hnone)
  subst hempty
  exact List.not_mem_nil (hws.tracks.noOther loc hloc)

def twoStaged : Session :=
  ((⟨Disk.startAt [], []⟩ : Session).stage ⟨"out/a"⟩ [0x61]).stage ⟨"out/b"⟩ [0x62]

/-- The second one is committed before the first. -/
theorem twoStaged_tracked : ∃ s, Relation.ReflTransGen Step ⟨Disk.startAt [], []⟩ s ∧
    s.disk.get? ["b", "out"] = some (.file [0x62]) ∧ s.pending.length = 1 ∧ s.Tracked := by
  have hclean : ∀ loc, ¬ (Disk.startAt []).IsTempFile loc := by
    rintro loc ⟨⟨n, dir, rfl⟩, bytes, hfile⟩
    cases hfile
  have hsteps : Relation.ReflTransGen Step ⟨Disk.startAt [], []⟩ twoStaged :=
    .tail (.tail .refl (.stage _ _ (Path.not_namesTemp rfl rfl)))
      (.stage _ _ (Path.not_namesTemp rfl rfl))
  have hpick : twoStaged.pending.Perm (twoStaged.pending.drop 1 ++ twoStaged.pending.take 1) := by
    conv_lhs => rw [← List.take_append_drop 1 twoStaged.pending]
    exact List.perm_append_comm
  have hcommitted := hsteps.tail (.commit _ _ hpick)
  exact ⟨_, hcommitted, by decide +kernel, by decide +kernel,
    (tracked_of_steps hclean hcommitted).1⟩

end Session

end SchemaModels
