import SchemaModels.Proofs.Glob.Reading
import SchemaModels.Proofs.Glob.Trail

namespace SchemaModels

namespace Disk

variable {d d' : Disk} {loc dest : Location} {p : Path}

/-- Directories stay directories and files stay files, whatever they hold. -/
structure KeepsKinds (d d' : Disk) : Prop where
  work : d'.work = d.work
  dir : ∀ {loc}, d.get? loc = some .dir → d'.get? loc = some .dir
  file : ∀ {loc bytes}, d.get? loc = some (.file bytes) →
    ∃ bytes', d'.get? loc = some (.file bytes')

theorem KeepsKinds.keepsDirs (h : d.KeepsKinds d') : d.KeepsDirs d' :=
  ⟨h.work, fun hdir => isDirAt_iff.2 (h.dir (isDirAt_iff.1 hdir))⟩

theorem KeepsKinds.isSome (h : d.KeepsKinds d') (hthere : (d.get? loc).isSome = true) :
    (d'.get? loc).isSome = true := by
  obtain ⟨node, hnode⟩ := Option.isSome_iff_exists.1 hthere
  cases node with
  | dir => simp [h.dir hnode]
  | file bytes =>
    obtain ⟨bytes', hfile⟩ := h.file hnode
    simp [hfile]

theorem KeepsKinds.walk (h : d.KeepsKinds d') {cs : List Path.Component}
    (hw : d.walk loc cs = .ok dest) : d'.walk loc cs = .ok dest :=
  h.keepsDirs.walk_of_isSome hw h.isSome

theorem KeepsKinds.resolve (h : d.KeepsKinds d') (hr : d.resolve p = .ok loc) :
    d'.resolve p = .ok loc :=
  h.keepsDirs.resolve hr h.isSome

theorem KeepsKinds.isFile (h : d.KeepsKinds d') (hp : d.isFile p = true) : d'.isFile p = true := by
  obtain ⟨loc, bytes, hr, hfile⟩ := isFile_iff_resolve.1 hp
  obtain ⟨bytes', hfile'⟩ := h.file hfile
  exact isFile_iff_resolve.2 ⟨loc, bytes', h.resolve hr, hfile'⟩

theorem isSome_node?_iff :
    (d.node? p).isSome = true ↔ ∃ loc, d.resolve p = .ok loc ∧ (d.get? loc).isSome = true := by
  rw [node?]
  cases d.resolve p <;> simp

theorem KeepsKinds.isSome_node? (h : d.KeepsKinds d') (hp : (d.node? p).isSome = true) :
    (d'.node? p).isSome = true := by
  obtain ⟨loc, hr, hthere⟩ := isSome_node?_iff.1 hp
  exact isSome_node?_iff.2 ⟨loc, h.resolve hr, h.isSome hthere⟩

/-- A directory on the way to a file was one before the disk grew. -/
theorem KeepsKinds.isDirWay_of_file (h : d.KeepsKinds d') {more : List Path.Component}
    {bytes : Text.Bytes} (hp : d'.IsDirWay p) (hw : d.walk (d.origin p) (way p ++ more) = .ok dest)
    (hfile : d.get? dest = some (.file bytes)) : d.IsDirWay p := by
  rw [walk_append] at hw
  obtain ⟨mid, hmid, hmore⟩ := bind_eq_ok.1 hw
  obtain ⟨loc, hloc, hdir⟩ := hp
  rw [h.keepsDirs.origin, h.walk hmid] at hloc
  cases hloc
  refine ⟨mid, hmid, ?_⟩
  -- The walk goes on from the directory, or the file would be the directory.
  cases more with
  | nil =>
    cases hmore
    obtain ⟨bytes', hfile'⟩ := h.file hfile
    simp [isDirAt, hfile'] at hdir
  | cons c cs =>
    exact (walk_cons_eq_ok.1 hmore).1

end Disk

namespace Glob

open Disk

variable {d d' : Disk} {w : Bool} {path next dest : Path} {p : Pattern}
  {ps rest left : List Pattern} {name : String} {s : Step} {t : List Step}

theorem Takes.of_keepsKinds (h : d.KeepsKinds d') {goesOn : Bool}
    (ht : Takes d p rest next name goesOn left) : Takes d' p rest next name goesOn left := by
  cases ht with
  | wildcard hp hname => exact .wildcard hp hname
  | leave hp hrest hname => exact .leave hp hrest hname
  | directory hp hrest hdir => exact .directory hp hrest (h.keepsDirs.isDir hdir)
  | deepen hp hdir => exact .deepen hp (h.keepsDirs.isDir hdir)

theorem isThere_mono (hdir : d.isDir path = true → d'.isDir path = true)
    (hnode : (d.node? (below path name)).isSome = true → (d'.node? (below path name)).isSome = true)
    (h : isThere d path name = true) : isThere d' path name = true := by
  unfold isThere at h ⊢
  split at h
  · rename_i hdot
    rw [if_pos hdot]
    exact hdir h
  · rename_i hdot
    rw [if_neg hdot]
    exact hnode h

theorem Move.of_keepsKinds (h : d.KeepsKinds d') (hmove : Move d path ps s next rest) :
    Move d' path ps s next rest := by
  cases hmove with
  | literal hp hthere =>
    exact .literal hp (isThere_mono h.keepsDirs.isDir h.isSome_node? hthere)
  | dots hp hdir hs => exact .dots hp (h.keepsDirs.isDir hdir) hs
  | child hp hdir hname ht =>
    obtain ⟨loc, hloc, hmem⟩ := mem_childNames.1 hname
    refine .child hp (h.keepsDirs.isDir hdir) (mem_childNames.2 ⟨loc, h.resolve hloc, ?_⟩)
      (ht.of_keepsKinds h)
    exact mem_children_iff.2 (h.isSome (mem_children_iff.1 hmem))

theorem Leads.of_keepsKinds (h : d.KeepsKinds d') (hl : Leads d w path ps t dest) :
    Leads d' w path ps t dest := by
  induction hl with
  | last hmove hdir => exact .last (hmove.of_keepsKinds h) fun hw => h.keepsDirs.isDir (hdir hw)
  | step hmove hrest _ ih => exact .step (hmove.of_keepsKinds h) hrest ih

theorem Move.isDirWay (hps : ∀ p ∈ ps, SlashFree p) (hmove : Move d path ps s next rest) :
    d.IsDirWay path := by
  cases hmove with
  | literal hp hthere =>
    unfold isThere at hthere
    split at hthere
    · exact (isDir_iff.1 hthere).2
    · obtain ⟨loc, hr, -⟩ := isSome_node?_iff.1 hthere
      exact isDirWay_of_resolve_below (hps _ List.mem_cons_self _ hp) hr
  | dots hp hdir hs => exact (isDir_iff.1 hdir).2
  | child hp hdir hname ht => exact (isDir_iff.1 hdir).2

theorem Move.noSlash (h : d.WellNamed) (hps : ∀ p ∈ ps, SlashFree p)
    (hmove : Move d path ps s next rest) : '/' ∉ s.name.toList := by
  cases hmove with
  | literal hp hthere => exact hps _ List.mem_cons_self _ hp
  | dots hp hdir hs =>
    rcases isDotName_of_mem_special hs with rfl | rfl <;> decide
  | child hp hdir hname ht => exact (isPlainName_of_mem_childNames h hname).noSlash

theorem Move.way_eq (h : d.WellNamed) (hps : ∀ p ∈ ps, SlashFree p)
    (hmove : Move d path ps s next rest) :
    next.isAbsolute = path.isAbsolute ∧ way next = way path ++ moving (stepsOf s.name) := by
  have hslash := hmove.noSlash h hps
  cases hmove with
  | literal hp hthere => exact way_below path hslash
  | dots hp hdir hs => exact ⟨Path.isAbsolute_join path hslash, way_join path hslash⟩
  | child hp hdir hname ht => exact way_below path hslash

theorem Takes.subset {goesOn : Bool} (ht : Takes d p rest next name goesOn left) :
    left ⊆ p :: rest := by
  have hdrop : rest.dropWhile isRecursive ⊆ rest := (List.dropWhile_sublist _).subset
  cases ht with
  | wildcard => exact List.subset_cons_self p _
  | leave _ hrest =>
    rw [hrest] at hdrop
    exact fun q hq => List.mem_cons_of_mem p (hdrop (List.mem_cons_of_mem _ hq))
  | directory => exact List.nil_subset _
  | deepen => exact List.cons_subset_cons p hdrop

theorem Move.subset (hmove : Move d path ps s next rest) : rest ⊆ ps := by
  cases hmove with
  | literal => exact List.subset_cons_self _ _
  | dots => exact List.subset_cons_self _ _
  | child _ _ _ ht => exact ht.subset

def moves (t : List Step) : List Path.Component := t.flatMap fun s => moving (stepsOf s.name)

@[simp] theorem moves_cons (s : Step) (t : List Step) :
    moves (s :: t) = moving (stepsOf s.name) ++ moves t := rfl

theorem Leads.way_eq (h : d.WellNamed) (hps : ∀ p ∈ ps, SlashFree p)
    (hl : Leads d w path ps t dest) :
    dest.isAbsolute = path.isAbsolute ∧ way dest = way path ++ moves t := by
  induction hl with
  | last hmove hdir => simpa [moves] using hmove.way_eq h hps
  | step hmove hrest _ ih =>
    obtain ⟨habsolute, hway⟩ := hmove.way_eq h hps
    obtain ⟨habsolute', hway'⟩ := ih fun q hq => hps q (hmove.subset hq)
    refine ⟨habsolute'.trans habsolute, ?_⟩
    rw [hway', hway, moves_cons, List.append_assoc]

theorem Leads.isDirWay_of_isFile (h : d.KeepsKinds d') (hd' : d'.WellNamed)
    (hps : ∀ p ∈ ps, SlashFree p) (hl : Leads d' w path ps t dest) (hfile : d.isFile dest = true) :
    d.IsDirWay path := by
  obtain ⟨_, _, _, hmove, -⟩ := leads_iff.1 hl
  obtain ⟨habsolute, hway⟩ := hl.way_eq hd' hps
  obtain ⟨loc, bytes, hr, hbytes⟩ := isFile_iff_resolve.1 hfile
  have hwalk := walk_way hr
  rw [hway, origin, habsolute] at hwalk
  exact h.isDirWay_of_file (hmove.isDirWay hps) hwalk hbytes

theorem isDir_of_isDirWay (hdir : d.IsDirWay path) (hp : (d'.node? path).isSome = true) :
    d.isDir path = true := by
  obtain ⟨loc, hr, -⟩ := isSome_node?_iff.1 hp
  exact isDir_iff.2 ⟨(resolve_eq_ok.1 hr).1, hdir⟩

theorem isSome_node?_of_isDir (hp : d.isDir path = true) : (d.node? path).isSome = true := by
  rw [isDir, beq_iff_eq] at hp
  rw [hp]
  rfl

theorem Takes.of_isDir {goesOn : Bool} (ht : Takes d' p rest next name goesOn left)
    (hdir : d'.isDir next = true → d.isDir next = true) : Takes d p rest next name goesOn left := by
  cases ht with
  | wildcard hp hname => exact .wildcard hp hname
  | leave hp hrest hname => exact .leave hp hrest hname
  | directory hp hrest hnext => exact .directory hp hrest (hdir hnext)
  | deepen hp hnext => exact .deepen hp (hdir hnext)

theorem Move.of_larger (hd' : d'.WellNamed) (hmove : Move d' path ps s next rest)
    (hpath : d.IsDirWay path) {loc : Location} (hwalk : d.walk (d.origin next) (way next) = .ok loc)
    (hdir : d'.isDir next = true → d.isDir next = true)
    (hthere : (d'.node? next).isSome = true → (d.node? next).isSome = true) :
    Move d path ps s next rest := by
  have hpathDir : d'.isDir path = true → d.isDir path = true := fun hp =>
    isDir_of_isDirWay hpath (isSome_node?_of_isDir hp)
  cases hmove with
  | literal hp hname => exact .literal hp (isThere_mono hpathDir hthere hname)
  | dots hp hpath' hs => exact .dots hp (hpathDir hpath') hs
  | child hp hpath' hname ht =>
    have hplain := isPlainName_of_mem_childNames hd' hname
    obtain ⟨place, hplace, -⟩ := isDir_iff_resolve.1 (hpathDir hpath')
    refine .child hp (hpathDir hpath') (mem_childNames.2 ⟨place, hplace, ?_⟩) (ht.of_isDir hdir)
    -- The walk to the name went through before, so that the name was listed.
    rw [origin_below path hplain.noSlash, (way_below path hplain.noSlash).2,
      moving_stepsOf hplain] at hwalk
    obtain ⟨mid, hmid, -, hstep⟩ := isDirAt_of_walk_concat hwalk
    cases hmid.symm.trans (walk_way hplace)
    exact mem_children_iff.2 (step_name_eq_ok.1 hstep).2.1

theorem isDir_of_isFile (hp : d.isFile path = true) : d.isDir path = false := by
  obtain ⟨loc, bytes, hr, hfile⟩ := isFile_iff_resolve.1 hp
  rw [Bool.eq_false_iff]
  intro hdir
  obtain ⟨loc', hr', hdir'⟩ := isDir_iff_resolve.1 hdir
  cases hr.symm.trans hr'
  simp [isDirAt, hfile] at hdir'

/-- What a pattern leads to on the larger disk it led to before, if it was a file then. -/
theorem Leads.of_larger (h : d.KeepsKinds d') (hd' : d'.WellNamed) (hps : ∀ p ∈ ps, SlashFree p)
    (hl : Leads d' w path ps t dest) (hfile : d.isFile dest = true) : Leads d w path ps t dest := by
  have hdest := isDir_of_isFile (h.isFile hfile)
  obtain ⟨loc, bytes, hr, hbytes⟩ := isFile_iff_resolve.1 hfile
  -- On the trail: the file lies below each path of it, which was a directory already.
  induction hl with
  | last hmove hdir =>
    have hpath := (Leads.last hmove hdir).isDirWay_of_isFile h hd' hps hfile
    have hthere := isSome_node?_iff.2 ⟨loc, hr, by simp [hbytes]⟩
    refine .last (hmove.of_larger hd' hpath (walk_way hr) ?_ fun _ => hthere) ?_
    · simp [hdest]
    · exact fun hw => absurd (hdir hw) (by simp [hdest])
  | step hmove hrest ht ih =>
    have hpath := (Leads.step hmove hrest ht).isDirWay_of_isFile h hd' hps hfile
    have hps' := fun q hq => hps q (hmove.subset hq)
    have hnext := ht.isDirWay_of_isFile h hd' hps' hfile
    have ⟨place, hwalk, _⟩ := hnext
    refine .step (hmove.of_larger hd' hpath hwalk ?_ ?_) hrest (ih hps' hfile hdest hr)
    · exact fun hp => isDir_of_isDirWay hnext (isSome_node?_of_isDir hp)
    · exact fun hp => isSome_node?_of_isDir (isDir_of_isDirWay hnext hp)

/-- The trails to a file are the same before and after a disk grew. -/
theorem leads_iff_of_keepsKinds (h : d.KeepsKinds d') (hd' : d'.WellNamed)
    (hps : ∀ p ∈ ps, SlashFree p) (hfile : d.isFile dest = true) :
    Leads d' w path ps t dest ↔ Leads d w path ps t dest :=
  ⟨fun hl => hl.of_larger h hd' hps hfile, fun hl => hl.of_keepsKinds h⟩

end Glob

end SchemaModels
