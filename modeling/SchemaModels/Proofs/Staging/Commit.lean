import SchemaModels.Proofs.Staging.Prepared

namespace SchemaModels

open Text (Bytes)

namespace Disk

theorem rename_of_place? {d moved : Disk} {s : Staged} {temp : Location}
    (hplace : s.place? d = some temp) (hdir : d.isDirAt temp = false)
    (h : d.rename s.dir s.name s.target = .ok moved) :
    ∃ dest bytes, d.place? s.target = some dest ∧ d.get? temp = some (.file bytes) ∧
      d.isDirAt dest = false ∧ moved = (d.erase temp).set dest (.file bytes) := by
  obtain ⟨source, dest, node, hsource, hto, hnode, hfree, rfl⟩ := rename_eq_ok.1 h
  obtain ⟨dir, hdir', rfl⟩ := Staged.place?_eq_some.1 hplace
  cases hsource.symm.trans hdir'
  cases node with
  | dir => simp [isDirAt, hnode] at hdir
  | file bytes => exact ⟨dest, bytes, hto, hnode, hfree, rfl⟩

end Disk

namespace Staging

open Disk

theorem commitAfter_cons_eq_ok {d d' : Disk} {done paths : List Path} {s : Staged}
    {rest : List Staged} :
    commitAfter done d (s :: rest) = (d', .ok paths) ↔ ∃ moved,
      d.rename s.dir s.name s.target = .ok moved ∧
        commitAfter (done ++ [s.target]) moved rest = (d', .ok paths) := by
  rw [commitAfter]
  cases d.rename s.dir s.name s.target with
  | ok moved => simp
  | error cause => simp

/-- A commit fails at its first entry, and then rolls back, or later. -/
theorem commitAfter_cons_eq_error {d d' : Disk} {done : List Path} {s : Staged}
    {rest : List Staged} {f : Failure} :
    commitAfter done d (s :: rest) = (d', .error f) ↔
      (∃ cause, d.rename s.dir s.name s.target = .error cause ∧ f = .write s.target cause ∧
        d' = discard (done.foldl unlink d) (s :: rest)) ∨
      ∃ moved, d.rename s.dir s.name s.target = .ok moved ∧
        commitAfter (done ++ [s.target]) moved rest = (d', .error f) := by
  rw [commitAfter]
  cases d.rename s.dir s.name s.target with
  | ok moved => simp
  | error cause => simp [eq_comm, and_comm]

/-- The targets that staged files are renamed to when they are committed in order: those in front
of the first that cannot be renamed. -/
def renamed (d : Disk) : List Staged → List Path
  | [] => []
  | s :: rest =>
    match d.rename s.dir s.name s.target with
    | .ok moved => s.target :: renamed moved rest
    | .error _ => []

theorem renamed_cons_of_ok {d moved : Disk} {s : Staged} {rest : List Staged}
    (h : d.rename s.dir s.name s.target = .ok moved) :
    renamed d (s :: rest) = s.target :: renamed moved rest := by
  rw [renamed, h]

theorem renamed_cons_of_error {d : Disk} {s : Staged} {rest : List Staged} {cause : Cause}
    (h : d.rename s.dir s.name s.target = .error cause) : renamed d (s :: rest) = [] := by
  rw [renamed, h]

/-- Some targets are renamed since the first disk, to these places, and the rest still waits. -/
structure Committing (d₀ d : Disk) (done : List Path) (locs : List Location)
    (rest : List Waiting) : Prop where
  renamed : done.map d.place? = locs.map some
  waiting : ∀ w ∈ rest, w.staged.place? d = some w.temp ∧ d₀.get? w.temp = none
  notDir : ∀ loc, loc ∈ locs ∨ loc ∈ rest.map Waiting.temp → d.isDirAt loc = false
  noOther : ∀ loc bytes, d.get? loc = some (.file bytes) →
    d₀.get? loc = some (.file bytes) ∨ loc ∈ locs ∨ loc ∈ rest.map Waiting.temp
  kept : ∀ loc bytes, d₀.get? loc = some (.file bytes) → loc ∉ locs →
    d.get? loc = some (.file bytes)

theorem Prepared.committing {d₀ d : Disk} {ws : List Waiting} (h : Prepared d₀ d ws) :
    Committing d₀ d [] [] ws where
  renamed := rfl
  waiting w hw := ⟨(h.holds w hw).place, (h.holds w hw).free⟩
  notDir loc hloc := by
    obtain ⟨w, hw, rfl⟩ := List.mem_map.1 (hloc.resolve_left List.not_mem_nil)
    simp [isDirAt, (h.holds w hw).content]
  noOther loc bytes hf := (h.noOther loc bytes hf).imp_right Or.inr
  kept loc bytes hf _ := h.grown.get? hf

theorem Committing.rename {d₀ d moved : Disk} {done : List Path} {locs : List Location}
    {w : Waiting} {rest : List Waiting} (h : Committing d₀ d done locs (w :: rest))
    (hr : d.rename w.staged.dir w.staged.name w.staged.target = .ok moved) :
    ∃ dest, Committing d₀ moved (done ++ [w.staged.target]) (locs ++ [dest]) rest := by
  obtain ⟨hplace, hfree⟩ := h.waiting w List.mem_cons_self
  have hnotDir := h.notDir w.temp (Or.inr List.mem_cons_self)
  obtain ⟨dest, bytes, hto, hfile, hdir, rfl⟩ := rename_of_place? hplace hnotDir hr
  have hsame := sameDirs_move hfile hdir
  refine ⟨dest, ?_, ?_, ?_, ?_, ?_⟩
  · simp [hsame.place?, hto, h.renamed]
  · intro v hv
    obtain ⟨hv₁, hv₂⟩ := h.waiting v (List.mem_cons_of_mem w hv)
    exact ⟨hsame.keepsDirs.stagedPlace? hv₁, hv₂⟩
  · intro loc hloc
    rw [hsame.isDirAt]
    rcases hloc with hloc | hloc
    · rcases List.mem_append.1 hloc with hold | hnew
      · exact h.notDir loc (Or.inl hold)
      · rwa [List.mem_singleton.1 hnew]
    · exact h.notDir loc (Or.inr (List.mem_cons_of_mem w.temp hloc))
  · intro loc content hf
    by_cases heq : loc = dest
    · exact Or.inr (Or.inl (by simp [heq]))
    · have hne : loc ≠ w.temp := by
        rintro rfl
        rw [get?_move_source heq (ne_nil_of_get?_ne_dir d (by simp [hfile]))] at hf
        cases hf
      rw [get?_move_of_ne hne heq] at hf
      rcases h.noOther loc content hf with hold | hlocs | htemp
      · exact Or.inl hold
      · exact Or.inr (Or.inl (List.mem_append_left [dest] hlocs))
      · exact Or.inr (Or.inr ((List.mem_cons.1 htemp).resolve_left hne))
  · intro loc content hf hloc
    rw [List.mem_append, not_or, List.mem_singleton] at hloc
    -- What was there first does not lie at a temporary place.
    have hne : loc ≠ w.temp := by
      rintro rfl
      simp [hfree] at hf
    rw [get?_move_of_ne hne hloc.2]
    exact h.kept loc content hf hloc.1

/-- Taking away by path and by handle is erasing files at known places. -/
theorem rollBack_eq_eraseFiles {d : Disk} {done : List Path} {locs : List Location}
    {rest : List Waiting} (hdone : done.map d.place? = locs.map some)
    (hrest : ∀ w ∈ rest, w.staged.place? d = some w.temp) :
    discard (done.foldl unlink d) (rest.map Waiting.staged) =
      d.eraseFiles (locs ++ rest.map Waiting.temp) := by
  have hunlink : done.foldl unlink d = d.eraseFiles locs :=
    foldl_eq_eraseFiles unlink place? unlink_of_place? (fun hk hp => hk.place? hp) hdone
  have hplaces : ∀ w ∈ rest, w.staged.place? (d.eraseFiles locs) = some w.temp := by
    intro w hw
    exact (sameDirs_eraseFiles d locs).keepsDirs.stagedPlace? (hrest w hw)
  rw [hunlink, discard_eq_eraseFiles hplaces, eraseFiles, eraseFiles, eraseFiles,
    List.foldl_append]

theorem Committing.rollBack {d₀ d : Disk} {done : List Path} {locs : List Location}
    {rest : List Waiting} (h : Committing d₀ d done locs rest) :
    d₀.NoNewFile (discard (done.foldl unlink d) (rest.map Waiting.staged)) ∧
      d₀.LosesOnly (discard (done.foldl unlink d) (rest.map Waiting.staged)) done := by
  rw [rollBack_eq_eraseFiles h.renamed fun w hw => (h.waiting w hw).1]
  have hsame := sameDirs_eraseFiles d (locs ++ rest.map Waiting.temp)
  have hplaces (loc : Location) : (∃ p ∈ done,
      (d.eraseFiles (locs ++ rest.map Waiting.temp)).place? p = some loc) ↔ loc ∈ locs := by
    have hmem := congrArg (some loc ∈ ·) h.renamed
    simpa [hsame.place?] using hmem
  refine ⟨?_, ?_, ?_⟩
  · intro loc bytes hf
    have hno : loc ∉ locs ++ rest.map Waiting.temp := by
      intro hmem
      exact get?_eraseFiles_of_mem hmem bytes hf
    rw [get?_eraseFiles_of_notMem hno] at hf
    rw [List.mem_append] at hno
    exact (h.noOther loc bytes hf).resolve_right hno
  · intro loc bytes hf hloc
    have hlocs : loc ∉ locs := by
      intro hmem
      obtain ⟨p, hp, heq⟩ := (hplaces loc).2 hmem
      exact hloc p hp heq
    have htemp : loc ∉ rest.map Waiting.temp := by
      intro hmem
      obtain ⟨w, hw, rfl⟩ := List.mem_map.1 hmem
      simp [(h.waiting w hw).2] at hf
    have hno : loc ∉ locs ++ rest.map Waiting.temp := by
      rw [List.mem_append, not_or]
      exact ⟨hlocs, htemp⟩
    rw [get?_eraseFiles_of_notMem hno]
    exact h.kept loc bytes hf hlocs
  · intro loc bytes hf hloc
    have hmem := (hplaces loc).1 hloc
    -- A file was renamed to the place, so that it never was a directory.
    exact get?_eraseFiles_eq_none (List.mem_append_left _ hmem) (h.notDir loc (Or.inl hmem))

theorem commitAfter_error {d₀ d d' : Disk} {done : List Path} {locs : List Location}
    {rest : List Waiting} {f : Failure} (h : Committing d₀ d done locs rest)
    (hc : commitAfter done d (rest.map Waiting.staged) = (d', .error f)) :
    d₀.NoNewFile d' ∧ d₀.LosesOnly d' (done ++ renamed d (rest.map Waiting.staged)) ∧
      ∃ failed others cause, f = .write failed cause ∧
        rest.map (fun w => w.staged.target) =
          renamed d (rest.map Waiting.staged) ++ failed :: others := by
  induction rest generalizing d done locs with
  | nil => cases hc
  | cons w rest ih =>
    rw [List.map_cons] at hc
    rcases commitAfter_cons_eq_error.1 hc with ⟨cause, hr, rfl, rfl⟩ | ⟨moved, hr, hc⟩
    · obtain ⟨hno, hlost⟩ := h.rollBack
      rw [List.map_cons, renamed_cons_of_error hr, List.append_nil]
      exact ⟨hno, hlost, _, _, cause, rfl, rfl⟩
    · obtain ⟨dest, hmoved⟩ := h.rename hr
      obtain ⟨hno, hlost, failed, others, cause, hf, htargets⟩ := ih hmoved hc
      rw [List.map_cons, renamed_cons_of_ok hr, List.append_cons]
      refine ⟨hno, hlost, failed, others, cause, hf, ?_⟩
      rw [List.map_cons, htargets, List.cons_append]

/-- Each temporary file holds its bytes, and no rename puts a file where a later one takes its. -/
structure Ready (d : Disk) (ws : List Waiting) : Prop where
  waiting : ∀ w ∈ ws, w.staged.place? d = some w.temp ∧ d.get? w.temp = some (.file w.bytes)
  distinct : (ws.map Waiting.temp).Nodup
  apart : ws.Pairwise fun w v => d.place? w.staged.target ≠ some v.temp

theorem Ready.rename {d moved : Disk} {w : Waiting} {ws : List Waiting} (h : Ready d (w :: ws))
    (hr : d.rename w.staged.dir w.staged.name w.staged.target = .ok moved) :
    Ready moved ws ∧ d.SameDirs moved ∧ ∃ dest, d.place? w.staged.target = some dest ∧
      moved.get? dest = some (.file w.bytes) ∧
      ∀ loc, loc ≠ w.temp → loc ≠ dest → moved.get? loc = d.get? loc := by
  obtain ⟨hplace, hfile⟩ := h.waiting w List.mem_cons_self
  obtain ⟨dest, bytes, hdest, hmoved, hdir, rfl⟩ :=
    rename_of_place? hplace (by simp [isDirAt, hfile]) hr
  cases hfile.symm.trans hmoved
  have hsame := sameDirs_move hfile hdir
  have hdistinct := List.nodup_cons.1 h.distinct
  have hapart := List.pairwise_cons.1 h.apart
  refine ⟨⟨?_, hdistinct.2, ?_⟩, hsame, dest, hdest, get?_move_self hdir,
    fun loc => get?_move_of_ne⟩
  · intro v hv
    obtain ⟨hv₁, hv₂⟩ := h.waiting v (List.mem_cons_of_mem w hv)
    refine ⟨hsame.keepsDirs.stagedPlace? hv₁, ?_⟩
    rw [get?_move_of_ne, hv₂]
    · exact fun heq => hdistinct.1 (heq ▸ List.mem_map_of_mem hv)
    · exact fun heq => hapart.1 v hv (heq ▸ hdest)
  · rw [hsame.place?]
    exact hapart.2

theorem get?_commitAfter {d d' : Disk} {done paths : List Path} {ws : List Waiting}
    {loc : Location} (h : Ready d ws)
    (hc : commitAfter done d (ws.map Waiting.staged) = (d', .ok paths))
    (htemp : loc ∉ ws.map Waiting.temp) (htarget : ∀ w ∈ ws, d.place? w.staged.target ≠ some loc) :
    d'.get? loc = d.get? loc := by
  induction ws generalizing d done with
  | nil =>
    cases hc
    rfl
  | cons w ws ih =>
    rw [List.map_cons] at hc
    obtain ⟨moved, hr, hc⟩ := commitAfter_cons_eq_ok.1 hc
    obtain ⟨hready, hsame, dest, hdest, -, hframe⟩ := h.rename hr
    rw [List.map_cons, List.mem_cons, not_or] at htemp
    rw [List.forall_mem_cons] at htarget
    rw [ih hready hc htemp.2 (by rw [hsame.place?]; exact htarget.2)]
    exact hframe loc htemp.1 fun heq => htarget.1 (heq ▸ hdest)

/-- After a commit each target has a place, and holds its file unless a later one has that place. -/
theorem commitAfter_ok {d d' : Disk} {done paths : List Path} {ws : List Waiting} (h : Ready d ws)
    (hc : commitAfter done d (ws.map Waiting.staged) = (d', .ok paths)) :
    d.SameDirs d' ∧ ∀ front w back, ws = front ++ w :: back →
      ∃ dest, d.place? w.staged.target = some dest ∧
        ((∀ v ∈ back, d.place? v.staged.target ≠ some dest) →
          d'.get? dest = some (.file w.bytes)) := by
  induction ws generalizing d done with
  | nil =>
    cases hc
    exact ⟨.refl _, by simp⟩
  | cons v ws ih =>
    rw [List.map_cons] at hc
    obtain ⟨moved, hr, hc⟩ := commitAfter_cons_eq_ok.1 hc
    obtain ⟨hready, hsame, dest, hdest, hholds, -⟩ := h.rename hr
    obtain ⟨hsame', hrest⟩ := ih hready hc
    refine ⟨hsame.trans hsame', ?_⟩
    intro front w back hws
    cases front with
    | nil =>
      -- The file that was just renamed: the renames after it leave it alone.
      obtain ⟨rfl, rfl⟩ := List.cons.inj hws
      refine ⟨dest, hdest, ?_⟩
      intro hlater
      rw [get?_commitAfter hready hc _ (by rwa [hsame.place?]), hholds]
      intro hmem
      obtain ⟨u, hu, heq⟩ := List.mem_map.1 hmem
      exact (List.pairwise_cons.1 h.apart).1 u hu (heq ▸ hdest)
    | cons u front =>
      obtain ⟨rfl, rfl⟩ := List.cons.inj hws
      rw [← hsame.place?]
      exact hrest front w back rfl

theorem paths_of_commitAfter {d d' : Disk} {done paths : List Path} {staged : List Staged}
    (h : commitAfter done d staged = (d', .ok paths)) :
    paths = done ++ staged.map Staged.target := by
  induction staged generalizing d done with
  | nil =>
    cases h
    simp
  | cons s staged ih =>
    obtain ⟨moved, -, h⟩ := commitAfter_cons_eq_ok.1 h
    rw [ih h, List.append_assoc, List.map_cons, List.singleton_append]

theorem commit_ok {d d' : Disk} {paths : List Path} {ws : List Waiting} (h : Ready d ws)
    (hc : commit d (ws.map Waiting.staged) = (d', .ok paths)) (front : List Waiting) (w : Waiting)
    (back : List Waiting) (hws : ws = front ++ w :: back) :
    ∃ dest, d'.place? w.staged.target = some dest ∧
      ((∀ v ∈ back, d'.place? v.staged.target ≠ some dest) →
        d'.get? dest = some (.file w.bytes)) := by
  obtain ⟨hsame, hrest⟩ := commitAfter_ok h hc
  rw [hsame.place?]
  exact hrest front w back hws

end Staging

end SchemaModels
