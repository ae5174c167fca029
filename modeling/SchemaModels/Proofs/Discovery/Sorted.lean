import SchemaModels.Proofs.Discovery.Tables
import SchemaModels.Proofs.Disk.Order
import SchemaModels.Proofs.Glob.Once

namespace SchemaModels

/-- No two trails lead to files of the same components. -/
def Glob.Query.LeadsOnce (q : Query) (d : Disk) : Prop :=
  ∀ t t' p p', Leads d q.wantsDir q.scope q.patterns t p →
    Leads d q.wantsDir q.scope q.patterns t' p' → d.isFile p = true → d.isFile p' = true →
    p.components = p'.components → t = t' ∧ p = p'

theorem Glob.OneWay.leadsOnce {d : Disk} {q : Query} (h : OneWay q.patterns) (hd : d.WellNamed)
    (hps : ∀ p ∈ q.patterns, SlashFree p) : q.LeadsOnce d := by
  intro t t' p p' hl hl' _ _ hcomponents
  have hway := (Disk.way_eq_of_components_eq hcomponents).2
  rw [(hl.way_eq hd hps).2, (hl'.way_eq hd hps).2] at hway
  cases hl.trail_eq hd h hl' (List.append_cancel_left hway)
  exact ⟨rfl, hl.dest_eq h hl'⟩

namespace Discovery

variable {d : Disk} {dir : Path} {pattern : String} {q : Glob.Query} {paths : List Path}

theorem find_eq_ok (hq : Glob.Query.ofChars (fullPattern dir pattern) = .ok q) :
    find d dir pattern = .ok paths ↔
      paths ≠ [] ∧ ((q.paths d).filter d.isFile).mergeSort Path.le = paths := by
  rw [find_eq hq]
  split
  · rename_i hnil
    simp [hnil, eq_comm]
  · rename_i hne
    constructor
    · rintro ⟨rfl⟩
      exact ⟨hne, rfl⟩
    · rintro ⟨-, rfl⟩
      rfl

theorem enumerates_files (h : d.WellNamed) (q : Glob.Query) :
    Glob.Enumerates (fun t p => Glob.Leads d q.wantsDir q.scope q.patterns t p ∧ d.isFile p = true)
      ((q.paths d).filter d.isFile) :=
  (Glob.Query.enumerates_paths h q).filter d.isFile

theorem increasing_iff_leadsOnce (h : d.WellNamed)
    (hq : Glob.Query.ofChars (fullPattern dir pattern) = .ok q)
    (hf : find d dir pattern = .ok paths) : Path.Increasing paths ↔ q.LeadsOnce d := by
  obtain ⟨-, rfl⟩ := (find_eq_ok hq).1 hf
  rw [Path.increasing_mergeSort_iff, (enumerates_files h q).nodup_map_iff]
  exact forall₄_congr fun t t' p p' =>
    ⟨fun hone ht ht' hp hp' => hone ⟨ht, hp⟩ ⟨ht', hp'⟩,
      fun hone ht ht' => hone ht.1 ht'.1 ht.2 ht'.2⟩

theorem of_duplicate?_eq_some {seen : List (String × Path)} {xs : List (Path × Table)} {f : Failure}
    (h : duplicate? seen xs = some f) : ∃ name first second, f = .duplicateTable name first second ∧
      [first, second].Sublist ((seen.map Prod.snd).reverse ++ xs.map Prod.fst) := by
  induction xs generalizing seen with
  | nil => cases h
  | cons x xs ih =>
    obtain ⟨path, t⟩ := x
    rw [duplicate?] at h
    split at h
    · rename_i first hseen
      cases h
      obtain ⟨front, back, rfl, -⟩ := List.lookup_eq_some_iff.1 hseen
      refine ⟨_, first, path, rfl, ?_⟩
      change ([first] ++ [path]).Sublist _
      apply List.Sublist.append
      · rw [List.singleton_sublist]
        simp
      · rw [List.singleton_sublist]
        simp
    · simpa using ih h

theorem readTable_ne_duplicateTable (d : Disk) (path : Path) (name : String) (first second : Path) :
    readTable d path ≠ .error (.duplicateTable name first second) := by
  unfold readTable
  cases d.read path with
  | error cause => simp [Except.mapError, bind, Except.bind]
  | ok bytes =>
    simp only [Except.mapError, bind, Except.bind]
    split <;> simp

theorem sublist_of_load_eq_error {name : String} {first second : Path}
    (h : load d paths = .error (.duplicateTable name first second)) :
    [first, second].Sublist paths := by
  rw [load_eq] at h
  cases hread : paths.mapM (readTable d) with
  | error f =>
    rw [hread] at h
    cases h
    obtain ⟨_, path, _, -, -, hpath⟩ := mapM_eq_error.1 hread
    exact absurd hpath (readTable_ne_duplicateTable d path name first second)
  | ok tables =>
    rw [hread] at h
    simp only [bind, Except.bind, accept] at h
    split at h
    · cases h
    · split at h
      · rename_i f hdup
        obtain ⟨n, a, b, rfl, hsub⟩ := of_duplicate?_eq_some hdup
        cases h
        have hlength := (mapM_eq_ok.1 hread).length_eq
        simpa [List.map_fst_zip hlength.le] using hsub
      · cases h

/-- The files that are found are in strictly increasing order, and so each once, exactly if no two
trails lead to one file. With double stars that stand together, and wildcards that take no special
names, they are. Then no table is reported to be created twice by the same file. -/
theorem find_increasing_iff (h : d.WellNamed)
    (hq : Glob.Query.ofChars (fullPattern dir pattern) = .ok q)
    (hf : find d dir pattern = .ok paths) :
    (Path.Increasing paths ↔ q.LeadsOnce d) ∧
      (Glob.OneWay q.patterns → Path.Increasing paths) ∧
      (Path.Increasing paths → ∀ name first second,
        load d paths = .error (.duplicateTable name first second) →
          first.components ≠ second.components) := by
  have hiff := increasing_iff_leadsOnce h hq hf
  refine ⟨hiff, fun hone => hiff.2 (hone.leadsOnce h (Glob.Query.slashFree hq)), ?_⟩
  intro hincreasing name first second hload heq
  have hlt := List.pairwise_iff_forall_sublist.1 hincreasing (sublist_of_load_eq_error hload)
  rw [Path.le_of_components_eq heq.symm] at hlt
  cases hlt

def nestedDisk : Disk where
  entries := [(["a"], .dir), (["a", "a"], .dir),
    (["1.sql", "a", "a"], .file (Text.encode "CREATE TABLE a (\n id int\n)".toList))]
  work := []
  tempCount := 0

theorem nestedDisk_leadsOnce : ∃ q, nestedDisk.WellNamed ∧
    Glob.Query.ofChars (fullPattern ⟨"."⟩ "**/a/*.sql") = .ok q ∧
    find nestedDisk ⟨"."⟩ "**/a/*.sql" = .ok [⟨"a/a/1.sql"⟩] ∧ q.LeadsOnce nestedDisk := by
  have hnamed : nestedDisk.WellNamed := by decide +kernel
  have hfind : find nestedDisk ⟨"."⟩ "**/a/*.sql" = .ok [⟨"a/a/1.sql"⟩] :=
    find_eq_singleton (by decide +kernel)
  refine ⟨_, hnamed, rfl, hfind, (find_increasing_iff hnamed rfl hfind).1.1 ?_⟩
  exact List.pairwise_singleton _ _

/-- Each of the two directories may stand for the name between the double stars. -/
theorem find_not_increasing : ¬ ∀ (d : Disk) (dir : Path) (pattern : String) (paths : List Path),
    d.WellNamed → find d dir pattern = .ok paths → Path.Increasing paths := by
  intro h
  have hfind : find nestedDisk ⟨"."⟩ "**/a/**/*.sql" = .ok [⟨"a/a/1.sql"⟩, ⟨"a/a/1.sql"⟩] :=
    find_eq_of_sorted (by decide +kernel) (by decide +kernel) (List.cons_ne_nil _ _)
  have hincreasing := h nestedDisk _ _ _ (by decide +kernel) hfind
  unfold Path.Increasing at hincreasing
  revert hincreasing
  decide +kernel

end Discovery

end SchemaModels
