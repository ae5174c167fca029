import SchemaModels.Proofs.Discovery.Grown
import SchemaModels.Proofs.Run.Declared
import SchemaModels.Proofs.Run.Named
import SchemaModels.Proofs.Run.Rewritten

namespace SchemaModels

namespace Run

open Disk

variable {d d' : Disk} {s : Settings} {tables : List Table} {paths : List Path} {out : Outcome}

/-- None of the files of a run is found as a migration. -/
def FindsNotOwn (d : Disk) (s : Settings) (tables : List Table) : Prop :=
  ∀ paths, Discovery.find d s.migrations s.pattern = .ok paths → ∀ p ∈ paths,
    ∀ file ∈ files s tables, ∀ loc, d.place? file.1 = some loc → d.resolve p ≠ .ok loc

/-- Every path that is found after a run led to a file before it. -/
def FindsOnlyOld (d d' : Disk) (s : Settings) : Prop :=
  ∀ paths, Discovery.find d' s.migrations s.pattern = .ok paths → ∀ p ∈ paths, d.isFile p = true

/-- A run gives this outcome and leaves the disk as it is. -/
def Repeats (d : Disk) (s : Settings) (out : Outcome) : Prop :=
  ∃ d', run d s false = (d', .ok out) ∧ d'.work = d.work ∧ ∀ loc, d'.get? loc = d.get? loc

theorem length_of_tables (h : Run.tables d s = .ok tables)
    (hf : Discovery.find d s.migrations s.pattern = .ok paths) : paths.length = tables.length := by
  obtain ⟨-, paths', read, hf', hload, rfl⟩ := exists_of_tables_eq_ok h
  cases hf.symm.trans hf'
  rw [Selection.apply, List.length_map, Discovery.length_eq_of_load hload]

theorem wellNamed_of_run (hd : d.WellNamed) (h : run d s false = (d', .ok out)) :
    d'.WellNamed := by
  have hrun : (run d s false).1.WellNamed := wellNamed_run hd
  rwa [h] at hrun

theorem repeats_of_findsOnlyOld (hd : d.WellNamed) (h : run d s false = (d', .ok out))
    (hown : FindsNotOwn d' s out.tables) (hold : FindsOnlyOld d d' s) : Repeats d' s out := by
  obtain ⟨htables, hwrite, hskipped⟩ := run_eq_ok.1 h
  have hnames := namedApart_of_tables htables
  obtain ⟨hkinds, hkept⟩ := keeps_of_write hnames hwrite
  have hd' := wellNamed_of_run hd h
  obtain ⟨hvalid, paths, read, hfind, hload, hout⟩ := exists_of_tables_eq_ok htables
  obtain ⟨paths', hfind'⟩ := Discovery.exists_find_of_keepsKinds hkinds hd hd' hfind
  have hsame := Discovery.find_of_keepsKinds hkinds hd hd' hfind hfind'
    (Discovery.nodup_components_of_load hload) (hold paths' hfind')
  subst hsame
  have hload' : Discovery.load d' paths' = .ok read := by
    refine Discovery.load_of_read (fun p hp bytes hread => ?_) hload
    obtain ⟨loc, hr, hfile⟩ := read_eq_ok.1 hread
    refine read_eq_ok.2 ⟨loc, hkinds.resolve hr, hkept hfile ?_⟩
    rintro ⟨file, hmem, hplace⟩
    exact hown paths' hfind' p hp file hmem loc hplace (hkinds.resolve hr)
  have htables' := tables_eq_ok hvalid hfind' hload'
  rw [← hout] at htables'
  obtain ⟨d'', hwrite', hwork, hget⟩ := write_again hnames hwrite
  exact ⟨d'', run_eq_ok.2 ⟨htables', hwrite', hskipped⟩, hwork, hget⟩

theorem findsOnlyOld_of_repeats (hd : d.WellNamed) (h : run d s false = (d', .ok out))
    (hagain : Repeats d' s out) : FindsOnlyOld d d' s := by
  obtain ⟨htables, hwrite, -⟩ := run_eq_ok.1 h
  obtain ⟨hkinds, -⟩ := keeps_of_write (namedApart_of_tables htables) hwrite
  obtain ⟨-, paths, read, hfind, -, -⟩ := exists_of_tables_eq_ok htables
  obtain ⟨d'', hrun, -, -⟩ := hagain
  intro paths' hfind'
  refine Discovery.isFile_of_length_eq hkinds hd (wellNamed_of_run hd h) hfind hfind' ?_
  rw [length_of_tables (run_eq_ok.1 hrun).1 hfind', length_of_tables htables hfind]

theorem findsOnlyOld_of_sameDirs (h : run d s false = (d', .ok out))
    (hdirs : d.SameDirs d') (hown : FindsNotOwn d' s out.tables) : FindsOnlyOld d d' s := by
  obtain ⟨htables, hwrite, -⟩ := run_eq_ok.1 h
  have hnames := namedApart_of_tables htables
  intro paths hfind p hp
  obtain ⟨q, hq⟩ := Discovery.exists_query_of_find hfind
  have hfile := (List.mem_filter.1 ((Discovery.mem_find hq hfind).1 hp)).2
  obtain ⟨loc, bytes, hr, hloc⟩ := isFile_iff_resolve.1 hfile
  have hget : d'.get? loc = d.get? loc := by
    refine get?_eq_of_write hnames hwrite hdirs ?_
    rintro ⟨file, hmem, hplace⟩
    exact hown paths hfind p hp file hmem loc hplace hr
  have hback : d'.KeepsDirs d := hdirs.symm.keepsDirs
  exact isFile_iff_resolve.2 ⟨loc, bytes, hback.resolve hr (hget ▸ id), hget ▸ hloc⟩

/-- A second run does the same wherever the first made no directory. -/
theorem repeats_of_sameDirs (hd : d.WellNamed) (h : run d s false = (d', .ok out))
    (hdirs : d.SameDirs d') (hown : FindsNotOwn d' s out.tables) : Repeats d' s out :=
  repeats_of_findsOnlyOld hd h hown (findsOnlyOld_of_sameDirs h hdirs hown)

end Run

/-- If a run finds none of its own files afterwards, a second one does the same and leaves the disk
as it is, exactly if every path that is found then led to a file before the first. As a disk has no
symbolic links, the first run cannot replace one that the migrations are found by. -/
theorem run_again_iff {d d' : Disk} {s : Settings} {out : Outcome} (hd : d.WellNamed)
    (h : run d s false = (d', .ok out)) (hown : Run.FindsNotOwn d' s out.tables) :
    Run.Repeats d' s out ↔ Run.FindsOnlyOld d d' s :=
  ⟨Run.findsOnlyOld_of_repeats hd h, Run.repeats_of_findsOnlyOld hd h hown⟩

/-- A second run overwrites the model and the report with themselves. -/
theorem earlierRun_again : ∃ d' out, earlierRun.WellNamed ∧
    run earlierRun (reporting "r/report.json") false = (d', .ok out) ∧
    Run.Repeats d' (reporting "r/report.json") out := by
  have hnamed : earlierRun.WellNamed := by decide +kernel
  have hrun := run_earlierRun_eq_ok "r/report.json" (Prod.ext rfl (by decide +kernel))
  refine ⟨_, _, hnamed, hrun, ?_⟩
  set d' := (Run.write earlierRun (reporting "r/report.json") [earlierTable]).1
  have hfind : Discovery.find d' ⟨"m"⟩ "1.sql" = .ok [⟨"m/1.sql"⟩] :=
    Discovery.find_eq_singleton (by decide +kernel)
  refine (run_again_iff hnamed hrun ?_).2 ?_
  · intro paths hpaths p hp
    cases hfind.symm.trans hpaths
    cases List.mem_singleton.1 hp
    have happart : ∀ file ∈ Run.files (reporting "r/report.json") [earlierTable],
        ∀ loc ∈ d'.place? file.1, d'.resolve ⟨"m/1.sql"⟩ ≠ .ok loc := by
      decide +kernel
    exact happart
  · intro paths hpaths p hp
    cases hfind.symm.trans hpaths
    cases List.mem_singleton.1 hp
    decide +kernel

def besideDisk : Disk where
  entries := [(["m"], .dir), (["1.sql", "m"], .file (Text.encode "CREATE TABLE a (".toList))]
  work := []
  tempCount := 0

/-- The migrations are found once from each directory beside theirs. -/
def fromBeside : Settings where
  migrations := ⟨"."⟩
  pattern := "*/../m/*.sql"
  output := ⟨"gen"⟩

theorem tables_besideDisk : Run.tables besideDisk fromBeside = .ok [earlierTable] := by
  have hvalid : fromBeside.validate = .ok () := by decide +kernel
  have hfind : Discovery.find besideDisk ⟨"."⟩ "*/../m/*.sql" = .ok [⟨"m/../m/1.sql"⟩] :=
    Discovery.find_eq_singleton (by decide +kernel)
  have hload : Discovery.load besideDisk [⟨"m/../m/1.sql"⟩] = .ok [earlierTable] := by
    decide +kernel
  exact Run.tables_eq_ok hvalid hfind hload

/-- The disk with the directory that the run makes, beside that of the migrations. -/
def besideDiskAfter : Disk := (Run.write besideDisk fromBeside [earlierTable]).1

theorem run_besideDisk : run besideDisk fromBeside false =
    (besideDiskAfter, .ok ⟨[earlierTable], [⟨"gen/a_model.go"⟩], []⟩) :=
  run_eq_ok.2 ⟨tables_besideDisk, Prod.ext rfl (by decide +kernel), rfl⟩

theorem find_besideDiskAfter : Discovery.find besideDiskAfter ⟨"."⟩ "*/../m/*.sql" =
    .ok [⟨"gen/../m/1.sql"⟩, ⟨"m/../m/1.sql"⟩] := by
  have hquery : Glob.Query.ofChars (Discovery.fullPattern ⟨"."⟩ "*/../m/*.sql") =
      .ok ⟨⟨"."⟩, [[.char '.'], [.anySequence], [.char '.', .char '.'], [.char 'm'], sqlFiles],
        false⟩ := rfl
  have hdot (rest : List Glob.Pattern) :
      Glob.reach besideDiskAfter ⟨"."⟩ ([.char '.'] :: [.anySequence] :: rest) =
        Glob.reach besideDiskAfter ⟨"."⟩ ([.anySequence] :: rest) := by
    rw [Glob.reach]
    exact if_pos (by decide +kernel)
  have hchildren (rest : List Glob.Pattern) :
      Glob.reach besideDiskAfter ⟨"."⟩ ([.anySequence] :: rest) =
        (besideDiskAfter.children []).map fun name =>
          ⟨Glob.below ⟨"."⟩ name, [.anySequence] :: rest⟩ :=
    Glob.reach_children rfl (by decide) (by decide +kernel) (by decide +kernel)
      (by decide +kernel)
  refine Discovery.find_eq_of_sorted ?_ (by decide +kernel) (List.cons_ne_nil _ _)
  rw [hquery, Except.map, Glob.Query.paths, hdot, hchildren]
  decide +kernel

/-- The second run finds the migration from the new directory too, and fails. -/
theorem run_not_again : ¬ ∀ (d d' : Disk) (s : Settings) (out : Outcome), d.WellNamed →
    run d s false = (d', .ok out) → Run.FindsNotOwn d' s out.tables → Run.Repeats d' s out := by
  intro h
  have hown : Run.FindsNotOwn besideDiskAfter fromBeside [earlierTable] := by
    intro paths hpaths
    cases find_besideDiskAfter.symm.trans hpaths
    have happart : ∀ p ∈ [(⟨"gen/../m/1.sql"⟩ : Path), ⟨"m/../m/1.sql"⟩],
        ∀ file ∈ Run.files fromBeside [earlierTable],
          ∀ loc ∈ besideDiskAfter.place? file.1, besideDiskAfter.resolve p ≠ .ok loc := by
      decide +kernel
    exact happart
  obtain ⟨d'', hrun, -, -⟩ := h besideDisk _ _ _ (by decide +kernel) run_besideDisk hown
  have hlength := Run.length_of_tables (run_eq_ok.1 hrun).1 find_besideDiskAfter
  cases hlength

end SchemaModels
