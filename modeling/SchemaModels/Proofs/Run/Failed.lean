import SchemaModels.Proofs.Discovery.Tables
import SchemaModels.Proofs.Staging.Commit
import SchemaModels.Run

namespace SchemaModels

open Text (Bytes)

namespace Run

open Disk

theorem write_eq_ok {d d' : Disk} {s : Settings} {tables : List Table} {written : List Path} :
    write d s tables = (d', .ok written) ↔ ∃ mid staged paths,
      Staging.stageAll d [] (files s tables) = (mid, .ok staged) ∧
        Staging.commit mid staged = (d', .ok paths) ∧
        written = paths.take (models s tables).length := by
  unfold write
  rcases Staging.stageAll d [] (files s tables) with ⟨mid, f | staged⟩
  · simp
  · rcases hcommit : Staging.commit mid staged with ⟨d₁, f | paths⟩
    · simp [hcommit]
    · simp [hcommit, eq_comm]

theorem write_eq_error {d d' : Disk} {s : Settings} {tables : List Table} {f : Failure} :
    write d s tables = (d', .error f) ↔
      Staging.stageAll d [] (files s tables) = (d', .error f) ∨
      ∃ mid staged, Staging.stageAll d [] (files s tables) = (mid, .ok staged) ∧
        Staging.commit mid staged = (d', .error f) := by
  unfold write
  rcases Staging.stageAll d [] (files s tables) with ⟨mid, f | staged⟩
  · simp
  · rcases hcommit : Staging.commit mid staged with ⟨d₁, f | paths⟩
    · simp [hcommit]
    · simp [hcommit]

/-- The disk after all files are written or one cannot be: the commit decides it unless a file
cannot be staged. -/
theorem disk_write (d : Disk) (s : Settings) (tables : List Table) :
    (∃ f, Staging.stageAll d [] (files s tables) = ((write d s tables).1, .error f)) ∨
      ∃ mid staged, Staging.stageAll d [] (files s tables) = (mid, .ok staged) ∧
        (write d s tables).1 = (Staging.commit mid staged).1 := by
  unfold write
  rcases Staging.stageAll d [] (files s tables) with ⟨mid, f | staged⟩
  · exact Or.inl ⟨f, rfl⟩
  · refine Or.inr ⟨mid, staged, rfl, ?_⟩
    dsimp only
    rcases Staging.commit mid staged with ⟨d₁, f | paths⟩ <;> rfl

def renamedFor (d : Disk) (s : Settings) (tables : List Table) : List Path :=
  match Staging.stageAll d [] (files s tables) with
  | (mid, .ok staged) => Staging.renamed mid staged
  | (_, .error _) => []

/-- The targets that a run renames a file to before a rename fails, in order. -/
def renamed (d : Disk) (s : Settings) : List Path :=
  match tables d s with
  | .ok tables => renamedFor d s tables
  | .error _ => []

theorem renamed_of_tables_eq_ok {d : Disk} {s : Settings} {tables : List Table}
    (h : Run.tables d s = .ok tables) : renamed d s = renamedFor d s tables := by
  rw [renamed, h]

theorem write_error {d d' : Disk} {s : Settings} {tables : List Table} {f : Failure}
    (h : write d s tables = (d', .error f)) :
    d.NoNewFile d' ∧ (∃ path cause, f = .write path cause) ∧
      d.LosesOnly d' (renamedFor d s tables) ∧
      (renamedFor d s tables = [] ∨ ∃ failed rest cause, f = .write failed cause ∧
        (files s tables).map Prod.fst = renamedFor d s tables ++ failed :: rest) := by
  rcases write_eq_error.1 h with hstage | ⟨mid, staged, hstage, hcommit⟩
  · obtain ⟨hno, hkeep, dir, cause, rfl⟩ := Staging.stageAll_error (Staging.prepared_nil d) hstage
    rw [renamedFor, hstage]
    exact ⟨hno, ⟨dir, cause, rfl⟩, hkeep, Or.inl rfl⟩
  · obtain ⟨ws, hprep, rfl, hfiles⟩ := Staging.stageAll_ok (Staging.prepared_nil d) hstage
    obtain ⟨hno, hlost, failed, rest, cause, rfl, htargets⟩ :=
      Staging.commitAfter_error hprep.committing hcommit
    rw [renamedFor, hstage]
    refine ⟨hno, ⟨failed, cause, rfl⟩, hlost, Or.inr ⟨failed, rest, cause, rfl, ?_⟩⟩
    rw [← hfiles, List.map_map]
    exact htargets

end Run

/-- A run fails before it writes, and then nothing changes, or while it writes. -/
theorem runBy_eq_error {turn : Nat} {d d' : Disk} {s : Settings} {dry : Bool} {f : Failure} :
    runBy turn d s dry = (d', .error f) ↔ (Run.tablesBy turn d s = .error f ∧ d' = d) ∨
      ∃ tables, Run.tablesBy turn d s = .ok tables ∧ dry = false ∧
        Run.write d s tables = (d', .error f) := by
  unfold runBy
  cases Run.tablesBy turn d s with
  | error f' => simp [eq_comm, and_comm]
  | ok tables =>
    cases dry with
    | true => simp
    | false =>
      cases hw : Run.write d s tables with
      | mk d₁ result => cases result <;> simp [hw]

theorem run_eq_error {d d' : Disk} {s : Settings} {dry : Bool} {f : Failure} :
    run d s dry = (d', .error f) ↔ (Run.tables d s = .error f ∧ d' = d) ∨
      ∃ tables, Run.tables d s = .ok tables ∧ dry = false ∧
        Run.write d s tables = (d', .error f) :=
  runBy_eq_error

theorem fst_runBy_true (turn : Nat) (d : Disk) (s : Settings) : (runBy turn d s true).1 = d := by
  unfold runBy
  cases Run.tablesBy turn d s <;> rfl

theorem runBy_true_eq_ok {turn : Nat} {d : Disk} {s : Settings} {out : Outcome} :
    (runBy turn d s true).2 = .ok out ↔
      ∃ tables, Run.tablesBy turn d s = .ok tables ∧ out = ⟨tables, [], Run.skipped tables⟩ := by
  unfold runBy
  cases Run.tablesBy turn d s <;> simp [eq_comm]

theorem disk_run (d : Disk) (s : Settings) (dry : Bool) :
    (run d s dry).1 = d ∨ dry = false ∧ ∃ tables, Run.tables d s = .ok tables ∧
      (run d s dry).1 = (Run.write d s tables).1 := by
  unfold run runBy Run.tables
  cases Run.tablesBy 0 d s with
  | error f => exact Or.inl rfl
  | ok tables =>
    cases dry with
    | true => exact Or.inl rfl
    | false =>
      refine Or.inr ⟨rfl, tables, rfl, ?_⟩
      dsimp only
      rw [if_neg Bool.false_ne_true]
      rcases Run.write d s tables with ⟨d₁, f | written⟩ <;> rfl

/-- A run that fails loses the files at the targets that it has renamed a file to, and no others.
If there are such targets, they are those of the run's files in front of the one that the failure
tells. Like every disk, `d` has no symbolic links and no permissions. -/
theorem run_error_losesOnly {d d' : Disk} {s : Settings} {f : Failure}
    (h : run d s false = (d', .error f)) :
    d.LosesOnly d' (Run.renamed d s) ∧
      (Run.renamed d s = [] ∨ ∃ tables failed rest cause, Run.tables d s = .ok tables ∧
        f = .write failed cause ∧
        (Run.files s tables).map Prod.fst = Run.renamed d s ++ failed :: rest) := by
  rcases run_eq_error.1 h with ⟨htables, rfl⟩ | ⟨tables, htables, -, hwrite⟩
  · rw [Run.renamed, htables]
    exact ⟨.refl d', Or.inl rfl⟩
  · rw [Run.renamed_of_tables_eq_ok htables]
    obtain ⟨-, -, hlost, hrenamed⟩ := Run.write_error hwrite
    refine ⟨hlost, hrenamed.imp_right ?_⟩
    rintro ⟨failed, rest, cause, rfl, htargets⟩
    exact ⟨tables, failed, rest, cause, htables, rfl, htargets⟩

theorem Run.tables_eq_ok {d : Disk} {s : Settings} {paths : List Path} {read : List Table}
    (hvalid : s.validate = .ok ()) (hfind : Discovery.find d s.migrations s.pattern = .ok paths)
    (hload : Discovery.load d paths = .ok read) :
    Run.tables d s = .ok ((Selection.ofNames s.skip s.only).apply read) := by
  rw [Discovery.load] at hload
  rw [Run.tables, Run.tablesBy, hvalid]
  simp only [Except.mapError, bind, Except.bind, hfind, hload]
  rfl

theorem Run.exists_of_tables_eq_ok {d : Disk} {s : Settings} {tables : List Table}
    (h : Run.tables d s = .ok tables) : s.validate = .ok () ∧ ∃ paths read,
      Discovery.find d s.migrations s.pattern = .ok paths ∧ Discovery.load d paths = .ok read ∧
      tables = (Selection.ofNames s.skip s.only).apply read := by
  obtain ⟨_, hvalid, h⟩ := bind_eq_ok.1 h
  obtain ⟨paths, hfind, h⟩ := bind_eq_ok.1 h
  obtain ⟨read, hload, h⟩ := bind_eq_ok.1 h
  cases h
  exact ⟨mapError_eq_ok.1 hvalid, paths, read, hfind, hload, rfl⟩

/-- A migration, the model that an earlier run made from it, and a directory at `r`. -/
def earlierRun : Disk where
  entries := [(["m"], .dir), (["1.sql", "m"], .file (Text.encode "CREATE TABLE a (".toList)),
    (["models"], .dir), (["a_model.go", "models"], .file (Text.encode "old".toList)),
    (["r"], .dir)]
  work := []
  tempCount := 0

def reporting (path : String) : Settings where
  migrations := ⟨"m"⟩
  pattern := "1.sql"
  report? := some ⟨path⟩

def earlierTable : Table where
  names := .ofText "a"
  columns := []
  failures := []
  disabled := false

theorem tables_earlierRun (path : String) :
    Run.tables earlierRun (reporting path) = .ok [earlierTable] := by
  have hvalid : (reporting path).validate = .ok () :=
    show (reporting "").validate = .ok () by decide +kernel
  have hfind : Discovery.find earlierRun ⟨"m"⟩ "1.sql" = .ok [⟨"m/1.sql"⟩] :=
    Discovery.find_eq_singleton (by decide +kernel)
  have hload : Discovery.load earlierRun [⟨"m/1.sql"⟩] = .ok [earlierTable] := by decide +kernel
  exact Run.tables_eq_ok hvalid hfind hload

theorem run_earlierRun : ∃ d', run earlierRun (reporting "r") false =
    (d', .error (.write ⟨"r"⟩ .isADirectory)) ∧ d'.get? ["a_model.go", "models"] = none := by
  refine ⟨_, run_eq_error.2 (Or.inr ⟨_, tables_earlierRun "r", rfl, Prod.ext rfl ?_⟩), ?_⟩
  · decide +kernel
  · decide +kernel

theorem renamed_earlierRun : Run.renamed earlierRun (reporting "r") = [⟨"models/a_model.go"⟩] := by
  rw [Run.renamed_of_tables_eq_ok (tables_earlierRun "r")]
  decide +kernel

theorem earlierRun_losesOnly : ∃ d' f, run earlierRun (reporting "r") false = (d', .error f) ∧
    Run.renamed earlierRun (reporting "r") = [⟨"models/a_model.go"⟩] ∧
    earlierRun.LosesOnly d' (Run.renamed earlierRun (reporting "r")) ∧
    ∃ tables failed rest cause, Run.tables earlierRun (reporting "r") = .ok tables ∧
      f = .write failed cause ∧ (Run.files (reporting "r") tables).map Prod.fst =
        Run.renamed earlierRun (reporting "r") ++ failed :: rest := by
  obtain ⟨d', hrun, -⟩ := run_earlierRun
  obtain ⟨hlost, hrenamed⟩ := run_error_losesOnly hrun
  refine ⟨d', _, hrun, renamed_earlierRun, hlost, hrenamed.resolve_left ?_⟩
  rw [renamed_earlierRun]
  exact List.cons_ne_nil _ _

/-- The model of the earlier run is lost. -/
theorem run_error_not_keeps_files : ¬ ∀ (d d' : Disk) (s : Settings) (f : Failure),
    run d s false = (d', .error f) → ∀ loc bytes, d.get? loc = some (.file bytes) →
      d'.get? loc = some (.file bytes) := by
  intro h
  obtain ⟨d', hrun, hlost⟩ := run_earlierRun
  have hkept := h earlierRun d' _ _ hrun ["a_model.go", "models"] (Text.encode "old".toList) rfl
  simp [hlost] at hkept

/-- A run that fails leaves no new file, and before it writes it changes nothing at all. This is so
on a tree of directories and files: through a symbolic link that a rename replaces, a temporary file
would be out of reach. -/
theorem run_error_noNewFile {d d' : Disk} {s : Settings} {dry : Bool} {f : Failure}
    (h : run d s dry = (d', .error f)) :
    d.NoNewFile d' ∧ ((∀ path cause, f ≠ .write path cause) → d' = d) := by
  rcases run_eq_error.1 h with ⟨-, rfl⟩ | ⟨tables, -, -, hwrite⟩
  · exact ⟨fun _ _ => id, fun _ => rfl⟩
  · obtain ⟨hno, ⟨path, cause, rfl⟩, -⟩ := Run.write_error hwrite
    exact ⟨hno, fun hf => absurd rfl (hf path cause)⟩

theorem earlierRun_noNewFile : ∃ d' f, run earlierRun (reporting "r") false = (d', .error f) ∧
    earlierRun.NoNewFile d' := by
  obtain ⟨d', hrun, -⟩ := run_earlierRun
  exact ⟨d', _, hrun, (run_error_noNewFile hrun).1⟩

end SchemaModels
