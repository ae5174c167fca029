import SchemaModels.Proofs.Model.Declared
import SchemaModels.Proofs.Model.Identifier
import SchemaModels.Proofs.Run.Written

namespace SchemaModels

open Text (Bytes)

theorem Name.oneLine_of_isIdentifier {s : String} (h : isIdentifier s = true) : OneLine s := by
  unfold isIdentifier at h
  split at h
  · cases h
  · rename_i c cs heq
    rw [Bool.and_eq_true, List.all_eq_true] at h
    rw [OneLine, heq, List.mem_cons, not_or]
    constructor
    · rintro rfl
      exact absurd h.1 (by decide)
    · exact fun hmem => absurd (h.2 _ hmem) (by decide)

namespace Settings

theorem oneLine_packageOf (dir : Path) : OneLine (packageOf dir) := by
  unfold packageOf
  split
  · decide
  · intro hmem
    rw [String.toList_ofList] at hmem
    exact absurd (Name.isNameChar_of_mem_clean _ hmem) (by decide)

theorem oneLine_packageName {s : Settings} (h : s.validate = .ok ()) : OneLine s.packageName := by
  unfold packageName
  cases hp : s.package? with
  | none => exact oneLine_packageOf s.output
  | some package => exact Name.oneLine_of_isIdentifier (isIdentifier_of_validate h package hp)

end Settings

theorem Discovery.sound_of_load {d : Disk} {paths : List Path} {tables : List Table}
    (h : load d paths = .ok tables) : ∀ t ∈ tables, t.Sound := by
  intro t ht
  obtain ⟨bytes, hbytes⟩ := exists_bytes_of_load h t ht
  exact Ddl.sound_of_tableOfBytes? hbytes

theorem Selection.sound_apply (s : Selection) {tables : List Table} (h : ∀ t ∈ tables, t.Sound) :
    ∀ t ∈ s.apply tables, t.Sound := by
  intro t ht
  obtain ⟨u, hu, rfl⟩ := List.mem_map.1 ht
  split
  · exact ⟨(h u hu).name, (h u hu).camelCase, (h u hu).columns⟩
  · exact h u hu

namespace Run

def typeDecls (tables : List Table) : List TypeDecl :=
  (tables.filter (!·.disabled)).flatMap Table.typeDecls

def declaredNames (s : Settings) (tables : List Table) : List String :=
  (models s tables).flatMap fun m => Reading.declaredNames m.contents

theorem of_tables_eq_ok {d : Disk} {s : Settings} {tables : List Table}
    (h : Run.tables d s = .ok tables) : OneLine s.packageName ∧ ∀ t ∈ tables, t.Sound := by
  obtain ⟨hvalid, paths, read, -, hload, rfl⟩ := exists_of_tables_eq_ok h
  exact ⟨Settings.oneLine_packageName hvalid,
    Selection.sound_apply _ (Discovery.sound_of_load hload)⟩

theorem declaredNames_eq {d : Disk} {s : Settings} {tables : List Table}
    (h : Run.tables d s = .ok tables) :
    declaredNames s tables = (typeDecls tables).flatMap TypeDecl.names := by
  obtain ⟨hpackage, hsound⟩ := of_tables_eq_ok h
  rw [declaredNames, typeDecls, models, List.flatMap_map, List.flatMap_assoc]
  refine List.flatMap_congr fun t ht => ?_
  exact Reading.declaredNames_contents (hsound t (List.mem_filter.1 ht).1) hpackage _

end Run

theorem tables_of_run {d d' : Disk} {s : Settings} {dry : Bool} {out : Outcome}
    (h : run d s dry = (d', .ok out)) : Run.tables d s = .ok out.tables := by
  cases dry with
  | false => exact (run_eq_ok.1 h).1
  | true =>
    obtain ⟨tables, htables, rfl⟩ := runBy_true_eq_ok.1 (congrArg Prod.snd h)
    exact htables

/-- All names that a run declares are different if and only if those of its types are and no
constant of a type is a name of another whose name goes on where that of the first ends. -/
theorem run_ok_declaredNames_nodup {d d' : Disk} {s : Settings} {dry : Bool} {out : Outcome}
    (h : run d s dry = (d', .ok out)) :
    (Run.declaredNames s out.tables).Nodup ↔ TypeDecl.Apart (Run.typeDecls out.tables) := by
  have htables := tables_of_run h
  rw [Run.declaredNames_eq htables]
  refine TypeDecl.nodup_flatMap_names ?_
  intro d hd
  obtain ⟨t, ht, hmem⟩ := List.mem_flatMap.1 hd
  exact ((Run.of_tables_eq_ok htables).2 t (List.mem_filter.1 ht).1).typeDecls d hmem

def fromMigrations : Settings where
  migrations := ⟨"m"⟩

def jobsDisk : Disk where
  entries := [(["m"], .dir), (["1.sql", "m"], .file Ddl.jobsMigration)]
  work := []
  tempCount := 0

theorem run_jobsDisk : run jobsDisk fromMigrations true =
    (jobsDisk, .ok ⟨[Ddl.jobsTable], [], []⟩) := by
  have hvalid : fromMigrations.validate = .ok () := by decide +kernel
  have hfind : Discovery.find jobsDisk ⟨"m"⟩ "*.sql" = .ok [⟨"m/1.sql"⟩] :=
    Discovery.find_eq_singleton (by decide +kernel)
  have hread : Discovery.readTable jobsDisk ⟨"m/1.sql"⟩ = .ok Ddl.jobsTable :=
    Discovery.readTable_eq_ok.2 ⟨_, rfl, Ddl.tableOfBytes?_jobsMigration⟩
  have hload : Discovery.load jobsDisk [⟨"m/1.sql"⟩] = .ok [Ddl.jobsTable] :=
    Discovery.load_eq_ok.2 ⟨.cons hread .nil, List.cons_ne_nil _ _, rfl⟩
  have htables := Run.tables_eq_ok hvalid hfind hload
  exact Prod.ext (fst_runBy_true 0 _ _) (runBy_true_eq_ok.2 ⟨_, htables, rfl⟩)

theorem jobsDisk_declaredNames_nodup : ∃ d' out, run jobsDisk fromMigrations true = (d', .ok out) ∧
    (Run.declaredNames fromMigrations out.tables).Nodup :=
  ⟨_, _, run_jobsDisk, (run_ok_declaredNames_nodup run_jobsDisk).2 (by decide +kernel)⟩

def roleMigration (table : String) : Bytes :=
  Text.encode ("CREATE TABLE " ++ table ++ " (\n  kind ENUM('x')\n)").toList

def roleTable (table : String) : Table where
  names := .ofText table
  columns := [⟨"kind", "Kind", .enum, none, ["x"], true⟩]
  failures := [⟨"", "", 3, .unexpectedFormat⟩]
  disabled := false

/-- Two tables with different names that are the same in camel case. -/
def rolesDisk : Disk where
  entries := [(["m"], .dir), (["1.sql", "m"], .file (roleMigration "user_role")),
    (["2.sql", "m"], .file (roleMigration "userRole"))]
  work := []
  tempCount := 0

def sqlFiles : Glob.Pattern := [.anySequence, .char '.', .char 's', .char 'q', .char 'l']

theorem find_rolesDisk :
    Discovery.find rolesDisk ⟨"m"⟩ "*.sql" = .ok [⟨"m/1.sql"⟩, ⟨"m/2.sql"⟩] := by
  have hquery : Glob.Query.ofChars (Discovery.fullPattern ⟨"m"⟩ "*.sql") =
      .ok ⟨⟨"."⟩, [[.char 'm'], sqlFiles], false⟩ := rfl
  have hdir : Glob.reach rolesDisk ⟨"."⟩ [[.char 'm'], sqlFiles] =
      Glob.reach rolesDisk ⟨"m"⟩ [sqlFiles] := rfl
  have hchildren : Glob.reach rolesDisk ⟨"m"⟩ [sqlFiles] =
      (rolesDisk.children ["m"]).map fun name => ⟨Glob.below ⟨"m"⟩ name, [sqlFiles]⟩ :=
    Glob.reach_children rfl (by decide) (by decide +kernel) rfl (by decide +kernel)
  refine Discovery.find_eq_of_sorted ?_ (by decide +kernel) (List.cons_ne_nil _ _)
  rw [hquery, Except.map, Glob.Query.paths, hdir, hchildren]
  decide +kernel

theorem load_rolesDisk : Discovery.load rolesDisk [⟨"m/1.sql"⟩, ⟨"m/2.sql"⟩] =
    .ok [roleTable "user_role", roleTable "userRole"] := by
  decide +kernel

theorem tables_rolesDisk : Run.tables rolesDisk fromMigrations =
    .ok [roleTable "user_role", roleTable "userRole"] := by
  have hvalid : fromMigrations.validate = .ok () := by decide +kernel
  exact Run.tables_eq_ok hvalid find_rolesDisk load_rolesDisk

/-- The run writes both models, and each declares all names of the other. -/
theorem run_ok_not_declaredNames_nodup : ¬ ∀ (d d' : Disk) (s : Settings) (dry : Bool)
    (out : Outcome), run d s dry = (d', .ok out) → (Run.declaredNames s out.tables).Nodup := by
  intro h
  have hwrite : Run.write rolesDisk fromMigrations [roleTable "user_role", roleTable "userRole"] =
      (_, .ok [⟨"models/user_role_model.go"⟩, ⟨"models/userRole_model.go"⟩]) :=
    Prod.ext rfl (by decide +kernel)
  have hrun : run rolesDisk fromMigrations false = (_, .ok ⟨_, _, []⟩) :=
    run_eq_ok.2 ⟨tables_rolesDisk, hwrite, rfl⟩
  have hnodup := h _ _ _ _ _ hrun
  rw [Run.declaredNames_eq tables_rolesDisk] at hnodup
  revert hnodup
  decide +kernel

end SchemaModels
