import SchemaModels.Proofs.Discovery.Loaded
import SchemaModels.Proofs.Run.Declared

namespace SchemaModels

namespace Run

/-- A run that writes gives the paths of the models in the order of their tables, without the
report's. -/
theorem paths_of_write {d d' : Disk} {s : Settings} {tables : List Table} {written : List Path}
    (h : write d s tables = (d', .ok written)) :
    written = (tables.filter (!·.disabled)).map (modelPath s) := by
  obtain ⟨mid, staged, paths, hstage, hcommit, rfl⟩ := write_eq_ok.1 h
  obtain ⟨ws, -, rfl, hfiles⟩ := Staging.stageAll_ok (Staging.prepared_nil d) hstage
  have htargets : paths = (files s tables).map Prod.fst := by
    rw [Staging.paths_of_commitAfter hcommit, ← hfiles, List.map_map, List.map_map]
    rfl
  have hmodels : (models s tables).length =
      ((tables.filter (!·.disabled)).map (modelPath s)).length := by
    rw [models, List.length_map, List.length_map]
  rw [htargets, files_eq, List.map_append, List.map_map, hmodels]
  exact List.take_left

/-- Whether the selection of some settings enables a table. -/
def enables (s : Settings) (t : Table) : Bool :=
  (Selection.ofNames s.skip s.only).enables t.names.text

theorem disabled_of_mem_tables {d : Disk} {s : Settings} {tables : List Table}
    (h : Run.tables d s = .ok tables) : ∀ t ∈ tables, t.disabled = !enables s t := by
  obtain ⟨-, paths, read, -, hload, rfl⟩ := exists_of_tables_eq_ok h
  exact Selection.disabled_of_mem_apply (Discovery.enabled_of_load hload)

theorem components_modelPath (s : Settings) {t : Table}
    (h : ∀ c ∈ t.names.text.toList, Text.isWord c = true) :
    (modelPath s t).components = s.output.components ++ [.name (Name.modelFile t.names.text)] :=
  Path.components_join s.output (Name.isPlainName_modelFile h)

theorem nodup_components_modelPath (s : Settings) {tables : List Table} (h : NamedApart tables) :
    (tables.map fun t => (modelPath s t).components).Nodup := by
  have hcomponents : (tables.map fun t => (modelPath s t).components) =
      (tables.map (·.names.text)).map fun name =>
        s.output.components ++ [.name (Name.modelFile name)] := by
    rw [List.map_map]
    exact List.map_congr_left fun t ht => components_modelPath s (h.isWord t ht)
  rw [hcomponents]
  refine h.nodup.map ?_
  intro a b heq
  have hlast := List.append_cancel_left heq
  exact Name.modelFile_injective (by simpa using hlast)

end Run

/-- A run that succeeds writes the models of the tables that the selection enables and skips the
others, each in the order of the tables. The models have different paths, each one name below the
output directory. -/
theorem run_ok_partition {d d' : Disk} {s : Settings} {out : Outcome}
    (h : run d s false = (d', .ok out)) :
    out.written = (out.tables.filter (Run.enables s)).map (Run.modelPath s) ∧
    out.skipped = (out.tables.filter (!Run.enables s ·)).map (·.names.text) ∧
    out.written.length + out.skipped.length = out.tables.length ∧
    (out.written.map Path.components).Nodup ∧
    ∀ p ∈ out.written, ∃ name, IsPlainName name ∧
      p.components = s.output.components ++ [.name name] := by
  obtain ⟨htables, hwrite, hskipped⟩ := run_eq_ok.1 h
  have hnames := Run.namedApart_of_tables htables
  have hdisabled := Run.disabled_of_mem_tables htables
  have hwritten : out.written = (out.tables.filter (Run.enables s)).map (Run.modelPath s) := by
    rw [Run.paths_of_write hwrite,
      List.filter_congr fun t ht => by rw [hdisabled t ht, Bool.not_not]]
  have hskip : out.skipped = (out.tables.filter (!Run.enables s ·)).map (·.names.text) := by
    rw [hskipped, Run.skipped, List.filter_congr hdisabled]
  refine ⟨hwritten, hskip, ?_, ?_, ?_⟩
  · rw [hwritten, hskip, List.length_map, List.length_map]
    exact (List.length_eq_length_filter_add _).symm
  · rw [hwritten, List.map_map]
    exact (Run.nodup_components_modelPath s hnames).sublist (List.filter_sublist.map _)
  · intro p hp
    rw [hwritten] at hp
    obtain ⟨t, ht, rfl⟩ := List.mem_map.1 hp
    have hword := hnames.isWord t (List.mem_filter.1 ht).1
    exact ⟨_, Name.isPlainName_modelFile hword, Run.components_modelPath s hword⟩

/-- One of the two tables is skipped, by its name in other letters. -/
def skippingRole : Settings := { fromMigrations with skip := ["USER_ROLE"] }

def skippedRole : Table := { roleTable "user_role" with disabled := true }

theorem tables_skippingRole : Run.tables rolesDisk skippingRole =
    .ok [skippedRole, roleTable "userRole"] := by
  have hvalid : skippingRole.validate = .ok () := by decide +kernel
  have hselected : (Selection.ofNames skippingRole.skip skippingRole.only).apply
      [roleTable "user_role", roleTable "userRole"] = [skippedRole, roleTable "userRole"] := by
    simp only [Selection.apply, Selection.rulesOut, Selection.enables, Selection.ofNames,
      Text.foldAscii_eq_ofList, List.map]
    decide +kernel
  rw [Run.tables_eq_ok hvalid find_rolesDisk load_rolesDisk, hselected]

theorem rolesDisk_partition : ∃ d' out, run rolesDisk skippingRole false = (d', .ok out) ∧
    out.written = [⟨"models/userRole_model.go"⟩] ∧ out.skipped = ["user_role"] ∧
    out.written.length + out.skipped.length = out.tables.length := by
  have hwrite : Run.write rolesDisk skippingRole [skippedRole, roleTable "userRole"] =
      (_, .ok [⟨"models/userRole_model.go"⟩]) :=
    Prod.ext rfl (by decide +kernel)
  have hrun : run rolesDisk skippingRole false = (_, .ok ⟨_, _, ["user_role"]⟩) :=
    run_eq_ok.2 ⟨tables_skippingRole, hwrite, rfl⟩
  obtain ⟨-, -, hlength, -, -⟩ := run_ok_partition hrun
  exact ⟨_, _, hrun, rfl, rfl, hlength⟩

end SchemaModels
