import SchemaModels.Proofs.Disk.Join
import SchemaModels.Proofs.Run.Failed

namespace SchemaModels

open Text (Bytes)

theorem Text.head?_encode {cs : List Char} {c : Char} {b : UInt8}
    (hb : String.utf8EncodeChar c = [b]) (h : cs.head? = some c) :
    (Text.encode cs).head? = some b := by
  cases cs with
  | nil => cases h
  | cons first rest =>
    cases h
    simp [Text.encode, hb]

namespace Name

theorem isPlainName_modelFile {name : String} (h : ∀ c ∈ name.toList, Text.isWord c = true) :
    IsPlainName (modelFile name) := by
  have htext : (modelFile name).toList = name.toList ++ "_model.go".toList :=
    String.toList_append
  have hlength : 9 ≤ (modelFile name).toList.length := by
    simp [htext]
  refine ⟨fun hmem => ?_, fun heq => ?_, fun heq => ?_, fun heq => ?_⟩
  · rw [htext, List.mem_append] at hmem
    rcases hmem with hmem | hmem
    · exact absurd (h '/' hmem) (by decide)
    · exact absurd hmem (by decide)
  all_goals simp [heq] at hlength

theorem getLast?_modelFile (name : String) : (modelFile name).toList.getLast? = some 'o' := by
  simp [modelFile]

theorem modelFile_ne_tempName (table : String) (n : Nat) :
    modelFile table ≠ Staging.tempName n := by
  intro h
  obtain ⟨c, hc, hdigit⟩ := Staging.getLast?_tempName n
  rw [← h, getLast?_modelFile, Option.some.injEq] at hc
  subst hc
  exact absurd hdigit (by decide)

theorem modelFile_injective : Function.Injective modelFile := by
  intro a b h
  have hlist := congrArg String.toList h
  simp only [modelFile, String.toList_append, List.append_left_inj] at hlist
  exact String.toList_injective hlist

end Name

namespace Run

open Disk

def modelPath (s : Settings) (t : Table) : Path := s.output.join (Name.modelFile t.names.text)

def modelBytes (s : Settings) (t : Table) : Bytes :=
  Text.encode (ModelFile.ofTable t s.packageName s.nullablePointers).contents.toList

def reportBytes (tables : List Table) : Bytes := Text.encode (Diagnostics.text tables).toList

theorem files_eq (s : Settings) (tables : List Table) :
    files s tables = (tables.filter (!·.disabled)).map (fun t => (modelPath s t, modelBytes s t)) ++
      s.report?.toList.map fun path => (path, reportBytes tables) := by
  rw [files, models, List.map_map]
  rfl

example : (files (reporting "r/report.json") [earlierTable]).map (·.1) =
    [⟨"models/a_model.go"⟩, ⟨"r/report.json"⟩] := by
  decide +kernel

theorem head?_modelBytes (s : Settings) (t : Table) : (modelBytes s t).head? = some 0x2f := by
  apply Text.head?_encode (c := '/') rfl
  simp only [ModelFile.ofTable]
  rw [Model.source, unlines, String.toList_ofList]
  rfl

theorem head?_reportBytes (tables : List Table) : (reportBytes tables).head? = some 0x5b := by
  apply Text.head?_encode (c := '[') rfl
  rw [Diagnostics.text, Diagnostics.ofTables, Json.pretty, String.toList_append,
    String.toList_ofList, Json.chars]
  unfold Json.enclose
  split <;> rfl

theorem modelBytes_ne_reportBytes (s : Settings) (t : Table) (tables : List Table) :
    modelBytes s t ≠ reportBytes tables := by
  intro h
  have hhead := congrArg List.head? h
  rw [head?_modelBytes, head?_reportBytes] at hhead
  exact absurd hhead (by decide)

theorem namedApart_of_tables {d : Disk} {s : Settings} {tables : List Table}
    (h : Run.tables d s = .ok tables) : NamedApart tables := by
  obtain ⟨-, paths, read, -, hload, rfl⟩ := exists_of_tables_eq_ok h
  exact Selection.namedApart_apply _ (Discovery.namedApart_of_load hload)

theorem place?_modelPath {d : Disk} {s : Settings} {t : Table} {loc : Location}
    (hword : ∀ c ∈ t.names.text.toList, Text.isWord c = true)
    (h : d.place? (modelPath s t) = some loc) :
    ∃ above, loc = Name.modelFile t.names.text :: above :=
  place?_join (Name.isPlainName_modelFile hword) h

theorem names_eq_of_place?_modelPath {d : Disk} {s : Settings} {t u : Table} {loc : Location}
    (ht : ∀ c ∈ t.names.text.toList, Text.isWord c = true)
    (hu : ∀ c ∈ u.names.text.toList, Text.isWord c = true)
    (h : d.place? (modelPath s t) = some loc) (h' : d.place? (modelPath s u) = some loc) :
    t.names.text = u.names.text := by
  obtain ⟨above, rfl⟩ := place?_modelPath ht h
  obtain ⟨above', heq⟩ := place?_modelPath hu h'
  exact Name.modelFile_injective (List.cons.inj heq).1

theorem place?_modelPath_ne_temp {d d₀ : Disk} {s : Settings} {t : Table} {w : Staging.Waiting}
    (hword : ∀ c ∈ t.names.text.toList, Text.isWord c = true) (hw : w.Holds d₀ d) :
    d.place? (modelPath s t) ≠ some w.temp := by
  intro h
  obtain ⟨above, habove⟩ := place?_modelPath hword h
  obtain ⟨dir, -, hdir⟩ := Staged.place?_eq_some.1 hw.place
  obtain ⟨n, hn⟩ := hw.name
  apply Name.modelFile_ne_tempName t.names.text n
  rw [← hn]
  exact (List.cons.inj (habove.symm.trans hdir)).1

/-- No rename of a run puts a file where a later one takes its own. -/
theorem ready_of_stageAll {d mid : Disk} {s : Settings} {tables : List Table}
    {staged : List Staged} (hnames : NamedApart tables)
    (h : Staging.stageAll d [] (files s tables) = (mid, .ok staged)) :
    ∃ ws, Staging.Prepared d mid ws ∧ Staging.Ready mid ws ∧
      staged = ws.map Staging.Waiting.staged ∧ ws.map Staging.Waiting.file = files s tables := by
  obtain ⟨ws, hprep, rfl, hfiles⟩ := Staging.stageAll_ok (Staging.prepared_nil d) h
  rw [List.nil_append] at hprep ⊢
  refine ⟨ws, hprep, ⟨fun w hw => ⟨(hprep.holds w hw).place, (hprep.holds w hw).content⟩,
    hprep.distinct, ?_⟩, rfl, hfiles⟩
  -- The report is the last file, so that only the targets of models matter.
  rw [files_eq] at hfiles
  obtain ⟨ms, rs, rfl, hms, hrs⟩ := List.map_eq_append_iff.1 hfiles
  have hne : ∀ w ∈ ms, ∀ v ∈ ms ++ rs, mid.place? w.staged.target ≠ some v.temp := by
    intro w hw v hv
    have hfile : w.file ∈ _ := hms ▸ List.mem_map_of_mem hw
    obtain ⟨t, ht, heq⟩ := List.mem_map.1 hfile
    have htarget : modelPath s t = w.staged.target := congrArg Prod.fst heq
    rw [← htarget]
    exact place?_modelPath_ne_temp (hnames.isWord t (List.mem_filter.1 ht).1) (hprep.holds v hv)
  have hlength : rs.length ≤ 1 := by
    have := congrArg List.length hrs
    rw [List.length_map, List.length_map] at this
    rw [this]
    cases s.report? <;> simp
  refine List.pairwise_append.2 ⟨?_, ?_, ?_⟩
  · exact List.pairwise_of_forall_mem_list fun w hw v hv =>
      hne w hw v (List.mem_append_left rs hv)
  · match rs, hlength with
    | [], _ => exact .nil
    | [w], _ => exact List.pairwise_singleton _ w
  · exact fun w hw v hv => hne w hw v (List.mem_append_right ms hv)

/-- After a run each of its files has a place, and is there unless a later one has that place. -/
theorem write_ok {d d' : Disk} {s : Settings} {tables : List Table} {written : List Path}
    (hnames : NamedApart tables) (h : write d s tables = (d', .ok written))
    (front : List (Path × Bytes)) (file : Path × Bytes) (back : List (Path × Bytes))
    (hfiles : files s tables = front ++ file :: back) :
    ∃ loc, d'.place? file.1 = some loc ∧
      ((∀ other ∈ back, d'.place? other.1 ≠ some loc) → d'.get? loc = some (.file file.2)) := by
  obtain ⟨mid, staged, paths, hstage, hcommit, -⟩ := write_eq_ok.1 h
  obtain ⟨ws, -, hready, rfl, hws⟩ := ready_of_stageAll hnames hstage
  rw [hfiles] at hws
  obtain ⟨fs, rest, rfl, -, hrest⟩ := List.map_eq_append_iff.1 hws
  obtain ⟨w, bs, rfl, rfl, rfl⟩ := List.map_eq_cons_iff.1 hrest
  obtain ⟨loc, hloc, hheld⟩ := Staging.commit_ok hready hcommit fs w bs rfl
  refine ⟨loc, hloc, ?_⟩
  intro hlater
  apply hheld
  intro v hv
  exact hlater v.file (List.mem_map_of_mem hv)

theorem report_of_write {d d' : Disk} {s : Settings} {tables : List Table} {written : List Path}
    (hnames : NamedApart tables) (h : write d s tables = (d', .ok written)) {path : Path}
    (hpath : s.report? = some path) :
    ∃ loc, d'.place? path = some loc ∧ d'.get? loc = some (.file (reportBytes tables)) := by
  have hfiles := files_eq s tables
  rw [hpath] at hfiles
  obtain ⟨loc, hloc, hheld⟩ := write_ok hnames h _ _ [] hfiles
  exact ⟨loc, hloc, hheld (by simp)⟩

theorem model_of_write {d d' : Disk} {s : Settings} {tables : List Table} {written : List Path}
    (hnames : NamedApart tables) (h : write d s tables = (d', .ok written)) {t : Table}
    (ht : t ∈ tables) (henabled : t.disabled = false) :
    ∃ loc, d'.place? (modelPath s t) = some loc ∧
      ((∀ path, s.report? = some path → d'.place? path ≠ some loc) →
        d'.get? loc = some (.file (modelBytes s t))) := by
  have hdistinct : ((tables.filter (!·.disabled)).map (·.names.text)).Nodup :=
    hnames.nodup.sublist (List.filter_sublist.map _)
  have hmem : t ∈ tables.filter (!·.disabled) := List.mem_filter.2 ⟨ht, by simp [henabled]⟩
  obtain ⟨front, back, hsplit⟩ := List.append_of_mem hmem
  have hfiles := files_eq s tables
  rw [hsplit, List.map_append, List.map_cons, List.append_assoc, List.cons_append] at hfiles
  rw [hsplit, List.map_append, List.map_cons] at hdistinct
  obtain ⟨loc, hloc, hheld⟩ := write_ok hnames h _ _ _ hfiles
  dsimp only at hloc hheld
  refine ⟨loc, hloc, ?_⟩
  intro hreport
  apply hheld
  intro other hother hp
  rcases List.mem_append.1 hother with hmodel | hlast
  · obtain ⟨u, hu, rfl⟩ := List.mem_map.1 hmodel
    have huMem : u ∈ tables.filter (!·.disabled) := by simp [hsplit, hu]
    have hname := names_eq_of_place?_modelPath (hnames.isWord t ht)
      (hnames.isWord u (List.mem_filter.1 huMem).1) hloc hp
    have hfresh := (List.nodup_cons.1 (List.nodup_append.1 hdistinct).2.1).1
    exact hfresh (hname ▸ List.mem_map_of_mem hu)
  · obtain ⟨path, hpath, rfl⟩ := List.mem_map.1 hlast
    exact hreport path (by simpa using hpath) hp

end Run

theorem runBy_eq_ok {turn : Nat} {d d' : Disk} {s : Settings} {out : Outcome} :
    runBy turn d s false = (d', .ok out) ↔ Run.tablesBy turn d s = .ok out.tables ∧
      Run.write d s out.tables = (d', .ok out.written) ∧ out.skipped = Run.skipped out.tables := by
  unfold runBy
  constructor
  · intro h
    split at h
    · cases h
    · rename_i tables htables
      rw [if_neg Bool.false_ne_true] at h
      split at h
      · cases h
      · rename_i written hwrite
        cases h
        exact ⟨htables, hwrite, rfl⟩
  · rintro ⟨htables, hwrite, hskipped⟩
    obtain ⟨tables, written, skipped⟩ := out
    dsimp only at htables hwrite hskipped
    rw [htables, hskipped]
    dsimp only
    rw [if_neg Bool.false_ne_true, hwrite]

theorem run_eq_ok {d d' : Disk} {s : Settings} {out : Outcome} :
    run d s false = (d', .ok out) ↔ Run.tables d s = .ok out.tables ∧
      Run.write d s out.tables = (d', .ok out.written) ∧ out.skipped = Run.skipped out.tables :=
  runBy_eq_ok

/-- After a run the report is on the disk, and exactly those models of enabled tables are whose
place is not the report's. Places are those of a tree without symbolic links. -/
theorem run_ok_writes {d d' : Disk} {s : Settings} {out : Outcome}
    (h : run d s false = (d', .ok out)) :
    (∀ path, s.report? = some path → d'.read path = .ok (Run.reportBytes out.tables)) ∧
    ∀ t ∈ out.tables, t.disabled = false →
      (d'.read (Run.modelPath s t) = .ok (Run.modelBytes s t) ↔
        ∀ path, s.report? = some path → d'.resolve path ≠ d'.resolve (Run.modelPath s t)) := by
  obtain ⟨htables, hwrite, -⟩ := run_eq_ok.1 h
  have hnames := Run.namedApart_of_tables htables
  have hread : ∀ path, s.report? = some path →
      d'.read path = .ok (Run.reportBytes out.tables) := by
    intro path hpath
    obtain ⟨loc, hloc, hfile⟩ := Run.report_of_write hnames hwrite hpath
    exact Disk.read_of_place? hloc hfile
  refine ⟨hread, ?_⟩
  intro t ht henabled
  obtain ⟨loc, hloc, hfile⟩ := Run.model_of_write hnames hwrite ht henabled
  constructor
  · -- At one place there would be the report and the model, which differ in their first byte.
    intro hmodel path hpath hsame
    have hboth : d'.read path = d'.read (Run.modelPath s t) := by rw [Disk.read, Disk.read, hsame]
    rw [hread path hpath, hmodel, Except.ok.injEq] at hboth
    exact Run.modelBytes_ne_reportBytes s t out.tables hboth.symm
  · intro happart
    apply Disk.read_of_place? hloc
    apply hfile
    intro path hpath hp
    obtain ⟨loc', hloc', hreportFile⟩ := Run.report_of_write hnames hwrite hpath
    cases hp.symm.trans hloc'
    exact happart path hpath ((Disk.resolve_of_place? hp hreportFile).trans
      (Disk.resolve_of_place? hloc hreportFile).symm)

theorem run_earlierRun_eq_ok (path : String) {d' : Disk}
    (h : Run.write earlierRun (reporting path) [earlierTable] =
      (d', .ok [⟨"models/a_model.go"⟩])) :
    run earlierRun (reporting path) false =
      (d', .ok ⟨[earlierTable], [⟨"models/a_model.go"⟩], []⟩) :=
  run_eq_ok.2 ⟨tables_earlierRun path, h, rfl⟩

theorem earlierRun_writes_model : ∃ d' out, run earlierRun (reporting "r/report.json") false =
    (d', .ok out) ∧ d'.read (Run.modelPath (reporting "r/report.json") earlierTable) =
      .ok (Run.modelBytes (reporting "r/report.json") earlierTable) := by
  have hrun := run_earlierRun_eq_ok "r/report.json" (Prod.ext rfl (by decide +kernel))
  refine ⟨_, _, hrun, ((run_ok_writes hrun).2 earlierTable (by simp) rfl).2 ?_⟩
  rintro _ ⟨rfl⟩
  decide +kernel

/-- A report at the path of a model replaces it, and the run does not fail. -/
theorem run_ok_not_writes_models : ¬ ∀ (d d' : Disk) (s : Settings) (out : Outcome),
    run d s false = (d', .ok out) → ∀ t ∈ out.tables, t.disabled = false →
      d'.read (Run.modelPath s t) = .ok (Run.modelBytes s t) := by
  intro h
  have hpath : Run.modelPath (reporting "models/a_model.go") earlierTable =
      ⟨"models/a_model.go"⟩ := by
    decide +kernel
  have hwrite : Run.write earlierRun (reporting "models/a_model.go") [earlierTable] =
      (_, .ok [⟨"models/a_model.go"⟩]) :=
    Prod.ext rfl (by decide +kernel)
  have hmodel := h _ _ _ _ (run_earlierRun_eq_ok _ hwrite) earlierTable (by simp) rfl
  have hnames := Run.namedApart_of_tables (tables_earlierRun "models/a_model.go")
  obtain ⟨loc, hloc, hfile⟩ := Run.report_of_write hnames hwrite rfl
  rw [hpath, Disk.read_of_place? hloc hfile, Except.ok.injEq] at hmodel
  exact Run.modelBytes_ne_reportBytes _ _ _ hmodel.symm

end SchemaModels
