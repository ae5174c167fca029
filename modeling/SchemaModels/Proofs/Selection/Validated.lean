import SchemaModels.CommandLine
import SchemaModels.Proofs.Run.Failed
import SchemaModels.Proofs.Selection.Accumulated

namespace SchemaModels

namespace Settings

variable {s : Settings} {table : String}

def choice (s : Settings) : Choice := ⟨s.skip, s.only⟩

theorem selection_choice (s : Settings) : s.choice.selection = .ofNames s.skip s.only := rfl

theorem apart_of_validate (h : s.validate = .ok ()) (hskip : Choice.Names s.skip table) :
    ¬ Choice.Names s.only table := by
  rintro ⟨o, ho, hsame'⟩
  obtain ⟨n, hn, hsame⟩ := hskip
  have hboth : s.only.any (sameTable n) = true := by
    rw [← Text.foldAscii_eq_iff] at hsame hsame'
    exact List.any_eq_true.2 ⟨o, ho, beq_iff_eq.2 (hsame.trans hsame'.symm)⟩
  unfold validate at h
  split at h
  · cases h
  · split at h
    · cases h
    · split at h
      · cases h
      · rename_i hnone
        exact List.find?_eq_none.1 hnone n hn hboth

theorem ruledOut_iff_of_validate (h : s.validate = .ok ()) :
    s.choice.RulesOut table ↔
      if s.only = [] then Choice.Names s.skip table else ¬ Choice.Names s.only table := by
  rw [Choice.RulesOut, choice]
  split
  · rename_i honly
    simp [honly]
  · rename_i honly
    exact ⟨fun hout => hout.elim (apart_of_validate h) And.right, fun hout => .inr ⟨honly, hout⟩⟩

end Settings

/-- Which tables there are to write is the same for settings that are accepted and differ only in
the tables to skip, if only some tables are selected. -/
theorem Run.tables_eq_of_skip {s s' : Settings} (h : s.validate = .ok ())
    (h' : s'.validate = .ok ()) (hmigrations : s'.migrations = s.migrations)
    (hpattern : s'.pattern = s.pattern) (honly : s'.only = s.only) (hne : s.only ≠ []) (d : Disk) :
    Run.tables d s' = Run.tables d s := by
  have happly (read : List Table) : (Selection.ofNames s'.skip s'.only).apply read =
      (Selection.ofNames s.skip s.only).apply read := by
    have hrules (t : Table) : (Selection.ofNames s'.skip s'.only).rulesOut t =
        (Selection.ofNames s.skip s.only).rulesOut t := by
      rw [← Settings.selection_choice, ← Settings.selection_choice, Choice.rulesOut_selection,
        Choice.rulesOut_selection]
      simp only [Settings.ruledOut_iff_of_validate h, Settings.ruledOut_iff_of_validate h', honly,
        if_neg hne]
    exact List.map_congr_left fun t _ => by rw [hrules t]
  unfold Run.tables Run.tablesBy
  rw [h, h', hmigrations, hpattern]
  simp only [happly]

/-- Settings that are accepted enable exactly the tables that one list of theirs tells: the only
tables if there are some, and else all but the tables to skip. So with some only tables a run does
the same whatever tables it is to skip besides. -/
theorem enables_of_validate {s : Settings} (h : s.validate = .ok ()) :
    (∀ table, (Selection.ofNames s.skip s.only).enables table = true ↔
      (s.only ≠ [] → ∃ n ∈ s.only, Text.SameName n table) ∧
        (s.only = [] → ∀ n ∈ s.skip, ¬ Text.SameName n table)) ∧
    (s.only ≠ [] → ∀ skip, { s with skip }.validate = .ok () →
      ∀ d dryRun, run d { s with skip } dryRun = run d s dryRun) := by
  refine ⟨fun table => ?_, fun hne skip h' d dryRun => ?_⟩
  · rw [← Settings.selection_choice, Choice.enables_selection_iff,
      Settings.ruledOut_iff_of_validate h]
    by_cases honly : s.only = [] <;> simp [honly, Choice.Names]
  · have htables : Run.tables d { s with skip } = Run.tables d s :=
      Run.tables_eq_of_skip h h' rfl rfl rfl hne d
    unfold run runBy
    unfold Run.tables at htables
    rw [htables]
    rfl

def usersOnly : Settings :=
  ({ only := ["USERS", "tas\u212as"] } : CommandLine.Options).override
    { skip := ["tasks"], only := ["Orders"] }

theorem usersOnly_enables : usersOnly.validate = .ok () ∧
    (Selection.ofNames usersOnly.skip usersOnly.only).enables "users" = true ∧
    (Selection.ofNames usersOnly.skip usersOnly.only).enables "TASKS" = false ∧
    ∀ d dryRun, run d { usersOnly with skip := [] } dryRun = run d usersOnly dryRun := by
  have hvalid : usersOnly.validate = .ok () := by decide +kernel
  obtain ⟨henables, hrun⟩ := enables_of_validate hvalid
  refine ⟨hvalid, (henables "users").2 (by decide +kernel), ?_, ?_⟩
  · rw [← Bool.not_eq_true, henables "TASKS"]
    decide +kernel
  · exact hrun (by decide +kernel) [] (by decide +kernel)

end SchemaModels
