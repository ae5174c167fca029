import SchemaModels.Proofs.Text.Folded
import SchemaModels.Selection

namespace SchemaModels

structure Choice where
  skip : List String
  only : List String
  deriving DecidableEq

namespace Choice

def selection (c : Choice) : Selection := .ofNames c.skip c.only

/-- Whether one of the names is that of the table, whatever the case of its ASCII letters. -/
def Names (names : List String) (table : String) : Prop := ∃ n ∈ names, Text.SameName n table

instance (names : List String) (table : String) : Decidable (Names names table) :=
  inferInstanceAs (Decidable (∃ n ∈ names, _))

/-- The table is skipped, or only others are selected. -/
def RulesOut (c : Choice) (table : String) : Prop :=
  Names c.skip table ∨ c.only ≠ [] ∧ ¬ Names c.only table

instance (c : Choice) (table : String) : Decidable (c.RulesOut table) :=
  inferInstanceAs (Decidable (_ ∨ _))

theorem contains_map_foldAscii {names : List String} {table : String} :
    (names.map Text.foldAscii).contains (Text.foldAscii table) = true ↔ Names names table := by
  simp only [List.contains_iff_mem, List.mem_map, Text.foldAscii_eq_iff, Names]

theorem enables_selection_iff {c : Choice} {table : String} :
    c.selection.enables table = true ↔ ¬ c.RulesOut table := by
  have honly : (c.only.map Text.foldAscii).isEmpty = true ↔ c.only = [] := by simp
  simp only [selection, Selection.ofNames, Selection.enables, Bool.and_eq_true, Bool.or_eq_true,
    Bool.not_eq_true', ← Bool.not_eq_true, contains_map_foldAscii, honly, RulesOut]
  tauto

theorem rulesOut_selection {c : Choice} {t : Table} :
    c.selection.rulesOut t = decide (c.RulesOut t.names.text) := by
  rw [Selection.rulesOut, Bool.eq_iff_iff, Bool.not_eq_true', ← Bool.not_eq_true,
    enables_selection_iff, not_not, decide_eq_true_eq]

end Choice

/-- A table that is disabled if it was or if `out` says so. -/
def Table.orDisabled (t : Table) (out : Bool) : Table := { t with disabled := t.disabled || out }

theorem Table.orDisabled_orDisabled (t : Table) (out out' : Bool) :
    (t.orDisabled out).orDisabled out' = t.orDisabled (out || out') := by
  simp [Table.orDisabled, Bool.or_assoc]

namespace Selection

/-- Applies some selections in turn, and counts for each what it rules out. -/
def accumulate : List Selection → List Table → List Table × List Nat
  | [], tables => (tables, [])
  | s :: ss, tables =>
    let (after, counts) := accumulate ss (s.apply tables)
    (after, s.countRuledOut tables :: counts)

theorem apply_eq (s : Selection) (tables : List Table) :
    s.apply tables = tables.map fun t => t.orDisabled (s.rulesOut t) := by
  refine List.map_congr_left fun t _ => ?_
  cases s.rulesOut t <;> simp [Table.orDisabled]

theorem rulesOut_orDisabled (s : Selection) (t : Table) (out : Bool) :
    s.rulesOut (t.orDisabled out) = s.rulesOut t := rfl

theorem countRuledOut_apply (s s' : Selection) (tables : List Table) :
    s.countRuledOut (s'.apply tables) = s.countRuledOut tables := by
  rw [apply_eq, countRuledOut, List.countP_map]
  rfl

/-- What selections rule out is told by the names, which none of them changes. -/
theorem accumulate_eq_map (ss : List Selection) (tables : List Table) :
    accumulate ss tables = (tables.map fun t => t.orDisabled (ss.any (·.rulesOut t)),
      ss.map (·.countRuledOut tables)) := by
  induction ss generalizing tables with
  | nil => simp [accumulate, Table.orDisabled]
  | cons s ss ih =>
    rw [accumulate, ih]
    simp only [countRuledOut_apply, List.map_cons, Prod.mk.injEq, and_true]
    rw [apply_eq, List.map_map]
    refine List.map_congr_left fun t _ => ?_
    simp [rulesOut_orDisabled, Table.orDisabled_orDisabled]

theorem accumulate_selections_eq (choices : List Choice) (tables : List Table) :
    accumulate (choices.map Choice.selection) tables =
      (tables.map fun t => t.orDisabled (decide (∃ c ∈ choices, c.RulesOut t.names.text)),
        choices.map fun c => tables.countP fun t => decide (c.RulesOut t.names.text)) := by
  rw [accumulate_eq_map, List.map_map]
  have hany (t : Table) : (choices.map Choice.selection).any (·.rulesOut t) =
      decide (∃ c ∈ choices, c.RulesOut t.names.text) := by
    rw [Bool.eq_iff_iff]
    simp [Choice.rulesOut_selection]
  have hcount (c : Choice) : c.selection.countRuledOut tables =
      tables.countP fun t => decide (c.RulesOut t.names.text) :=
    List.countP_congr fun t _ => by rw [Choice.rulesOut_selection]
  simp only [hany, Function.comp_def, hcount]

/-- After any sequence of selections a table is disabled exactly if it was before or one of them
rules its name out, and is otherwise as it was and where it was. Each selection counts all that it
rules out itself. So neither order nor repetition matters, and what selections have disabled none
that follows enables. -/
theorem accumulate_selections (choices : List Choice) (tables : List Table) :
    accumulate (choices.map Choice.selection) tables =
      (tables.map fun t => t.orDisabled (decide (∃ c ∈ choices, c.RulesOut t.names.text)),
        choices.map fun c => tables.countP fun t => decide (c.RulesOut t.names.text)) ∧
    (∀ others : List Choice, (∀ c, c ∈ others ↔ c ∈ choices) →
      (accumulate (others.map Choice.selection) tables).1 =
        (accumulate (choices.map Choice.selection) tables).1) ∧
    ∀ more : List Choice, List.Forall₂ (fun t u => t.disabled = true → u.disabled = true)
      (accumulate (choices.map Choice.selection) tables).1
      (accumulate ((choices ++ more).map Choice.selection) tables).1 := by
  refine ⟨accumulate_selections_eq choices tables, fun others hmem => ?_, fun more => ?_⟩
  · simp only [accumulate_selections_eq, hmem]
  · simp only [accumulate_selections_eq, List.forall₂_map_left_iff, List.forall₂_map_right_iff]
    refine List.forall₂_same.2 fun t _ => ?_
    rw [Table.orDisabled, Table.orDisabled, Bool.or_eq_true, Bool.or_eq_true, decide_eq_true_eq,
      decide_eq_true_eq]
    exact Or.imp_right fun ⟨c, hc, hout⟩ => ⟨c, List.mem_append_left more hc, hout⟩

end Selection

end SchemaModels
