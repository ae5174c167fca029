import SchemaModels.Model.Basic
import SchemaModels.Proofs.Ddl.WellFormed
import SchemaModels.Proofs.Name.Respelling

namespace SchemaModels

open Text

def Model.memberNames (m : Model) : List String := m.fields.map (·.name)

theorem Table.Sound.memberNames_eq {t : Table} (h : t.Sound) (package : String)
    (pointers : Bool) : (Model.ofTable t package pointers).memberNames =
      t.columns.map fun c => Name.camelCase c.name := by
  simp only [Model.memberNames, Model.ofTable, Model.fieldsOf, List.map_map]
  apply List.map_congr_left
  intro c hc
  exact (h.columns c hc).camelCase

theorem Table.Sound.nodup_memberNames_iff {t : Table} (h : t.Sound) (package : String)
    (pointers : Bool) : (Model.ofTable t package pointers).memberNames.Nodup ↔
      t.columns.Pairwise fun c d => ¬ Name.Respells c.name d.name := by
  rw [h.memberNames_eq, List.Nodup, List.pairwise_map]
  simp only [ne_eq, Name.camelCase_eq_iff]

namespace Ddl

/-- No two members of a model have the same name exactly if no two columns are named by
respellings of one name. Names that differ in upper case and without underscores are none. -/
theorem nodup_memberNames_of_tableOfBytes? {bytes : Bytes} {t : Table}
    (h : tableOfBytes? bytes = some t) (package : String) (pointers : Bool) :
    ((Model.ofTable t package pointers).memberNames.Nodup ↔
      t.columns.Pairwise fun c d => ¬ Name.Respells c.name d.name) ∧
    ((t.columns.Pairwise fun c d => Name.bare c.name.toList ≠ Name.bare d.name.toList) →
      (Model.ofTable t package pointers).memberNames.Nodup) := by
  have hiff := (sound_of_tableOfBytes? h).nodup_memberNames_iff package pointers
  refine ⟨hiff, fun hbare => hiff.2 (hbare.imp ?_)⟩
  intro c d hne hrespells
  exact hne (Name.bare_eq_of_eqvGen hrespells)

def apartTable : Table where
  names := .ofText "t"
  columns := [⟨"a_b", "AB", .int, none, [], true⟩, ⟨"ab", "Ab", .int, none, [], true⟩]
  failures := [⟨"", "", 4, .unexpectedFormat⟩]
  disabled := false

theorem apartTable_nodup_memberNames :
    tableOfBytes? (encode "CREATE TABLE t (\n  a_b int,\n  ab int\n)".toList) = some apartTable ∧
    Name.bare "a_b".toList = Name.bare "ab".toList ∧ ¬ Name.Respells "a_b" "ab" ∧
    (Model.ofTable jobsTable "models" false).memberNames.Nodup := by
  have htable : tableOfBytes? (encode "CREATE TABLE t (\n  a_b int,\n  ab int\n)".toList) =
      some apartTable := by
    decide +kernel
  have hpair := (nodup_memberNames_of_tableOfBytes? htable "models" false).1.1 (by decide +kernel)
  have hjobs := (nodup_memberNames_of_tableOfBytes? tableOfBytes?_jobsMigration "models" false).2
    (by decide +kernel)
  exact ⟨htable, by decide +kernel, List.rel_of_pairwise_cons hpair List.mem_cons_self, hjobs⟩

def respelledTable : Table where
  names := .ofText "t"
  columns := [⟨"a_b", "AB", .int, none, [], true⟩, ⟨"aB", "AB", .int, none, [], true⟩]
  failures := [⟨"", "", 4, .unexpectedFormat⟩]
  disabled := false

/-- Names may differ in lower case too, and in the letters of the ASCII range alone. -/
theorem memberNames_not_nodup : ¬ ∀ (bytes : Bytes) (t : Table) (package : String)
    (pointers : Bool), tableOfBytes? bytes = some t →
      (t.columns.Pairwise fun c d => foldAscii c.name ≠ foldAscii d.name ∧
        lowerText c.name.toList ≠ lowerText d.name.toList) →
      (Model.ofTable t package pointers).memberNames.Nodup := by
  intro h
  have htable : tableOfBytes? (encode "CREATE TABLE t (\n  a_b int,\n  aB int\n)".toList) =
      some respelledTable := by
    decide +kernel
  have hnodup := h _ _ "models" false htable (by decide +kernel)
  revert hnodup
  decide +kernel

end Ddl

end SchemaModels
