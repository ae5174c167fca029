import SchemaModels.Model.Basic
import SchemaModels.Proofs.Ddl.WellFormed
import SchemaModels.Proofs.Name.Identifier
import SchemaModels.Settings

namespace SchemaModels

open Text

namespace Settings

theorem isIdentifier_of_validate {s : Settings} (h : s.validate = .ok ()) :
    ∀ package ∈ s.package?, Name.isIdentifier package = true := by
  unfold validate at h
  split at h
  · cases h
  split at h
  · cases h
  rename_i hnone
  rw [Option.filter_eq_none_iff] at hnone
  simpa using hnone

theorem isIdentifier_packageOf_iff (dir : Path) : Name.isIdentifier (packageOf dir) = true ↔
    ∀ name ∈ dir.fileName?, ∀ c ∈ name.toList.head?,
      isAlphanumeric c = true → isAlphabetic c = true := by
  have hname : (∀ name ∈ dir.fileName?, ∀ c ∈ name.toList.head?,
      isAlphanumeric c = true → isAlphabetic c = true) ↔
        ∀ c ∈ (dir.fileName?.getD "").toList.head?,
          isAlphanumeric c = true → isAlphabetic c = true := by
    cases dir.fileName? <;> simp
  rw [hname]
  unfold packageOf
  cases (dir.fileName?.getD "").toList with
  | nil => simp [Name.clean, show Name.isIdentifier "models" = true by decide]
  | cons c cs =>
    rw [List.head?_cons]
    simp only [Option.mem_some_iff, forall_eq']
    exact Name.isIdentifier_clean_cons_iff c cs

/-- The package of accepted settings is an identifier, unless it is made from an output directory
whose name starts with a number that is no letter. -/
theorem isIdentifier_packageName_iff {s : Settings} (h : s.validate = .ok ()) :
    Name.isIdentifier s.packageName = true ↔
      (s.package? = none → ∀ name ∈ s.output.fileName?, ∀ c ∈ name.toList.head?,
        isAlphanumeric c = true → isAlphabetic c = true) := by
  unfold packageName
  cases hp : s.package? with
  | none => simpa using isIdentifier_packageOf_iff s.output
  | some package => simpa using isIdentifier_of_validate h package hp

def intoHyphened : Settings where
  output := ⟨"out/my-models/"⟩

theorem isIdentifier_packageName_hyphened : intoHyphened.validate = .ok () ∧
    intoHyphened.packageName = "my_models" ∧ Name.isIdentifier intoHyphened.packageName = true := by
  have hvalid : intoHyphened.validate = .ok () := by decide +kernel
  have hname : intoHyphened.output.fileName? = some "my-models" := by decide +kernel
  refine ⟨hvalid, by decide +kernel, (isIdentifier_packageName_iff hvalid).2 ?_⟩
  rw [hname]
  rintro - _ ⟨rfl⟩ _ ⟨rfl⟩ -
  decide

/-- The digit in front is kept. -/
theorem packageName_not_isIdentifier : ¬ ∀ s : Settings, s.validate = .ok () →
    Name.isIdentifier s.packageName = true := by
  intro h
  have hnine := h { output := ⟨"out/9models"⟩ } (by decide +kernel)
  revert hnine
  decide +kernel

end Settings

def Model.identifiers (m : Model) : List String :=
  m.name :: (m.fields.map (·.name) ++ m.enumTypes.map (·.name))

theorem Table.Sound.isIdentifier_iff {t : Table} (h : t.Sound) (package : String)
    (pointers : Bool) :
    (∀ name ∈ (Model.ofTable t package pointers).identifiers, Name.isIdentifier name = true) ↔
      ∀ written ∈ t.names.text :: t.columns.map (·.name), Name.MakesIdentifier written := by
  have hcolumn : ∀ c ∈ t.columns,
      (Name.isIdentifier c.camelCase = true ↔ Name.MakesIdentifier c.name) := by
    intro c hc
    rw [(h.columns c hc).camelCase, Name.isIdentifier_camelCase_iff]
  simp only [Model.identifiers, Model.ofTable, Model.fieldsOf, Model.enumTypesOf,
    List.forall_mem_cons, List.forall_mem_append, List.forall_mem_map, Field.ofColumn,
    EnumType.ofColumn, EnumType.nameFor, h.camelCase, Name.isIdentifier_camelCase_iff]
  constructor
  · rintro ⟨htable, hfields, -⟩
    exact ⟨htable, fun c hc => (hcolumn c hc).1 (hfields c hc)⟩
  · rintro ⟨htable, hcolumns⟩
    refine ⟨htable, fun c hc => (hcolumn c hc).2 (hcolumns c hc), ?_⟩
    intro c hc
    have hmem := (List.mem_filter.1 hc).1
    exact Name.isIdentifier_append ((Name.isIdentifier_camelCase_iff _).2 htable)
      ((hcolumn c hmem).2 (hcolumns c hmem))

namespace Ddl

/-- The types and members of a model have legal names exactly if the written names of the table
and of its columns make identifiers. -/
theorem identifiers_of_tableOfBytes? {bytes : Bytes} {t : Table} (h : tableOfBytes? bytes = some t)
    (package : String) (pointers : Bool) :
    (∀ name ∈ (Model.ofTable t package pointers).identifiers, Name.isIdentifier name = true) ↔
      ∀ written ∈ t.names.text :: t.columns.map (·.name), Name.MakesIdentifier written :=
  (sound_of_tableOfBytes? h).isIdentifier_iff package pointers

theorem jobsModel_identifiers : tableOfBytes? jobsMigration = some jobsTable ∧
    ∀ written ∈ ["jobs", "id", "state"], Name.MakesIdentifier written := by
  refine ⟨tableOfBytes?_jobsMigration,
    (identifiers_of_tableOfBytes? tableOfBytes?_jobsMigration "models" false).1 ?_⟩
  decide +kernel

/-- A column may be named by a word that starts with a digit. -/
theorem identifiers_not_legal : ¬ ∀ (bytes : Bytes) (t : Table) (package : String)
    (pointers : Bool), tableOfBytes? bytes = some t →
      ∀ name ∈ (Model.ofTable t package pointers).identifiers, Name.isIdentifier name = true := by
  intro h
  have htable : tableOfBytes? (encode "CREATE TABLE t (\n  2fa int\n)".toList) =
      some ⟨.ofText "t", [⟨"2fa", "2fa", .int, none, [], true⟩],
        [⟨"", "", 3, .unexpectedFormat⟩], false⟩ := by
    decide +kernel
  have hall := h _ _ "p" false htable
  revert hall
  decide +kernel

end Ddl

end SchemaModels
