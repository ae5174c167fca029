import SchemaModels.Proofs.Model.Layout
import SchemaModels.Proofs.Model.Reading

namespace SchemaModels

open Text

/-- A member that says what its column says, whatever its type is. -/
structure IsMemberOf (c : Column) (f : Field) : Prop where
  name : f.name = c.camelCase
  tag : f.tag = "db:\"" ++ c.name ++ "\""
  kind : f.kind = c.kind
  default : f.default? = c.default?

/-- The type for an enum column, which its member has. -/
structure IsTypeOf (member : Column × Field) (e : EnumType) : Prop where
  name : member.2.type = e.name
  parent : e.parent = "string"
  values : e.values = member.1.enumValues

def importTime : String := "import \"time\""

def IsTimeType (type : String) : Prop := type = "time.Time" ∨ type = "*time.Time"

instance (type : String) : Decidable (IsTimeType type) := inferInstanceAs (Decidable (_ ∨ _))

/-- The type of an enum is a name, and no name holds a dot. -/
theorem isTimeType_typeFor_iff {model : String} (hmodel : Name.IsSafe model) {c : Column}
    (hc : c.WellFormed) (pointers : Bool) :
    IsTimeType (Field.typeFor model pointers c) ↔ c.kind = .time := by
  unfold Field.typeFor
  split
  · rename_i henum
    have hdot : '.' ∉ (EnumType.nameFor model c).toList :=
      (isSafe_nameFor hmodel hc).notMem (by decide)
    have htime : ¬ IsTimeType (EnumType.nameFor model c) := by
      rintro (heq | heq) <;> exact hdot (heq ▸ by decide)
    simp [henum, htime]
  · split <;> cases c.kind <;> decide

namespace Model

theorem forall₂_isMemberOf (model : String) (pointers : Bool) (columns : List Column) :
    List.Forall₂ IsMemberOf columns (fieldsOf model pointers columns) := by
  rw [fieldsOf, List.forall₂_map_right_iff]
  exact List.forall₂_same.2 fun c _ => ⟨rfl, rfl, rfl, rfl⟩

theorem forall₂_isTypeOf (model : String) (pointers : Bool) (columns : List Column) :
    List.Forall₂ IsTypeOf
      ((columns.zip (fieldsOf model pointers columns)).filter (·.1.kind == .enum))
      (enumTypesOf model columns) := by
  have hzip : columns.zip (fieldsOf model pointers columns) =
      columns.map fun c => (c, .ofColumn model pointers c) :=
    List.map_prod_left_eq_zip.symm
  rw [hzip, List.filter_map, enumTypesOf, List.forall₂_map_left_iff, List.forall₂_map_right_iff]
  refine List.forall₂_same.2 fun c hc => ⟨?_, rfl, rfl⟩
  have henum : c.kind = .enum := by simpa using List.of_mem_filter hc
  exact if_pos henum

theorem needsTimeImport_fieldsOf (model : String) (pointers : Bool) (t : Table) :
    needsTimeImport (fieldsOf model pointers t.columns) = t.hasTime := by
  rw [needsTimeImport, fieldsOf, List.any_map]
  rfl

theorem exists_isTimeType_iff {t : Table} (ht : t.Sound) (pointers : Bool) :
    (∃ f ∈ fieldsOf t.names.camelCase pointers t.columns, IsTimeType f.type) ↔
      t.hasTime = true := by
  rw [Table.hasTime, List.any_eq_true]
  simp only [fieldsOf, List.mem_map, exists_exists_and_eq_and, beq_iff_eq]
  refine exists_congr fun c => and_congr_right fun hc => ?_
  exact isTimeType_typeFor_iff ht.isSafe_camelCase (ht.columns c hc) pointers

theorem head?_of_mem_structLines {m : Model} {l : String} (h : l ∈ structLines m) :
    l.toList.head? ≠ some 'i' := by
  simp only [structLines, List.mem_append, List.mem_singleton] at h
  rcases h with (rfl | hmember) | rfl
  · simp
  · have htab := Reading.isIndented_memberLines m.fields _ (List.mem_map_of_mem hmember)
    simp_all [Reading.isIndented]
  · decide

theorem head?_of_mem_enumLines {e : EnumType} {l : String} (h : l ∈ enumLines e) :
    l.toList.head? ≠ some 'i' := by
  simp only [enumLines, List.mem_append, List.mem_cons, List.not_mem_nil, or_false] at h
  rcases h with ((rfl | rfl | rfl | rfl) | hconstant) | rfl
  · decide
  · simp
  · decide
  · decide
  · have htab := Reading.isIndented_constantLines e _ (List.mem_map_of_mem hconstant)
    simp_all [Reading.isIndented]
  · decide

theorem importTime_mem_headerLines (m : Model) :
    importTime ∈ headerLines m ↔ m.needsTime = true := by
  have hhead {a b : String} (h : importTime = a ++ b) : a.toList.head?.or b.toList.head? =
      some 'i' := by
    rw [← List.head?_append, ← String.toList_append, ← h]
    rfl
  have htable : importTime ≠ "// Source table: " ++ m.table := fun h => by simpa using hhead h
  have hpackage : importTime ≠ "package " ++ m.package := fun h => by simpa using hhead h
  unfold headerLines
  split <;> simp_all [importTime]

theorem importTime_mem_sourceLines (m : Model) :
    importTime ∈ sourceLines m ↔ m.needsTime = true := by
  have hstruct : importTime ∉ structLines m := fun h => head?_of_mem_structLines h rfl
  have henums : importTime ∉ m.enumTypes.flatMap enumLines := by
    intro h
    obtain ⟨e, -, he⟩ := List.mem_flatMap.1 h
    exact head?_of_mem_enumLines he rfl
  simp only [sourceLines, List.mem_append, importTime_mem_headerLines, hstruct, henums, or_false]

end Model

/-- Columns, members and types fit together: there is one member for each column, in order, and one
type for each enum column, in order, which the member for that column has. For a table that is read
from a migration, the time package is imported if a column holds times, and the line that imports
it is there exactly if a member has a type of that package. -/
theorem modelParts_fit :
    (∀ (model : String) (columns : List Column) (pointers : Bool),
      List.Forall₂ IsMemberOf columns (Model.fieldsOf model pointers columns) ∧
      List.Forall₂ IsTypeOf
        ((columns.zip (Model.fieldsOf model pointers columns)).filter (·.1.kind == .enum))
        (Model.enumTypesOf model columns)) ∧
    ∀ (bytes : Bytes) (t : Table), Ddl.tableOfBytes? bytes = some t →
      ∀ package, OneLine package → ∀ pointers,
        Model.needsTimeImport (Model.fieldsOf t.names.camelCase pointers t.columns) = t.hasTime ∧
        (importTime.toList ∈ splitOn '\n' (ModelFile.ofTable t package pointers).contents.toList ↔
          ∃ f ∈ Model.fieldsOf t.names.camelCase pointers t.columns, IsTimeType f.type) := by
  refine ⟨fun model columns pointers => ⟨Model.forall₂_isMemberOf model pointers columns,
    Model.forall₂_isTypeOf model pointers columns⟩, ?_⟩
  intro bytes t h package hpackage pointers
  have ht := Ddl.sound_of_tableOfBytes? h
  refine ⟨Model.needsTimeImport_fieldsOf _ pointers t, ?_⟩
  have hlines : splitOn '\n' (ModelFile.ofTable t package pointers).contents.toList =
      (Model.ofTable t package pointers).sourceLines.map String.toList ++ [[]] :=
    splitOn_unlines (Model.oneLine_of_mem_sourceLines ht hpackage pointers)
  have hmem : importTime.toList ∈
      (Model.ofTable t package pointers).sourceLines.map String.toList ++ [[]] ↔
        importTime ∈ (Model.ofTable t package pointers).sourceLines := by
    have hne : importTime.toList ≠ [] := by decide
    simp only [List.mem_append, List.mem_map, String.toList_inj, exists_eq_right,
      List.mem_singleton, hne, or_false]
  rw [hlines, hmem, Model.importTime_mem_sourceLines, Model.needsTime_ofTable,
    Model.exists_isTimeType_iff ht]

def shiftsMigration : Bytes :=
  encode "CREATE TABLE shifts (\n  state enum('*time.Time'),\n  ends datetime,\n  n int\n)".toList

def shiftsTable : Table where
  names := .ofText "shifts"
  columns := [⟨"state", "State", .enum, none, ["*time.Time"], true⟩,
    ⟨"ends", "Ends", .time, none, [], true⟩, ⟨"n", "N", .int, none, [], true⟩]
  failures := [⟨"", "", 5, .unexpectedFormat⟩]
  disabled := false

theorem shiftsParts_fit : Ddl.tableOfBytes? shiftsMigration = some shiftsTable ∧
    (Model.fieldsOf "Shifts" true shiftsTable.columns).map (·.type) =
      ["ShiftsState", "*time.Time", "*int"] ∧
    List.Forall₂ IsMemberOf shiftsTable.columns
      (Model.fieldsOf "Shifts" true shiftsTable.columns) ∧
    importTime.toList ∈
      splitOn '\n' (ModelFile.ofTable shiftsTable "models" true).contents.toList := by
  have htable : Ddl.tableOfBytes? shiftsMigration = some shiftsTable := by decide +kernel
  obtain ⟨hparts, himport⟩ := modelParts_fit
  obtain ⟨-, hline⟩ := himport _ _ htable "models" (by decide) true
  exact ⟨htable, by decide +kernel, (hparts _ _ true).1, hline.2 (by decide +kernel)⟩

end SchemaModels
