import SchemaModels.Proofs.Ddl.EnumLine
import SchemaModels.Proofs.Ddl.Header
import SchemaModels.Proofs.Model.Layout
import SchemaModels.Proofs.Model.Literal

namespace SchemaModels

open Text

/-- A line that declares a constant of a type by a literal that is read as the value. -/
def DeclaresValue (type value line : String) : Prop :=
  OneLine line ∧ ∃ width name literal,
    line = "\t" ++ padTo width name ++ " " ++ type ++ " = " ++ literal ∧
    Constant.readLiteral? literal.toList = some (value.toList, [])

namespace Model

theorem forall₂_declaresValue {t : EnumType} (hname : Name.IsSafe t.name) :
    List.Forall₂ (DeclaresValue t.name) t.values (constantLines t) := by
  refine (forall₂_constantLines t).imp ?_
  rintro value line ⟨name, hmem, rfl⟩
  refine ⟨?_, _, name, Constant.literal value, rfl, Constant.readLiteral?_literal value⟩
  exact oneLine_constantLine _ value hname.isCell.oneLine
    (Constant.isSafe_of_mem_names hname hmem).isCell.oneLine

theorem sourceLines_of_enum {t : Table} {before after : List Column} {c : Column}
    (hcolumns : t.columns = before ++ c :: after) (hkind : c.kind = .enum) (package : String)
    (pointers : Bool) : ∃ start, (ofTable t package pointers).sourceLines = start ++
      (["", "type " ++ EnumType.nameFor t.names.camelCase c ++ " string", "", "const ("] ++
        constantLines (.ofColumn t.names.camelCase c) ++ [")"]) ++
      (enumTypesOf t.names.camelCase after).flatMap enumLines := by
  have htypes : (ofTable t package pointers).enumTypes = enumTypesOf t.names.camelCase before ++
      .ofColumn t.names.camelCase c :: enumTypesOf t.names.camelCase after := by
    simp [ofTable, enumTypesOf, hcolumns, hkind]
  have hblock : enumLines (.ofColumn t.names.camelCase c) =
      ["", "type " ++ EnumType.nameFor t.names.camelCase c ++ " string", "", "const ("] ++
        constantLines (.ofColumn t.names.camelCase c) ++ [")"] := by
    rw [show " string" = " " ++ "string" from rfl, ← String.append_assoc]
    rfl
  refine ⟨headerLines (ofTable t package pointers) ++ structLines (ofTable t package pointers) ++
    (enumTypesOf t.names.camelCase before).flatMap enumLines, ?_⟩
  rw [sourceLines, htypes, List.flatMap_append, List.flatMap_cons, hblock]
  simp only [List.append_assoc]

end Model

namespace Ddl

/-- From the line of an enum column to the model file: the line is read as a column with the values
that are written on it, and in the block of constants for that column there is a line for each
value, in order, with a literal that is read as the value. -/
theorem constants_of_isEnumLine {bytes : Bytes} {t : Table} (h : tableOfBytes? bytes = some t)
    {i : Nat} {line : Line} (hline : (lines (decodeLossy bytes))[i]? = some line)
    (hin : InBlock (lines (decodeLossy bytes)) i) {name : String} {values : List String}
    (hne : values ≠ []) (hvalues : ∀ v ∈ values, IsPlainValue v)
    (hwritten : IsEnumLine name values line) (package : String) (pointers : Bool) :
    ∃ c above below, IsAccount (lines (decodeLossy bytes)) (above ++ (i, .ok c) :: below) ∧
      t.columns = above.filterMap rowColumn? ++ c :: below.filterMap rowColumn? ∧
      c.name = name ∧ c.kind = .enum ∧ c.enumValues = values ∧
      ∃ start constants, (ModelFile.ofTable t package pointers).contents = unlines (start ++
        (["", "type " ++ EnumType.nameFor t.names.camelCase c ++ " string", "", "const ("] ++
          constants ++ [")"]) ++
        (Model.enumTypesOf t.names.camelCase (below.filterMap rowColumn?)).flatMap
          Model.enumLines) ∧
        List.Forall₂ (DeclaresValue (EnumType.nameFor t.names.camelCase c)) values constants := by
  have hsound := sound_of_tableOfBytes? h
  obtain ⟨c, hcounts, hread, hcname, hkind, rfl⟩ := readTrimmed_of_isEnumLine hne hvalues hwritten
  obtain ⟨above, below, haccount, hrows⟩ := exists_columns_eq hline hin hcounts hread
  have hcolumns : t.columns = above.filterMap rowColumn? ++ c :: below.filterMap rowColumn? := by
    obtain ⟨_, -, rfl⟩ := Option.map_eq_some_iff.1 h
    exact hrows
  have hc : c.WellFormed := hsound.columns c (hcolumns ▸ by simp)
  have hconstants := Model.forall₂_declaresValue (t := .ofColumn t.names.camelCase c)
    (isSafe_nameFor hsound.isSafe_camelCase hc)
  obtain ⟨start, hstart⟩ := Model.sourceLines_of_enum hcolumns hkind package pointers
  exact ⟨c, above, below, haccount, hcolumns, hcname, hkind, rfl, start, _,
    congrArg unlines hstart, hconstants⟩

def sizesLine : Line := "  `size`\tEnUm ( 'a\\b' ,\"x(y\", 'a\\b') NOT NULL, -- (old)".toList

def sizesMigration : Bytes := encode ("CREATE TABLE t (\n".toList ++ sizesLine ++ "\n)".toList)

def sizesTable : Table where
  names := .ofText "t"
  columns := [⟨"size", "Size", .enum, none, ["a\\b", "x(y", "a\\b"], false⟩]
  failures := [⟨"", "", 3, .unexpectedFormat⟩]
  disabled := false

def sizesHead : EnumHead where
  name := "size"
  gap := ['\t']
  keyword := "EnUm".toList
  space := [' ']
  isWord_name := ⟨by decide, List.all_eq_true.1 (by decide +kernel)⟩
  isBlank_gap := List.forall_mem_singleton.2 rfl
  spellsEnum := rfl
  isBlank_space := List.forall_mem_singleton.2 rfl

theorem isEnumLine_sizesLine : IsEnumLine "size" ["a\\b", "x(y", "a\\b"] sizesLine := by
  have hnone : ∀ c ∈ ([] : List Char), isBlank c = true := List.forall_mem_nil _
  have hspace : ∀ c ∈ [' '], isBlank c = true := List.forall_mem_singleton.2 rfl
  have hindent : ∀ c ∈ [' ', ' '], isBlank c = true := List.all_eq_true.1 rfl
  have hitems : List.Forall₂ IsQuotedItem ["a\\b", "x(y", "a\\b"]
      [" 'a\\b' ".toList, "\"x(y\"".toList, " 'a\\b'".toList] :=
    .cons ⟨[' '], '\'', [' '], rfl, rfl, hspace, hspace⟩
      (.cons ⟨[], '"', [], rfl, rfl, hnone, hnone⟩
        (.cons ⟨[' '], '\'', [], rfl, rfl, hspace, hnone⟩ .nil))
  exact ⟨sizesHead, _, [' ', ' '], " NOT NULL, -- (old)".toList, rfl, rfl, hitems, hindent⟩

theorem sizesTable_constants : tableOfBytes? sizesMigration = some sizesTable ∧
    IsEnumLine "size" ["a\\b", "x(y", "a\\b"] sizesLine ∧ ∃ start constants,
      (ModelFile.ofTable sizesTable "models" false).contents = unlines (start ++
        (["", "type TSize string", "", "const ("] ++ constants ++ [")"]) ++ []) ∧
      List.Forall₂ (DeclaresValue "TSize") ["a\\b", "x(y", "a\\b"] constants := by
  have htable : tableOfBytes? sizesMigration = some sizesTable := by decide +kernel
  have hline : (lines (decodeLossy sizesMigration))[1]? = some sizesLine := by decide +kernel
  have hin : InBlock (lines (decodeLossy sizesMigration)) 1 :=
    (phase_take_eq_block_iff (by decide +kernel)).1 (by decide +kernel)
  have hslash : IsPlainValue "a\\b" :=
    ⟨⟨by decide, by decide +kernel, by decide, by decide, by decide⟩, by decide, by decide⟩
  have hparen : IsPlainValue "x(y" :=
    ⟨⟨by decide, by decide +kernel, by decide, by decide, by decide⟩, by decide, by decide⟩
  have hplain : ∀ v ∈ ["a\\b", "x(y", "a\\b"], IsPlainValue v := by
    simp [hslash, hparen]
  obtain ⟨c, above, below, -, hcolumns, -, -, -, start, constants, hcontents, hconstants⟩ :=
    constants_of_isEnumLine htable hline hin (List.cons_ne_nil _ _) hplain isEnumLine_sizesLine
      "models" false
  -- The table has no other column.
  rcases List.append_eq_singleton_iff.1 hcolumns.symm with ⟨-, hc⟩ | ⟨-, hnil⟩
  · obtain ⟨rfl, hbelow⟩ := List.cons_eq_cons.1 hc
    rw [hbelow] at hcontents
    exact ⟨htable, isEnumLine_sizesLine, start, constants, hcontents, hconstants⟩
  · cases hnil

end Ddl

end SchemaModels
