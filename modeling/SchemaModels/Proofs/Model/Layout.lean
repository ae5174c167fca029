import Mathlib.Data.List.Forall2
import SchemaModels.Model.Source
import SchemaModels.Proofs.Model.Constants

namespace SchemaModels

open Text
open Ddl (Line)

/-- A tab, the name of the member, and somewhere the tag with the name of the column. -/
def IsMemberLine (c : Column) (line : Line) : Prop :=
  '\t' :: c.camelCase.toList <+: line ∧ ("`" ++ Name.columnTag c.name ++ "`").toList <:+: line

/-- A tab first and the literal of the value last. -/
def IsConstantLine (value : String) (line : Line) : Prop :=
  ['\t'] <+: line ∧ (Constant.literal value).toList <:+ line

/-- The lines for the type of an enum column. -/
structure IsEnumBlock (model : String) (c : Column) (block : List Line) : Prop where
  length : block.length = 5 + c.enumValues.length
  lines : ∃ constants, List.Forall₂ IsConstantLine c.enumValues constants ∧
    block = [[], ("type " ++ EnumType.nameFor model c ++ " string").toList, [],
      "const (".toList] ++ constants ++ [[')']]

def headerFor (t : Table) (package : String) : List Line :=
  (["// Code generated by modelgen. DO NOT EDIT.", "// Source table: " ++ t.names.text, "",
    "package " ++ package, ""] ++ if t.hasTime then ["import \"time\"", ""] else []).map
    String.toList

/-- All lines of a model file. -/
def IsLayout (t : Table) (package : String) (ls : List Line) : Prop :=
  ∃ members blocks,
    ls = headerFor t package ++ [("type " ++ t.names.camelCase ++ " struct \x7b").toList] ++
      members ++ ["\x7d".toList] ++ blocks.flatten ∧
    List.Forall₂ IsMemberLine t.columns members ∧
    List.Forall₂ (IsEnumBlock t.names.camelCase) (t.columns.filter (·.kind == .enum)) blocks

def OneLine (s : String) : Prop := '\n' ∉ s.toList

instance (s : String) : Decidable (OneLine s) := inferInstanceAs (Decidable ('\n' ∉ s.toList))

/-- A text that ends where its column of the struct does. -/
def IsCell (s : String) : Prop := ∀ c ∈ s.toList, c ≠ ' ' ∧ c ≠ '`' ∧ c ≠ '\n'

@[simp] theorem oneLine_append (a b : String) : OneLine (a ++ b) ↔ OneLine a ∧ OneLine b := by
  simp [OneLine, not_or]

theorem IsCell.oneLine {s : String} (h : IsCell s) : OneLine s := fun hn => (h _ hn).2.2 rfl

theorem IsCell.append {a b : String} (ha : IsCell a) (hb : IsCell b) : IsCell (a ++ b) := by
  intro c hc
  rw [String.toList_append, List.mem_append] at hc
  exact hc.elim (ha c) (hb c)

theorem Name.IsSafe.isCell {s : String} (h : Name.IsSafe s) : IsCell s := by
  intro c hc
  refine ⟨?_, ?_, ?_⟩ <;> rintro rfl <;> exact absurd (h _ hc) (by decide)

theorem oneLine_padTo (width : Nat) {cell : String} (h : OneLine cell) :
    OneLine (padTo width cell) := by
  rw [padTo, oneLine_append]
  refine ⟨h, fun hn => ?_⟩
  rw [String.toList_ofList] at hn
  exact absurd (List.eq_of_mem_replicate hn) (by decide)

theorem oneLine_literal (value : String) : OneLine (Constant.literal value) := by
  have hescape (c : Char) : '\n' ∉ Constant.escape c := by
    unfold Constant.escape
    split <;> simp_all [eq_comm]
  simp [OneLine, Constant.literal, Constant.literalChars, hescape]

theorem splitOn_unlines_append {ls : List String} (h : ∀ l ∈ ls, OneLine l) (back : List Char) :
    splitOn '\n' ((unlines ls).toList ++ back) = ls.map String.toList ++ splitOn '\n' back := by
  rw [unlines, String.toList_ofList]
  induction ls with
  | nil => rfl
  | cons l ls ih =>
    rw [List.forall_mem_cons] at h
    rw [List.flatMap_cons, List.append_assoc, List.append_assoc, List.singleton_append,
      splitOn_append_cons, splitOn_of_notMem h.1]
    exact congrArg (l.toList :: ·) (ih h.2)

theorem splitOn_unlines {ls : List String} (h : ∀ l ∈ ls, OneLine l) :
    splitOn '\n' (unlines ls).toList = ls.map String.toList ++ [[]] := by
  have hlines := splitOn_unlines_append h []
  rwa [List.append_nil] at hlines

theorem getLast?_unlines {ls : List String} (h : ls ≠ []) :
    (unlines ls).toList.getLast? = some '\n' := by
  rw [← List.dropLast_append_getLast h, unlines, String.toList_ofList, List.flatMap_append,
    List.flatMap_singleton, ← List.append_assoc, List.getLast?_concat]

theorem Column.WellFormed.isSafe_name {c : Column} (h : c.WellFormed) : Name.IsSafe c.name :=
  h.name.isSafe

theorem Column.WellFormed.isSafe_camelCase {c : Column} (h : c.WellFormed) :
    Name.IsSafe c.camelCase := h.camelCase ▸ h.name.isSafe.camelCase

theorem Table.Sound.isSafe_camelCase {t : Table} (h : t.Sound) : Name.IsSafe t.names.camelCase :=
  h.camelCase ▸ h.name.isSafe.camelCase

theorem isSafe_nameFor {model : String} {c : Column} (hmodel : Name.IsSafe model)
    (hc : c.WellFormed) : Name.IsSafe (EnumType.nameFor model c) :=
  hmodel.append hc.isSafe_camelCase

theorem isCell_memberType (kind : Kind) : IsCell kind.memberType := by
  cases kind <;> simp [IsCell, Kind.memberType]

theorem isCell_typeFor {model : String} (pointers : Bool) {c : Column}
    (hmodel : Name.IsSafe model) (hc : c.WellFormed) : IsCell (Field.typeFor model pointers c) := by
  unfold Field.typeFor
  split
  · exact (isSafe_nameFor hmodel hc).isCell
  · split
    · exact IsCell.append (by simp [IsCell]) (isCell_memberType _)
    · exact isCell_memberType _

namespace Model

theorem oneLine_memberLine (nameWidth typeWidth tagWidth : Nat) {f : Field} (hname : OneLine f.name)
    (htype : OneLine f.type) (htag : OneLine f.tag) (hdefault : ∀ v ∈ f.default?, OneLine v) :
    OneLine (memberLine nameWidth typeWidth tagWidth f) := by
  have hquoted : OneLine (quotedTag f) := by
    simp only [quotedTag, oneLine_append]
    exact ⟨⟨by decide, htag⟩, by decide⟩
  have hstart : OneLine
      ("\t" ++ padTo nameWidth f.name ++ " " ++ padTo typeWidth f.type ++ " ") := by
    simp only [oneLine_append]
    exact ⟨⟨⟨⟨by decide, oneLine_padTo _ hname⟩, by decide⟩, oneLine_padTo _ htype⟩, by decide⟩
  unfold memberLine
  cases hd : f.default? with
  | none => exact (oneLine_append _ _).2 ⟨hstart, hquoted⟩
  | some value =>
    simp only [oneLine_append] at hstart ⊢
    exact ⟨⟨⟨hstart, oneLine_padTo _ hquoted⟩, by decide⟩, hdefault value hd⟩

theorem forall₂_constantLines (t : EnumType) : List.Forall₂ (fun value line =>
    ∃ name ∈ Constant.names t.name t.values, line =
      constantLine (byteWidth (Constant.names t.name t.values)) t.name name value)
    t.values (constantLines t) := by
  have hzip (f : String → String → String) {names values : List String}
      (hlength : names.length = values.length) :
      List.Forall₂ (fun value line => ∃ name ∈ names, line = f name value) values
        (List.zipWith f names values) := by
    induction values generalizing names with
    | nil => simp
    | cons value values ih =>
      obtain ⟨name, names, rfl⟩ := List.exists_cons_of_length_eq_add_one hlength
      refine .cons ⟨name, List.mem_cons_self, rfl⟩ ((ih (Nat.succ.inj hlength)).imp ?_)
      rintro v line ⟨n, hn, rfl⟩
      exact ⟨n, List.mem_cons_of_mem name hn, rfl⟩
  exact hzip _ (Constant.length_names t.name t.values)

theorem oneLine_constantLine (nameWidth : Nat) {type name : String} (value : String)
    (htype : OneLine type) (hname : OneLine name) :
    OneLine (constantLine nameWidth type name value) := by
  simp only [constantLine, oneLine_append]
  exact ⟨⟨⟨⟨⟨by decide, oneLine_padTo _ hname⟩, by decide⟩, htype⟩, by decide⟩,
    oneLine_literal value⟩

theorem oneLine_of_mem_constantLines {t : EnumType} (hname : Name.IsSafe t.name) :
    ∀ l ∈ constantLines t, OneLine l := by
  intro l hl
  obtain ⟨value, -, name, hmem, rfl⟩ := exists_of_forall₂ (forall₂_constantLines t) hl
  exact oneLine_constantLine _ value hname.isCell.oneLine
    (Constant.isSafe_of_mem_names hname hmem).isCell.oneLine

theorem oneLine_of_mem_enumLines {t : EnumType} (hname : Name.IsSafe t.name)
    (hparent : OneLine t.parent) : ∀ l ∈ enumLines t, OneLine l := by
  simp only [enumLines, List.forall_mem_append, List.forall_mem_cons, List.not_mem_nil,
    false_imp_iff, implies_true, and_true, oneLine_append]
  exact ⟨⟨⟨by decide, ⟨⟨⟨by decide, hname.isCell.oneLine⟩, by decide⟩, hparent⟩, by decide,
    by decide⟩, oneLine_of_mem_constantLines hname⟩, by decide⟩

theorem exists_of_mem_enumTypes {model : String} {columns : List Column} {e : EnumType}
    (h : e ∈ enumTypesOf model columns) :
    ∃ c ∈ columns, c.kind = .enum ∧ e = .ofColumn model c := by
  simp only [enumTypesOf, List.mem_map, List.mem_filter, beq_iff_eq] at h
  obtain ⟨c, ⟨hc, hkind⟩, rfl⟩ := h
  exact ⟨c, hc, hkind, rfl⟩

theorem isSafe_of_mem_enumTypes {t : Table} (ht : t.Sound) :
    ∀ e ∈ enumTypesOf t.names.camelCase t.columns, Name.IsSafe e.name := by
  intro e he
  obtain ⟨c, hc, -, rfl⟩ := exists_of_mem_enumTypes he
  exact isSafe_nameFor ht.isSafe_camelCase (ht.columns c hc)

def bodyLines (m : Model) : List String :=
  (if m.needsTime then ["import \"time\"", ""] else []) ++ structLines m ++
    m.enumTypes.flatMap enumLines

theorem sourceLines_eq (m : Model) : m.sourceLines =
    ["// Code generated by modelgen. DO NOT EDIT.", "// Source table: " ++ m.table, "",
      "package " ++ m.package, ""] ++ bodyLines m := by
  simp only [sourceLines, headerLines, bodyLines, List.append_assoc]

theorem oneLine_of_mem_bodyLines {t : Table} (ht : t.Sound) (package : String) (pointers : Bool) :
    ∀ l ∈ bodyLines (ofTable t package pointers), OneLine l := by
  have hmodel := ht.isSafe_camelCase
  -- Defaults are the only texts here that may hold any character but a line feed.
  have hmembers : ∀ l ∈ memberLines (ofTable t package pointers).fields, OneLine l := by
    intro l hl
    simp only [ofTable, fieldsOf, memberLines, List.mem_map] at hl
    obtain ⟨_, ⟨c, hmem, rfl⟩, rfl⟩ := hl
    have hc := ht.columns c hmem
    refine oneLine_memberLine _ _ _ hc.isSafe_camelCase.isCell.oneLine
      (isCell_typeFor pointers hmodel hc).oneLine ?_ hc.default
    simp only [Field.ofColumn, Name.columnTag, oneLine_append]
    exact ⟨⟨by decide, hc.isSafe_name.isCell.oneLine⟩, by decide⟩
  have himport : ∀ l ∈ (if (ofTable t package pointers).needsTime then ["import \"time\"", ""]
      else []), OneLine l := by
    split <;> decide
  simp only [bodyLines, structLines, List.forall_mem_append, List.forall_mem_cons,
    List.not_mem_nil, false_imp_iff, implies_true, and_true, oneLine_append]
  refine ⟨⟨himport, ⟨⟨⟨by decide, hmodel.isCell.oneLine⟩, by decide⟩, hmembers⟩, by decide⟩, ?_⟩
  intro l hl
  obtain ⟨e, he, hl⟩ := List.mem_flatMap.1 hl
  obtain ⟨c, -, -, rfl⟩ := exists_of_mem_enumTypes he
  exact oneLine_of_mem_enumLines (isSafe_of_mem_enumTypes ht _ he)
    (show OneLine "string" by decide) l hl

theorem oneLine_of_mem_sourceLines {t : Table} (ht : t.Sound) {package : String}
    (hpackage : OneLine package) (pointers : Bool) :
    ∀ l ∈ (ofTable t package pointers).sourceLines, OneLine l := by
  rw [sourceLines_eq]
  simp only [List.forall_mem_append, List.forall_mem_cons, List.not_mem_nil, false_imp_iff,
    implies_true, and_true, oneLine_append]
  exact ⟨⟨by decide, ⟨by decide, ht.name.isSafe.isCell.oneLine⟩, by decide,
    ⟨by decide, hpackage⟩, by decide⟩, oneLine_of_mem_bodyLines ht package pointers⟩

theorem toList_padTo_append (width : Nat) (cell : String) (rest : List Char) :
    (padTo width cell).toList ++ ' ' :: rest =
      cell.toList ++ ' ' :: (List.replicate (width - cell.length) ' ' ++ rest) := by
  rw [padTo, String.toList_append, String.toList_ofList, List.append_assoc, ← List.cons_append,
    ← List.replicate_succ, List.replicate_succ', List.append_assoc, List.singleton_append]

def memberEnd (blanks : Nat) : Option String → List Char
  | none => []
  | some value => ' ' :: (List.replicate blanks ' ' ++ "// default: ".toList ++ value.toList)

/-- The cells of a member line, each with the blanks that fill it up after one that ends it. -/
theorem toList_memberLine_eq (nameWidth typeWidth tagWidth : Nat) (f : Field) :
    (memberLine nameWidth typeWidth tagWidth f).toList =
      '\t' :: (f.name.toList ++ ' ' :: (List.replicate (nameWidth - f.name.length) ' ' ++
        (f.type.toList ++ ' ' :: (List.replicate (typeWidth - f.type.length) ' ' ++
          ((quotedTag f).toList ++ memberEnd (tagWidth - (quotedTag f).length) f.default?))))) := by
  have hstart (rest : List Char) :
      ("\t" ++ padTo nameWidth f.name ++ " " ++ padTo typeWidth f.type ++ " ").toList ++ rest =
        '\t' :: (f.name.toList ++ ' ' :: (List.replicate (nameWidth - f.name.length) ' ' ++
          (f.type.toList ++ ' ' :: (List.replicate (typeWidth - f.type.length) ' ' ++ rest)))) := by
    rw [← toList_padTo_append typeWidth, ← toList_padTo_append nameWidth]
    simp only [String.toList_append, List.append_assoc]
    rfl
  unfold memberLine
  cases f.default? with
  | none => rw [String.toList_append, hstart, memberEnd, List.append_nil]
  | some value =>
    rw [String.toList_append, String.toList_append, String.toList_append, List.append_assoc,
      List.append_assoc, hstart, memberEnd, List.append_assoc, ← toList_padTo_append tagWidth]
    rfl

theorem toList_memberLine (nameWidth typeWidth tagWidth : Nat) (f : Field) : ∃ i j k,
    (memberLine nameWidth typeWidth tagWidth f).toList =
      '\t' :: (f.name.toList ++ ' ' :: (List.replicate i ' ' ++ (f.type.toList ++ ' ' ::
        (List.replicate j ' ' ++ ((quotedTag f).toList ++ memberEnd k f.default?))))) :=
  ⟨_, _, _, toList_memberLine_eq nameWidth typeWidth tagWidth f⟩

theorem isMemberLine_memberLine (nameWidth typeWidth tagWidth : Nat) (model : String)
    (pointers : Bool) (c : Column) : IsMemberLine c
      (memberLine nameWidth typeWidth tagWidth (.ofColumn model pointers c)).toList := by
  obtain ⟨i, j, k, hline⟩ :=
    toList_memberLine nameWidth typeWidth tagWidth (.ofColumn model pointers c)
  rw [hline]
  constructor
  · exact (List.prefix_cons_inj _).2 (List.prefix_append _ _)
  · rw [← List.append_assoc (List.replicate j ' ')]
    exact ⟨'\t' :: (c.camelCase.toList ++ ' ' :: (List.replicate i ' ' ++
      ((Field.typeFor model pointers c).toList ++ ' ' :: List.replicate j ' '))),
      memberEnd k c.default?, by simp [Field.ofColumn, quotedTag]⟩

theorem isEnumBlock_enumLines (model : String) (c : Column) :
    IsEnumBlock model c ((enumLines (.ofColumn model c)).map String.toList) := by
  have hconstants : List.Forall₂ IsConstantLine c.enumValues
      ((constantLines (.ofColumn model c)).map String.toList) := by
    rw [List.forall₂_map_right_iff]
    refine (forall₂_constantLines (.ofColumn model c)).imp ?_
    rintro value _ ⟨name, -, rfl⟩
    simp only [IsConstantLine, constantLine, String.toList_append, List.append_assoc]
    exact ⟨List.prefix_append _ _, by simp only [← List.append_assoc]; exact List.suffix_append _ _⟩
  refine ⟨?_, _, hconstants, ?_⟩
  · have hlength := hconstants.length_eq
    rw [List.length_map] at hlength
    simp [enumLines, ← hlength]
    omega
  · simp [enumLines, EnumType.ofColumn, Kind.memberType]

theorem needsTime_ofTable (t : Table) (package : String) (pointers : Bool) :
    (ofTable t package pointers).needsTime = t.hasTime := by
  simp only [ofTable, needsTimeImport, fieldsOf, Table.hasTime, List.any_map]
  rfl

theorem isLayout_sourceLines (t : Table) (package : String) (pointers : Bool) :
    IsLayout t package ((ofTable t package pointers).sourceLines.map String.toList) := by
  refine ⟨(memberLines (ofTable t package pointers).fields).map String.toList,
    (ofTable t package pointers).enumTypes.map fun e => (enumLines e).map String.toList,
    ?_, ?_, ?_⟩
  · rw [sourceLines_eq, bodyLines, needsTime_ofTable]
    simp only [headerFor, structLines, List.map_append, List.append_assoc, List.map_flatMap,
      ← List.flatMap_def]
    rfl
  · simp only [memberLines, ofTable, fieldsOf, List.map_map, List.forall₂_map_right_iff]
    exact List.forall₂_same.2 fun c _ => isMemberLine_memberLine _ _ _ _ _ c
  · simp only [ofTable, enumTypesOf, List.map_map, List.forall₂_map_right_iff]
    exact List.forall₂_same.2 fun c _ => isEnumBlock_enumLines _ c

end Model

/-- A model file ends in a line feed and has exactly the lines of its layout: texts from a
migration add none and take none away. -/
theorem contents_isLayout {bytes : Bytes} {t : Table} (h : Ddl.tableOfBytes? bytes = some t)
    {package : String} (hpackage : OneLine package) (pointers : Bool) :
    (ModelFile.ofTable t package pointers).contents.toList.getLast? = some '\n' ∧
      (headerFor t package).length = (if t.hasTime then 7 else 5) ∧
      ∃ ls, splitOn '\n' (ModelFile.ofTable t package pointers).contents.toList = ls ++ [[]] ∧
        IsLayout t package ls := by
  have hlines := Model.oneLine_of_mem_sourceLines (Ddl.sound_of_tableOfBytes? h) hpackage pointers
  refine ⟨getLast?_unlines (by simp [Model.sourceLines_eq]), ?_, _, splitOn_unlines hlines,
    Model.isLayout_sourceLines t package pointers⟩
  unfold headerFor
  split <;> rfl

theorem jobsModel_isLayout : OneLine "models" ∧
    (ModelFile.ofTable Ddl.jobsTable "models" false).contents.toList.getLast? = some '\n' ∧
    (headerFor Ddl.jobsTable "models").length = 5 ∧
    ∃ ls, splitOn '\n' (ModelFile.ofTable Ddl.jobsTable "models" false).contents.toList =
      ls ++ [[]] ∧ IsLayout Ddl.jobsTable "models" ls :=
  ⟨by decide, contents_isLayout Ddl.tableOfBytes?_jobsMigration (by decide) false⟩

end SchemaModels
