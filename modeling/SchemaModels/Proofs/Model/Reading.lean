import SchemaModels.Proofs.Model.Layout

namespace SchemaModels

open Text
open Ddl (Line)

def Column.withoutNull (c : Column) : Column := { c with nullable := false }

/-- What the struct shows of a column. -/
def Column.withoutValues (c : Column) : Column := { c.withoutNull with enumValues := [] }

namespace Reading

def before (sep : Char) (cs : List Char) : List Char := cs.takeWhile (· != sep)

def after (sep : Char) (cs : List Char) : List Char := (cs.dropWhile (· != sep)).tail

def isIndented (line : Line) : Bool := line.head? == some '\t'

/-- The maximal runs of indented lines: the members, and then the constants of each enum type. -/
def indentedRuns (ls : List Line) : List (List Line) :=
  (ls.splitOnP (!isIndented ·)).filter (!·.isEmpty)

def typeCell (line : Line) : List Char :=
  ((line.dropWhile (· != ' ')).dropWhile (· == ' ')).takeWhile fun c => c != ' ' && c != '`'

/-- The kind that a member is typed with, where all types of enum columns have other names. -/
def kindOf (type : List Char) : Kind :=
  (Kind.all.find? fun kind => kind != .enum &&
    (type == kind.memberType.toList || type == '*' :: kind.memberType.toList)).getD .enum

def taggedName (tag : List Char) : String := String.ofList (before '"' (after '"' tag))

def defaultAfter? : List Char → Option String
  | [] => none
  | rest => some (String.ofList ((rest.dropWhile (· == ' ')).drop "// default: ".length))

def readMember (line : Line) : Column :=
  let name := taggedName (after '`' line)
  { name
    camelCase := Name.camelCase name
    kind := kindOf (typeCell line)
    default? := defaultAfter? (after '`' (after '`' line))
    enumValues := []
    nullable := false }

def unescape : List Char → List Char
  | [] => []
  | '"' :: _ => []
  | '\\' :: c :: cs => (if c = 'n' then '\n' else if c = 't' then '\t' else c) :: unescape cs
  | c :: cs => c :: unescape cs

def readValue (line : Line) : String := String.ofList (unescape (after '"' line))

/-- Gives each enum column the next list of values. -/
def fill : List Column → List (List String) → List Column
  | [], _ => []
  | c :: cs, values =>
    if c.kind = .enum then { c with enumValues := values.headD [] } :: fill cs values.tail
    else c :: fill cs values

def readColumns (body : List Line) : List Column :=
  let runs := indentedRuns body
  fill ((runs.headD []).map readMember) (runs.tail.map (·.map readValue))

def opening : String := "// Code generated by modelgen. DO NOT EDIT.\n// Source table: "

def packagePart (package : String) : String := "\npackage " ++ package ++ "\n\n"

/-- The name of the table of a model file, and its columns. -/
def readTable (package text : String) : String × List Column :=
  let named := text.toList.drop opening.length
  let body := (after '\n' named).drop (packagePart package).length
  (String.ofList (before '\n' named), readColumns (splitOn '\n' body).dropLast)

theorem before_append_cons {sep : Char} {front : List Char} (h : sep ∉ front) (rest : List Char) :
    before sep (front ++ sep :: rest) = front := by
  rw [before, takeWhile_append_eq (bne_of_notMem h) (by simp)]

theorem after_append_cons {sep : Char} {front : List Char} (h : sep ∉ front) (rest : List Char) :
    after sep (front ++ sep :: rest) = rest := by
  rw [after, dropWhile_append_eq (bne_of_notMem h) (by simp), List.tail_cons]

theorem indentedRuns_cons {l : Line} (h : isIndented l = false) (ls : List Line) :
    indentedRuns (l :: ls) = indentedRuns ls := by
  have hsplit := List.splitOnP_append_cons (p := (!isIndented ·)) [] ls (by simpa using h)
  rw [List.nil_append, List.splitOnP_nil] at hsplit
  rw [indentedRuns, hsplit]
  rfl

theorem indentedRuns_append_cons {run : List Line} {l : Line} (hne : run ≠ [])
    (hrun : ∀ x ∈ run, isIndented x = true) (h : isIndented l = false) (ls : List Line) :
    indentedRuns (run ++ l :: ls) = run :: indentedRuns ls := by
  rw [indentedRuns, List.splitOnP_append_cons_of_forall_mem (by simpa using hrun) _
    (by simpa using h), List.filter_cons_of_pos (by simpa using hne)]
  rfl

theorem dropWhile_blanks (n : Nat) (cs : List Char) :
    (List.replicate n ' ' ++ cs).dropWhile (· == ' ') = cs.dropWhile (· == ' ') :=
  List.dropWhile_append_of_pos fun c hc => by simp [List.eq_of_mem_replicate hc]

section Cells

variable {name type : List Char} (hname : ∀ c ∈ name, c ≠ ' ' ∧ c ≠ '`')
  (htype : ∀ c ∈ type, c ≠ ' ' ∧ c ≠ '`') (i j : Nat) (rest : List Char)

include hname htype

theorem typeCell_append : typeCell (name ++ ' ' :: (List.replicate i ' ' ++
    (type ++ ' ' :: (List.replicate j ' ' ++ '`' :: rest)))) = type := by
  have hfront : ∀ c ∈ name, (c != ' ') = true := fun c hc => by simpa using (hname c hc).1
  rw [typeCell, List.dropWhile_append_of_pos hfront, List.dropWhile_cons_of_neg (by simp),
    List.dropWhile_cons_of_pos (by simp), dropWhile_blanks]
  -- A type has no characters where those of the names are all underscores.
  cases type with
  | nil =>
    rw [List.nil_append, List.dropWhile_cons_of_pos (by simp), dropWhile_blanks,
      List.dropWhile_cons_of_neg (by simp), List.takeWhile_cons_of_neg (by simp)]
  | cons c cs =>
    have hc := (htype c List.mem_cons_self).1
    rw [List.cons_append, List.dropWhile_cons_of_neg (by simpa using hc), ← List.cons_append,
      List.takeWhile_append_of_pos (by simpa using htype), List.takeWhile_cons_of_neg (by simp),
      List.append_nil]

theorem after_quote_append : after '`' (name ++ ' ' :: (List.replicate i ' ' ++
    (type ++ ' ' :: (List.replicate j ' ' ++ '`' :: rest)))) = rest := by
  have hquote : '`' ∉ name ++ ' ' :: (List.replicate i ' ' ++
      (type ++ ' ' :: List.replicate j ' ')) := by
    simp only [List.mem_append, List.mem_cons, List.mem_replicate, not_or]
    exact ⟨fun h => (hname _ h).2 rfl, by decide, by simp, fun h => (htype _ h).2 rfl, by decide,
      by simp⟩
  have hsplit := after_append_cons hquote rest
  simpa only [List.append_assoc, List.cons_append] using hsplit

end Cells

/-- No name of an enum type starts as the types of other members do. -/
theorem memberType_head (kind : Kind) : ∃ c cs, kind.memberType.toList = c :: cs ∧
    (c.isLower = true ∨ isNameChar c = false) := by
  cases kind <;> exact ⟨_, _, rfl, by decide⟩

theorem isLower_of_head_nameFor {t : Table} {c : Column} (ht : t.Sound) (hc : c.WellFormed) :
    ∀ first ∈ (EnumType.nameFor t.names.camelCase c).toList.head?, first.isLower = false := by
  intro first hfirst
  rw [EnumType.nameFor, String.toList_append, List.head?_append, Option.mem_def,
    Option.or_eq_some_iff, ht.camelCase, hc.camelCase, Name.camelCase, Name.camelCase,
    String.toList_ofList, String.toList_ofList] at hfirst
  rcases hfirst with h | ⟨-, h⟩ <;> exact Name.isLower_of_head_camelChars _ h

theorem kindOf_nameFor {t : Table} {c : Column} (ht : t.Sound) (hc : c.WellFormed) :
    kindOf (EnumType.nameFor t.names.camelCase c).toList = .enum := by
  have hsafe := isSafe_nameFor ht.isSafe_camelCase hc
  have hhead := isLower_of_head_nameFor ht hc
  have hnone (kind : Kind) :
      (EnumType.nameFor t.names.camelCase c).toList ≠ kind.memberType.toList ∧
      (EnumType.nameFor t.names.camelCase c).toList ≠ '*' :: kind.memberType.toList := by
    obtain ⟨first, rest, hcons, hfirst⟩ := memberType_head kind
    constructor
    · intro heq
      rw [hcons] at heq
      rcases hfirst with h | h
      · rw [hhead first (by rw [heq]; rfl)] at h
        cases h
      · exact hsafe.notMem h (heq ▸ List.mem_cons_self)
    · intro heq
      exact hsafe.notMem (c := '*') (by decide) (heq ▸ List.mem_cons_self)
  unfold kindOf
  rw [List.find?_eq_none.2]
  · rfl
  · intro kind _
    simp [hnone kind]

theorem kindOf_typeFor {t : Table} {c : Column} (ht : t.Sound) (hc : c.WellFormed)
    (pointers : Bool) :
    kindOf (Field.typeFor t.names.camelCase pointers c).toList = c.kind := by
  unfold Field.typeFor
  split
  · rename_i hkind
    rw [kindOf_nameFor ht hc, hkind]
  · generalize c.kind = kind at *
    split <;> cases kind <;> first | contradiction | decide

theorem defaultAfter?_memberEnd (blanks : Nat) (default? : Option String) :
    defaultAfter? (Model.memberEnd blanks default?) = default? := by
  cases default? with
  | none => rfl
  | some value =>
    rw [Model.memberEnd, defaultAfter?]
    · rw [List.dropWhile_cons_of_pos (by simp), List.append_assoc, dropWhile_blanks]
      exact congrArg some String.ofList_toList
    · simp

section Tag

variable {name : String} (hname : Name.IsSafe name) (rest : List Char)

include hname

theorem taggedName_append : taggedName ((Name.columnTag name).toList ++ rest) = name := by
  have htag : (Name.columnTag name).toList ++ rest =
      "db:".toList ++ '"' :: (name.toList ++ '"' :: rest) := by
    simp [Name.columnTag]
  rw [taggedName, htag, after_append_cons (by decide),
    before_append_cons (hname.notMem (by decide)), String.ofList_toList]

theorem after_columnTag : after '`' ((Name.columnTag name).toList ++ '`' :: rest) = rest := by
  refine after_append_cons ?_ rest
  simp only [Name.columnTag, String.toList_append, List.mem_append, not_or]
  exact ⟨⟨by decide, hname.notMem (by decide)⟩, by decide⟩

end Tag

theorem readMember_memberLine {t : Table} {c : Column} (ht : t.Sound) (hc : c.WellFormed)
    (pointers : Bool) (nameWidth typeWidth tagWidth : Nat) :
    readMember (Model.memberLine nameWidth typeWidth tagWidth
      (.ofColumn t.names.camelCase pointers c)).toList = c.withoutValues := by
  obtain ⟨i, j, k, hline⟩ := Model.toList_memberLine nameWidth typeWidth tagWidth
    (.ofColumn t.names.camelCase pointers c)
  have hname : ∀ x ∈ '\t' :: c.camelCase.toList, x ≠ ' ' ∧ x ≠ '`' := by
    rw [List.forall_mem_cons]
    exact ⟨by decide, fun x hx => (hc.isSafe_camelCase.isCell x hx).imp_right And.left⟩
  have htype : ∀ x ∈ (Field.typeFor t.names.camelCase pointers c).toList, x ≠ ' ' ∧ x ≠ '`' :=
    fun x hx => (isCell_typeFor pointers ht.isSafe_camelCase hc x hx).imp_right And.left
  have hquoted : (Model.quotedTag (.ofColumn t.names.camelCase pointers c)).toList ++
      Model.memberEnd k c.default? =
        '`' :: ((Name.columnTag c.name).toList ++ '`' :: Model.memberEnd k c.default?) := by
    simp [Model.quotedTag, Field.ofColumn]
  rw [hline]
  simp only [Field.ofColumn] at hquoted ⊢
  rw [hquoted, ← List.cons_append, readMember, typeCell_append hname htype,
    after_quote_append hname htype, taggedName_append hc.isSafe_name,
    after_columnTag hc.isSafe_name, defaultAfter?_memberEnd, kindOf_typeFor ht hc, ← hc.camelCase]
  rfl

theorem unescape_flatMap_escape (value : List Char) :
    unescape (value.flatMap Constant.escape ++ ['"']) = value := by
  induction value with
  | nil => rfl
  | cons c cs ih =>
    rw [List.flatMap_cons, List.append_assoc]
    generalize cs.flatMap Constant.escape ++ ['"'] = rest at ih ⊢
    unfold Constant.escape
    split
    · exact congrArg ('"' :: ·) ih
    · exact congrArg ('\\' :: ·) ih
    · exact congrArg ('\n' :: ·) ih
    · exact congrArg ('\t' :: ·) ih
    · rename_i hquote hslash _ _
      rw [List.singleton_append, unescape, ih]
      · exact hquote
      · exact fun _ _ h _ => hslash h

theorem readValue_constantLine (nameWidth : Nat) {type name : String} (value : String)
    (htype : Name.IsSafe type) (hname : Name.IsSafe name) :
    readValue (Model.constantLine nameWidth type name value).toList = value := by
  have hfront : '"' ∉ ("\t" ++ padTo nameWidth name ++ " " ++ type ++ " = ").toList := by
    simp only [padTo, String.toList_append, String.toList_ofList, List.mem_append,
      List.mem_replicate, not_or]
    exact ⟨⟨⟨⟨by decide, hname.notMem (by decide), by simp⟩, by decide⟩,
      htype.notMem (by decide)⟩, by decide⟩
  have hline : (Model.constantLine nameWidth type name value).toList =
      ("\t" ++ padTo nameWidth name ++ " " ++ type ++ " = ").toList ++
        '"' :: (value.toList.flatMap Constant.escape ++ ['"']) := by
    rw [Model.constantLine, String.toList_append, Constant.literal, String.toList_ofList,
      Constant.literalChars, List.cons_append]
  rw [readValue, hline, after_append_cons hfront, unescape_flatMap_escape, String.ofList_toList]

theorem map_readValue_constantLines {t : EnumType} (hname : Name.IsSafe t.name) :
    ((Model.constantLines t).map String.toList).map readValue = t.values := by
  have hread : List.Forall₂ (· = ·) t.values
      (((Model.constantLines t).map String.toList).map readValue) := by
    rw [List.map_map, List.forall₂_map_right_iff]
    refine (Model.forall₂_constantLines t).imp ?_
    rintro value _ ⟨name, hmem, rfl⟩
    exact (readValue_constantLine _ value hname (Constant.isSafe_of_mem_names hname hmem)).symm
  rw [List.forall₂_eq_eq_eq] at hread
  exact hread.symm

theorem isIndented_constantLines (t : EnumType) :
    ∀ l ∈ (Model.constantLines t).map String.toList, isIndented l = true := by
  intro l hl
  obtain ⟨line, hline, rfl⟩ := List.mem_map.1 hl
  obtain ⟨value, -, name, -, rfl⟩ := exists_of_forall₂ (Model.forall₂_constantLines t) hline
  simp [isIndented, Model.constantLine]

theorem isIndented_memberLines (fields : List Field) :
    ∀ l ∈ (Model.memberLines fields).map String.toList, isIndented l = true := by
  intro l hl
  simp only [Model.memberLines, List.map_map, List.mem_map] at hl
  obtain ⟨f, -, rfl⟩ := hl
  obtain ⟨i, j, k, hline⟩ := Model.toList_memberLine _ _ _ f
  rw [Function.comp_apply, hline]
  rfl

theorem indentedRuns_flatMap_enumLines {types : List EnumType} (h : ∀ t ∈ types, t.values ≠ []) :
    indentedRuns ((types.flatMap Model.enumLines).map String.toList) =
      types.map fun t => (Model.constantLines t).map String.toList := by
  induction types with
  | nil => rfl
  | cons t types ih =>
    rw [List.forall_mem_cons] at h
    have hne : (Model.constantLines t).map String.toList ≠ [] := by
      have hlength := (Model.forall₂_constantLines t).length_eq
      intro hnil
      rw [List.map_eq_nil_iff] at hnil
      rw [hnil] at hlength
      exact h.1 (List.eq_nil_of_length_eq_zero hlength)
    have htype : isIndented ("type " ++ t.name ++ " " ++ t.parent).toList = false := by
      simp [isIndented]
    simp only [List.flatMap_cons, Model.enumLines, List.map_append, List.map_cons,
      List.append_assoc, List.cons_append, List.nil_append]
    rw [indentedRuns_cons rfl, indentedRuns_cons htype, indentedRuns_cons rfl,
      indentedRuns_cons rfl, indentedRuns_append_cons hne (isIndented_constantLines t) rfl, ih h.2]

/-- Only enum columns have values, and they get theirs back. -/
theorem fill_columns {cs : List Column} (h : ∀ c ∈ cs, c.WellFormed) :
    fill (cs.map Column.withoutValues) ((cs.filter (·.kind == .enum)).map (·.enumValues)) =
      cs.map Column.withoutNull := by
  induction cs with
  | nil => rfl
  | cons c cs ih =>
    rw [List.forall_mem_cons] at h
    have hkept : c.withoutValues.kind = c.kind := rfl
    rw [List.map_cons, List.map_cons, fill, hkept]
    by_cases hkind : c.kind = .enum
    · rw [if_pos hkind, List.filter_cons_of_pos (by simpa using hkind)]
      exact congrArg (c.withoutNull :: ·) (ih h.2)
    · have hvalues : c.enumValues = [] := by
        by_contra hne
        exact hkind (h.1.enum_iff.2 hne)
      have hsame : c.withoutValues = c.withoutNull := by
        rw [Column.withoutValues, ← hvalues]
        rfl
      rw [if_neg hkind, List.filter_cons_of_neg (by simpa using hkind), ih h.2, hsame]

theorem indentedRuns_structLines (m : Model) (ls : List Line) :
    indentedRuns ((Model.structLines m).map String.toList ++ ls) =
      (if m.fields = [] then [] else [(Model.memberLines m.fields).map String.toList]) ++
        indentedRuns ls := by
  have hopen : isIndented ("type " ++ m.name ++ " struct \x7b").toList = false := by
    simp [isIndented]
  have hclose : isIndented "\x7d".toList = false := rfl
  simp only [Model.structLines, List.map_append, List.map_cons, List.map_nil, List.append_assoc,
    List.cons_append, List.nil_append]
  rw [indentedRuns_cons hopen]
  split
  · rename_i hnil
    rw [hnil]
    exact indentedRuns_cons hclose ls
  · rename_i hne
    refine indentedRuns_append_cons ?_ (isIndented_memberLines m.fields) hclose ls
    simpa [Model.memberLines] using hne

theorem indentedRuns_bodyLines {m : Model} (h : ∀ e ∈ m.enumTypes, e.values ≠ []) :
    indentedRuns ((Model.bodyLines m).map String.toList) =
      (if m.fields = [] then [] else [(Model.memberLines m.fields).map String.toList]) ++
        m.enumTypes.map fun e => (Model.constantLines e).map String.toList := by
  rw [← indentedRuns_flatMap_enumLines h, ← indentedRuns_structLines, Model.bodyLines,
    List.map_append, List.map_append, List.append_assoc]
  split
  · exact (indentedRuns_cons rfl _).trans (indentedRuns_cons rfl _)
  · rfl

theorem readColumns_bodyLines {t : Table} (ht : t.Sound) (package : String) (pointers : Bool) :
    readColumns ((Model.bodyLines (.ofTable t package pointers)).map String.toList) =
      t.columns.map Column.withoutNull := by
  have hvalues : ∀ e ∈ (Model.ofTable t package pointers).enumTypes, e.values ≠ [] := by
    intro e he
    obtain ⟨c, hc, hkind, rfl⟩ := Model.exists_of_mem_enumTypes he
    exact (ht.columns c hc).enum_iff.1 hkind
  have hmembers : ((Model.memberLines (Model.ofTable t package pointers).fields).map
      String.toList).map readMember = t.columns.map Column.withoutValues := by
    simp only [Model.ofTable, Model.fieldsOf, Model.memberLines, List.map_map]
    exact List.map_congr_left fun c hc => readMember_memberLine ht (ht.columns c hc) pointers _ _ _
  have hconstants : ((Model.ofTable t package pointers).enumTypes.map fun e =>
      (Model.constantLines e).map String.toList).map (·.map readValue) =
        (t.columns.filter (·.kind == .enum)).map (·.enumValues) := by
    simp only [Model.ofTable, Model.enumTypesOf, List.map_map]
    refine List.map_congr_left fun c hc => ?_
    have hname := isSafe_nameFor ht.isSafe_camelCase (ht.columns c (List.mem_filter.1 hc).1)
    exact map_readValue_constantLines (t := .ofColumn t.names.camelCase c) hname
  rw [readColumns, indentedRuns_bodyLines hvalues, ← fill_columns ht.columns]
  split
  · -- There are no members then, and no enum type whose constants could be taken for them.
    rename_i hnil
    have hcolumns : t.columns = [] := List.map_eq_nil_iff.1 hnil
    have htypes : (Model.ofTable t package pointers).enumTypes = [] := by
      simp [Model.ofTable, Model.enumTypesOf, hcolumns]
    rw [htypes, hcolumns]
    rfl
  · rw [← hmembers, ← hconstants]
    rfl

theorem toList_unlines_cons (l : String) (ls : List String) :
    (unlines (l :: ls)).toList = l.toList ++ '\n' :: (unlines ls).toList := by
  simp [unlines]

theorem toList_contents {t : Table} (package : String) (pointers : Bool) :
    (ModelFile.ofTable t package pointers).contents.toList =
      opening.toList ++ (t.names.text.toList ++ '\n' :: ((packagePart package).toList ++
        (unlines (Model.bodyLines (.ofTable t package pointers))).toList)) := by
  have hcontents : (ModelFile.ofTable t package pointers).contents =
      unlines (Model.ofTable t package pointers).sourceLines := rfl
  rw [hcontents, Model.sourceLines_eq]
  simp only [List.cons_append, List.nil_append, toList_unlines_cons, opening, packagePart,
    String.toList_append]
  simp [Model.ofTable]

theorem readTable_contents {t : Table} (ht : t.Sound) (package : String) (pointers : Bool) :
    readTable package (ModelFile.ofTable t package pointers).contents =
      (t.names.text, t.columns.map Column.withoutNull) := by
  have hbody := splitOn_unlines (Model.oneLine_of_mem_bodyLines ht package pointers)
  have hfeed : '\n' ∉ t.names.text.toList := ht.name.isSafe.notMem (by decide)
  rw [readTable, toList_contents, ← String.length_toList, List.drop_left,
    after_append_cons hfeed, before_append_cons hfeed, ← String.length_toList, List.drop_left,
    hbody, List.dropLast_concat, readColumns_bodyLines ht, String.ofList_toList]

end Reading

/-- Without pointers a model file does not show which columns may be null. -/
theorem contents_eq_of_columns {t u : Table} (hnames : t.names = u.names)
    (hcolumns : t.columns.map Column.withoutNull = u.columns.map Column.withoutNull)
    (package : String) : (ModelFile.ofTable t package false).contents =
      (ModelFile.ofTable u package false).contents := by
  have hmodel (t : Table) : Model.ofTable t package false =
      Model.ofTable { t with columns := t.columns.map Column.withoutNull } package false := by
    simp only [Model.ofTable, Model.fieldsOf, Model.enumTypesOf, List.map_map, List.filter_map]
    rfl
  have hsource : Model.ofTable t package false = Model.ofTable u package false := by
    rw [hmodel t, hmodel u, hcolumns]
    simp only [Model.ofTable, hnames]
  exact congrArg Model.source hsource

/-- Two tables of migrations that give the same model file have the same name and the same columns,
but for which of these may be null. -/
theorem eq_of_contents_eq {bytes bytes' : Bytes} {t u : Table}
    (ht : Ddl.tableOfBytes? bytes = some t) (hu : Ddl.tableOfBytes? bytes' = some u)
    {package : String} {pointers : Bool}
    (h : (ModelFile.ofTable t package pointers).contents =
      (ModelFile.ofTable u package pointers).contents) :
    t.names = u.names ∧ t.columns.map Column.withoutNull = u.columns.map Column.withoutNull := by
  have htSound := Ddl.sound_of_tableOfBytes? ht
  have huSound := Ddl.sound_of_tableOfBytes? hu
  have hread := congrArg (Reading.readTable package) h
  rw [Reading.readTable_contents htSound, Reading.readTable_contents huSound, Prod.mk.injEq]
    at hread
  refine ⟨?_, hread.2⟩
  have hcamel : t.names.camelCase = u.names.camelCase := by
    rw [htSound.camelCase, huSound.camelCase, hread.1]
  exact congrArg₂ TableName.mk hread.1 hcamel

def requiredJobs : Bytes :=
  encode ("CREATE TABLE jobs (\n  id INT UNSIGNED NOT NULL,\n" ++
    "  state ENUM('new', 'done') NOT NULL DEFAULT 'new'\n)").toList

def requiredJobsTable : Table where
  names := .ofText "jobs"
  columns := Ddl.jobsTable.columns.map Column.withoutNull
  failures := [⟨"", "", 4, .unexpectedFormat⟩]
  disabled := false

theorem jobsTable_eq_requiredJobsTable :
    (ModelFile.ofTable Ddl.jobsTable "models" false).contents =
      (ModelFile.ofTable requiredJobsTable "models" false).contents ∧
    Ddl.jobsTable.names = requiredJobsTable.names ∧
    Ddl.jobsTable.columns.map Column.withoutNull =
      requiredJobsTable.columns.map Column.withoutNull := by
  have hread : Ddl.tableOfBytes? requiredJobs = some requiredJobsTable := by decide +kernel
  have hsame : (ModelFile.ofTable Ddl.jobsTable "models" false).contents =
      (ModelFile.ofTable requiredJobsTable "models" false).contents :=
    contents_eq_of_columns rfl (by decide) "models"
  exact ⟨hsame, eq_of_contents_eq Ddl.tableOfBytes?_jobsMigration hread hsame⟩

end SchemaModels
