import SchemaModels.Proofs.Model.Aligned

namespace SchemaModels

open Text
open Ddl (Line)

/-- A text with one space for each run of them. -/
def collapse : List Char → List Char
  | [] => []
  | c :: cs => if c = ' ' ∧ cs.head? = some ' ' then collapse cs else c :: collapse cs

/-- Two texts that differ in how long their runs of spaces are. -/
structure SameBlanks (a b : List Char) : Prop where
  head : a.head? = b.head?
  collapsed : collapse a = collapse b

theorem SameBlanks.refl (a : List Char) : SameBlanks a a := ⟨rfl, rfl⟩

theorem SameBlanks.append {a b : List Char} (h : SameBlanks a b) (front : List Char) :
    SameBlanks (front ++ a) (front ++ b) := by
  induction front with
  | nil => exact h
  | cons c front ih =>
    refine ⟨rfl, ?_⟩
    rw [List.cons_append, List.cons_append, collapse, collapse, ih.head, ih.collapsed]

theorem SameBlanks.blanks {a b : List Char} (h : SameBlanks a b) (n : Nat) :
    SameBlanks (' ' :: (List.replicate n ' ' ++ a)) (' ' :: b) := by
  refine ⟨rfl, ?_⟩
  induction n with
  | zero => exact (h.append [' ']).collapsed
  | succ n ih =>
    rw [← ih, List.replicate_succ, collapse, if_pos ⟨rfl, rfl⟩]
    rfl

theorem collapse_append_of_notMem {front : List Char} (h : ' ' ∉ front) (back : List Char) :
    collapse (front ++ back) = front ++ collapse back := by
  induction front with
  | nil => rfl
  | cons c front ih =>
    rw [List.mem_cons, not_or] at h
    rw [List.cons_append, collapse, if_neg fun hc => h.1 hc.1.symm, ih h.2]
    rfl

theorem collapse_blank {back : List Char} (h : back.head? ≠ some ' ') :
    collapse (' ' :: back) = ' ' :: collapse back := by
  rw [collapse, if_neg fun hc => h hc.2]

def Column.IsPointed (c : Column) : Prop := c.nullable = true ∧ c.kind ≠ .enum ∧ c.kind ≠ .bytes

instance (c : Column) : Decidable c.IsPointed := inferInstanceAs (Decidable (_ ∧ _))

/-- A relation between two lists of one length, for each column in its place. -/
def Along {α : Type} (R : Column → α → α → Prop) (columns : List Column) (xs ys : List α) : Prop :=
  xs.length = ys.length ∧ List.Forall₂ (fun c p => R c p.1 p.2) columns (xs.zip ys)

theorem along_map {α : Type} {R : Column → α → α → Prop} {columns : List Column}
    {f g : Column → α} (h : ∀ c ∈ columns, R c (f c) (g c)) :
    Along R columns (columns.map f) (columns.map g) := by
  refine ⟨by rw [List.length_map, List.length_map], ?_⟩
  rw [List.zip_map', List.forall₂_map_right_iff]
  exact List.forall₂_same.2 h

/-- The member of a column with pointers, and the one without. -/
structure IsPointerOf (c : Column) (f g : Field) : Prop where
  name : f.name = g.name
  tag : f.tag = g.tag
  kind : f.kind = g.kind
  default : f.default? = g.default?
  type_ne_iff : f.type ≠ g.type ↔ c.IsPointed
  type : c.IsPointed → f.type = "*" ++ g.type

/-- The lines of these members: but for spaces, they differ in a star before the type. -/
structure IsPointerLine (c : Column) (line plain : Line) : Prop where
  member : IsMemberLine c line
  plainMember : IsMemberLine c plain
  pointed : c.IsPointed → ∃ rest,
    collapse line = '\t' :: (c.camelCase.toList ++ ' ' :: '*' :: rest) ∧
    collapse plain = '\t' :: (c.camelCase.toList ++ ' ' :: rest)
  same : ¬ c.IsPointed → collapse line = collapse plain

theorem typeFor_of_isPointed (model : String) {c : Column} (h : c.IsPointed) :
    Field.typeFor model true c = "*" ++ c.kind.memberType ∧
      Field.typeFor model false c = c.kind.memberType := by
  obtain ⟨hnull, henum, hbytes⟩ := h
  simp [Field.typeFor, hnull, henum, hbytes]

theorem typeFor_of_not_isPointed (model : String) {c : Column} (h : ¬ c.IsPointed) :
    Field.typeFor model true c = Field.typeFor model false c := by
  have hplain : ¬ (c.kind ≠ .enum ∧ (true && c.nullable && c.kind != .bytes) = true) := by
    simp only [Bool.true_and, Bool.and_eq_true, bne_iff_ne]
    exact fun ⟨henum, hnull, hbytes⟩ => h ⟨hnull, henum, hbytes⟩
  unfold Field.typeFor
  split
  · rfl
  · rename_i henum
    rw [if_neg fun hpointer => hplain ⟨henum, hpointer⟩]
    rfl

theorem isPointerOf_ofColumn (model : String) (c : Column) :
    IsPointerOf c (.ofColumn model true c) (.ofColumn model false c) := by
  have hstar (s : String) : "*" ++ s ≠ s := by
    intro h
    have hlength := congrArg String.length h
    have hone : "*".length = 1 := rfl
    rw [String.length_append] at hlength
    omega
  have htype (h : c.IsPointed) :
      Field.typeFor model true c = "*" ++ Field.typeFor model false c := by
    rw [(typeFor_of_isPointed model h).1, (typeFor_of_isPointed model h).2]
  refine ⟨rfl, rfl, rfl, rfl, ⟨fun hne => ?_, fun h heq => ?_⟩, htype⟩
  · by_contra h
    exact hne (typeFor_of_not_isPointed model h)
  · exact hstar _ ((htype h).symm.trans heq)

namespace Model

def plainLine (f : Field) : Line :=
  '\t' :: (f.name.toList ++ ' ' :: (f.type.toList ++ ' ' ::
    ((quotedTag f).toList ++ memberEnd 0 f.default?)))

theorem sameBlanks_memberEnd (blanks : Nat) (default? : Option String) :
    SameBlanks (memberEnd blanks default?) (memberEnd 0 default?) := by
  cases default? with
  | none => exact .refl _
  | some value =>
    simp only [memberEnd, List.append_assoc]
    exact (SameBlanks.refl _).blanks blanks

theorem collapse_memberLine (nameWidth typeWidth tagWidth : Nat) (f : Field) :
    collapse (memberLine nameWidth typeWidth tagWidth f).toList = collapse (plainLine f) := by
  obtain ⟨i, j, k, hline⟩ := toList_memberLine nameWidth typeWidth tagWidth f
  have htag := ((sameBlanks_memberEnd k f.default?).append (quotedTag f).toList).blanks j
  have htype := (htag.append f.type.toList).blanks i
  rw [hline]
  exact (htype.append ('\t' :: f.name.toList)).collapsed

theorem head?_memberType (kind : Kind) (rest : List Char) :
    (kind.memberType.toList ++ rest).head? ≠ some ' ' := by
  cases kind <;> simp [Kind.memberType]

theorem isPointerLine_memberLine {model : String} {c : Column} (hc : c.WellFormed)
    (nameWidth typeWidth tagWidth nameWidth' typeWidth' tagWidth' : Nat) : IsPointerLine c
      (memberLine nameWidth typeWidth tagWidth (.ofColumn model true c)).toList
      (memberLine nameWidth' typeWidth' tagWidth' (.ofColumn model false c)).toList where
  member := isMemberLine_memberLine _ _ _ _ _ c
  plainMember := isMemberLine_memberLine _ _ _ _ _ c
  pointed h := by
    obtain ⟨htype, hplain⟩ := typeFor_of_isPointed model h
    -- With runs of blanks collapsed, both lines are the name and a blank in front of the type.
    have hname : ' ' ∉ '\t' :: c.camelCase.toList := by
      rw [List.mem_cons, not_or]
      exact ⟨by decide, hc.isSafe_camelCase.notMem (by decide)⟩
    let tail : List Char := ' ' ::
      ((quotedTag (.ofColumn model false c)).toList ++ memberEnd 0 c.default?)
    have hline (pointers : Bool) : plainLine (.ofColumn model pointers c) =
        ('\t' :: c.camelCase.toList) ++
          ' ' :: ((Field.typeFor model pointers c).toList ++ tail) := rfl
    refine ⟨collapse (c.kind.memberType.toList ++ tail), ?_, ?_⟩
    · have hnot : ' ' ∉ ['*'] := by decide
      have hstar : collapse ('*' :: (c.kind.memberType.toList ++ tail)) =
          '*' :: collapse (c.kind.memberType.toList ++ tail) := collapse_append_of_notMem hnot _
      have hpointer : ("*" ++ c.kind.memberType).toList ++ tail =
          '*' :: (c.kind.memberType.toList ++ tail) := by
        rw [String.toList_append]
        rfl
      rw [collapse_memberLine, hline, htype, collapse_append_of_notMem hname, hpointer,
        collapse_blank (by simp), hstar]
      rfl
    · rw [collapse_memberLine, hline, hplain, collapse_append_of_notMem hname,
        collapse_blank (head?_memberType c.kind tail)]
      rfl
  same h := by
    have htype := typeFor_of_not_isPointed model h
    rw [collapse_memberLine, collapse_memberLine, plainLine, plainLine]
    simp only [Field.ofColumn, htype, quotedTag]

theorem exists_memberLines (columns : List Column) (f : Column → Field) : ∃ i j k,
    (memberLines (columns.map f)).map String.toList =
      columns.map fun c => (memberLine i j k (f c)).toList := by
  refine ⟨byteWidth ((columns.map f).map (·.name)), byteWidth ((columns.map f).map (·.type)),
    byteWidth ((columns.map f).map quotedTag), ?_⟩
  rw [memberLines, List.map_map, List.map_map]
  rfl

theorem oneLine_of_mem_memberLines_ofTable {t : Table} (ht : t.Sound) (package : String)
    (pointers : Bool) : ∀ l ∈ memberLines (ofTable t package pointers).fields, OneLine l := by
  intro l hl
  refine oneLine_of_mem_bodyLines ht package pointers l ?_
  simp only [bodyLines, structLines, List.mem_append]
  exact .inl (.inr (.inl (.inr hl)))

theorem aboveMembers_ofTable (t : Table) (package : String) (pointers : Bool) :
    aboveMembers (ofTable t package pointers) = aboveMembers (ofTable t package false) := by
  simp only [aboveMembers, headerLines, needsTime_ofTable]
  rfl

theorem exists_splitOn_contents {t : Table} (ht : t.Sound) (package : String) :
    ∃ above below, ∀ pointers, ∃ i j k,
      splitOn '\n' (ModelFile.ofTable t package pointers).contents.toList =
        above ++ ((t.columns.map fun c =>
          (memberLine i j k (.ofColumn t.names.camelCase pointers c)).toList) ++ below) := by
  refine ⟨splitOn '\n' (aboveMembers (ofTable t package false)).toList,
    splitOn '\n' (belowMembers (ofTable t package false)).toList, fun pointers => ?_⟩
  obtain ⟨i, j, k, hmembers⟩ :=
    exists_memberLines t.columns (.ofColumn t.names.camelCase pointers)
  refine ⟨i, j, k, ?_⟩
  rw [← hmembers, ← aboveMembers_ofTable t package pointers]
  exact splitOn_source (oneLine_of_mem_memberLines_ofTable ht package pointers)

end Model

/-- With pointers and without them a model has the same enum types, the same import, and members
that differ in their types alone: where a column may be null and holds neither enums nor bytes, by
a star in front. For a table that is read from a migration the two files have the same lines above
the members and below them, and but for spaces the lines of the members differ in that star. -/
theorem pointers_change_types :
    (∀ (t : Table) (package : String),
      (Model.ofTable t package true).enumTypes = (Model.ofTable t package false).enumTypes ∧
      (Model.ofTable t package true).needsTime = (Model.ofTable t package false).needsTime ∧
      Along IsPointerOf t.columns (Model.ofTable t package true).fields
        (Model.ofTable t package false).fields) ∧
    ∀ (bytes : Bytes) (t : Table), Ddl.tableOfBytes? bytes = some t → ∀ package : String,
      ∃ above below members plainMembers,
        splitOn '\n' (ModelFile.ofTable t package true).contents.toList =
          above ++ (members ++ below) ∧
        splitOn '\n' (ModelFile.ofTable t package false).contents.toList =
          above ++ (plainMembers ++ below) ∧
        (above ++ (members ++ below)).length = (above ++ (plainMembers ++ below)).length ∧
        Along IsPointerLine t.columns members plainMembers := by
  constructor
  · intro t package
    refine ⟨rfl, ?_, along_map fun c _ => isPointerOf_ofColumn _ c⟩
    rw [Model.needsTime_ofTable, Model.needsTime_ofTable]
  · intro bytes t h package
    have ht := Ddl.sound_of_tableOfBytes? h
    obtain ⟨above, below, hlines⟩ := Model.exists_splitOn_contents ht package
    obtain ⟨i, j, k, hpointers⟩ := hlines true
    obtain ⟨i', j', k', hplain⟩ := hlines false
    refine ⟨above, below, _, _, hpointers, hplain, ?_, ?_⟩
    · simp only [List.length_append, List.length_map]
    · exact along_map fun c hc => Model.isPointerLine_memberLine (ht.columns c hc) i j k i' j' k'

def visitsMigration : Bytes :=
  encode ("CREATE TABLE visits (\n  seen datetime default '1  2',\n  raw blob,\n" ++
    "  kind enum('a'),\n  n int not null\n)").toList

def visitsTable : Table where
  names := .ofText "visits"
  columns := [⟨"seen", "Seen", .time, some "1  2", [], true⟩,
    ⟨"raw", "Raw", .bytes, none, [], true⟩,
    ⟨"kind", "Kind", .enum, none, ["a"], true⟩, ⟨"n", "N", .int, none, [], false⟩]
  failures := [⟨"", "", 6, .unexpectedFormat⟩]
  disabled := false

theorem visitsTable_pointers : Ddl.tableOfBytes? visitsMigration = some visitsTable ∧
    visitsTable.columns.map (fun c => decide c.IsPointed) = [true, false, false, false] ∧
    Along IsPointerOf visitsTable.columns (Model.ofTable visitsTable "models" true).fields
      (Model.ofTable visitsTable "models" false).fields ∧
    ∃ above below members plainMembers,
      splitOn '\n' (ModelFile.ofTable visitsTable "models" true).contents.toList =
        above ++ (members ++ below) ∧
      splitOn '\n' (ModelFile.ofTable visitsTable "models" false).contents.toList =
        above ++ (plainMembers ++ below) ∧
      (above ++ (members ++ below)).length = (above ++ (plainMembers ++ below)).length ∧
      Along IsPointerLine visitsTable.columns members plainMembers := by
  have htable : Ddl.tableOfBytes? visitsMigration = some visitsTable := by decide +kernel
  obtain ⟨hmodels, hfiles⟩ := pointers_change_types
  exact ⟨htable, by decide, (hmodels _ _).2.2, hfiles _ _ htable "models"⟩

end SchemaModels
