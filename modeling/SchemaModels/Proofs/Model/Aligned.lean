import SchemaModels.Proofs.Model.Layout

namespace SchemaModels

open Text
open Ddl (Line)

theorem length_le_utf8ByteSize (s : String) : s.length ≤ s.utf8ByteSize := by
  induction s using String.push_induction with
  | empty => exact Nat.le_refl 0
  | push s c ih =>
    have hc := c.utf8Size_pos
    rw [String.length_push, String.utf8ByteSize_push]
    omega

theorem length_le_byteWidth {cells : List String} {cell : String} (h : cell ∈ cells) :
    cell.length ≤ byteWidth cells := by
  have hbytes := length_le_utf8ByteSize cell
  induction cells with
  | nil => cases h
  | cons first cells ih =>
    rw [byteWidth, List.map_cons, List.foldr_cons]
    rcases List.mem_cons.1 h with rfl | hmem
    · omega
    · have hrest := ih hmem
      rw [byteWidth] at hrest
      omega

/-- A cell with its text in full, then blanks only and at least one of them. -/
def IsFilled (text cell : List Char) : Prop := ∃ n, cell = text ++ List.replicate (n + 1) ' '

def Field.tagText (f : Field) : List Char := '`' :: f.tag.toList ++ ['`']

/-- The line of a member whose type, tag and default start at the given characters. -/
def IsAligned (typeAt tagAt defaultAt : Nat) (f : Field) (line : Line) : Prop :=
  ∃ nameCell typeCell rest : List Char, line = nameCell ++ typeCell ++ rest ∧
    IsFilled ('\t' :: f.name.toList) nameCell ∧ nameCell.length = typeAt ∧
    IsFilled f.type.toList typeCell ∧ (nameCell ++ typeCell).length = tagAt ∧
    match f.default? with
    | none => rest = f.tagText
    | some value => ∃ tagCell, rest = tagCell ++ ("// default: " ++ value).toList ∧
        IsFilled f.tagText tagCell ∧ (nameCell ++ typeCell ++ tagCell).length = defaultAt

structure Field.IsOneLine (f : Field) : Prop where
  name : OneLine f.name
  type : OneLine f.type
  tag : OneLine f.tag
  default : ∀ value ∈ f.default?, OneLine value

namespace Model

theorem toList_quotedTag (f : Field) : (quotedTag f).toList = f.tagText := by
  simp [quotedTag, Field.tagText]

theorem isAligned_memberLine {nameWidth typeWidth tagWidth : Nat} {f : Field}
    (hname : f.name.length ≤ nameWidth) (htype : f.type.length ≤ typeWidth)
    (htag : (quotedTag f).length ≤ tagWidth) :
    IsAligned (nameWidth + 2) (nameWidth + typeWidth + 3) (nameWidth + typeWidth + tagWidth + 4) f
      (memberLine nameWidth typeWidth tagWidth f).toList := by
  rw [← String.length_toList] at hname htype htag
  rw [toList_quotedTag] at htag
  rw [toList_memberLine_eq, toList_quotedTag]
  simp only [← String.length_toList, toList_quotedTag]
  refine ⟨'\t' :: f.name.toList ++ List.replicate (nameWidth - f.name.toList.length + 1) ' ',
    f.type.toList ++ List.replicate (typeWidth - f.type.toList.length + 1) ' ',
    f.tagText ++ memberEnd (tagWidth - f.tagText.length) f.default?,
    ?_, ⟨_, rfl⟩, ?_, ⟨_, rfl⟩, ?_, ?_⟩
  · simp [List.replicate_succ]
  · simp only [List.length_append, List.length_cons, List.length_replicate]
    omega
  · simp only [List.length_append, List.length_cons, List.length_replicate]
    omega
  · cases f.default? with
    | none => exact List.append_nil _
    | some value =>
      refine ⟨f.tagText ++ List.replicate (tagWidth - f.tagText.length + 1) ' ', ?_, ⟨_, rfl⟩, ?_⟩
      · simp [memberEnd, List.replicate_succ]
      · simp only [List.length_append, List.length_cons, List.length_replicate]
        omega

theorem isAligned_memberLines (fields : List Field) : ∃ typeAt tagAt defaultAt,
    List.Forall₂ (IsAligned typeAt tagAt defaultAt) fields
      ((memberLines fields).map String.toList) := by
  have hfits (f : Field) (hf : f ∈ fields) := isAligned_memberLine
    (length_le_byteWidth (List.mem_map_of_mem (f := Field.name) hf))
    (length_le_byteWidth (List.mem_map_of_mem (f := Field.type) hf))
    (length_le_byteWidth (List.mem_map_of_mem (f := quotedTag) hf))
  refine ⟨byteWidth (fields.map (·.name)) + 2,
    byteWidth (fields.map (·.name)) + byteWidth (fields.map (·.type)) + 3,
    byteWidth (fields.map (·.name)) + byteWidth (fields.map (·.type)) +
      byteWidth (fields.map quotedTag) + 4, ?_⟩
  rw [memberLines, List.map_map, List.forall₂_map_right_iff]
  exact List.forall₂_same.2 hfits

def aboveMembers (m : Model) : String :=
  unlines (headerLines m) ++ "type " ++ m.name ++ " struct \x7b"

def belowMembers (m : Model) : String := unlines ("\x7d" :: m.enumTypes.flatMap enumLines)

theorem toList_unlines_append (front back : List String) :
    (unlines (front ++ back)).toList = (unlines front).toList ++ (unlines back).toList := by
  simp only [unlines, String.toList_ofList, List.flatMap_append]

theorem toList_source (m : Model) : m.source.toList = (aboveMembers m).toList ++
    '\n' :: ((unlines (memberLines m.fields)).toList ++ (belowMembers m).toList) := by
  simp [source, sourceLines, structLines, aboveMembers, belowMembers, unlines]

theorem splitOn_source {m : Model} (h : ∀ l ∈ memberLines m.fields, OneLine l) :
    splitOn '\n' m.source.toList = splitOn '\n' (aboveMembers m).toList ++
      ((memberLines m.fields).map String.toList ++ splitOn '\n' (belowMembers m).toList) := by
  rw [toList_source, splitOn_append_cons]
  exact congrArg (splitOn '\n' (aboveMembers m).toList ++ ·) (splitOn_unlines_append h _)

theorem oneLine_of_mem_memberLines {fields : List Field} (h : ∀ f ∈ fields, f.IsOneLine) :
    ∀ l ∈ memberLines fields, OneLine l := by
  intro l hl
  obtain ⟨f, hf, rfl⟩ := List.mem_map.1 hl
  exact oneLine_memberLine _ _ _ (h f hf).name (h f hf).type (h f hf).tag (h f hf).default

/-- The members of a model stand between the line that opens the struct and the brace that closes
it, one line for each. In all of them the types start at one place, the tags at one, and so do the
defaults where there are any, with nothing but blanks in front of each. -/
theorem members_aligned {m : Model} (h : ∀ f ∈ m.fields, f.IsOneLine) :
    ∃ members below, splitOn '\n' m.source.toList =
        splitOn '\n' (aboveMembers m).toList ++ (members ++ ['\x7d'] :: below) ∧
      ∃ typeAt tagAt defaultAt,
        List.Forall₂ (IsAligned typeAt tagAt defaultAt) m.fields members := by
  have hbelow : splitOn '\n' (belowMembers m).toList =
      ['\x7d'] :: splitOn '\n' (unlines (m.enumTypes.flatMap enumLines)).toList := by
    rw [belowMembers, ← List.singleton_append, toList_unlines_append]
    exact splitOn_unlines_append (by decide) _
  refine ⟨(memberLines m.fields).map String.toList,
    splitOn '\n' (unlines (m.enumTypes.flatMap enumLines)).toList, ?_,
    isAligned_memberLines m.fields⟩
  rw [splitOn_source (oneLine_of_mem_memberLines h), hbelow]

/-- Members in several scripts, and a name of the struct that goes over the end of its line. -/
def mixedModel : Model where
  table := "t"
  package := "models"
  name := "A\nB"
  fields := [⟨"Größe", "*uint", "db:\"größe\"", .uint, some ""⟩,
    ⟨"Id", "int", "db:\"id\"", .int, none⟩, ⟨"名", "T名", "", .enum, some "a  b"⟩,
    ⟨"", "", "db:\"\"", .enum, none⟩]
  enumTypes := []
  needsTime := false

theorem mixedModel_aligned : (∀ f ∈ mixedModel.fields, f.IsOneLine) ∧
    ∃ members below, splitOn '\n' mixedModel.source.toList =
        splitOn '\n' (aboveMembers mixedModel).toList ++ (members ++ ['\x7d'] :: below) ∧
      ∃ typeAt tagAt defaultAt,
        List.Forall₂ (IsAligned typeAt tagAt defaultAt) mixedModel.fields members := by
  have h : ∀ f ∈ mixedModel.fields, f.IsOneLine := by
    simp only [mixedModel, List.forall_mem_cons, List.not_mem_nil, false_imp_iff, implies_true,
      and_true]
    refine ⟨⟨?_, ?_, ?_, ?_⟩, ⟨?_, ?_, ?_, ?_⟩, ⟨?_, ?_, ?_, ?_⟩, ⟨?_, ?_, ?_, ?_⟩⟩ <;> decide
  exact ⟨h, members_aligned h⟩

end Model

end SchemaModels
