import Mathlib.Data.List.Lattice
import Mathlib.Data.List.Nodup
import Mathlib.Data.List.Pairwise
import SchemaModels.Proofs.Model.Reading

namespace SchemaModels

open Text
open Ddl (Line)

/-- A type that a model file declares, and the constants of the type. -/
structure TypeDecl where
  name : String
  constants : List String
  deriving DecidableEq, Repr

namespace TypeDecl

def names (d : TypeDecl) : List String := d.name :: d.constants

def ofEnum (t : EnumType) : TypeDecl := ⟨t.name, Constant.names t.name t.values⟩

/-- The constants have different names, which all go on where that of the type ends. -/
structure Sound (d : TypeDecl) : Prop where
  nodup : d.constants.Nodup
  longer : ∀ k ∈ d.constants, d.name.toList <+: k.toList ∧ k ≠ d.name

/-- The types have different names. Where that of one starts that of another, no constant of the
first is a name of the second. -/
structure Apart (ds : List TypeDecl) : Prop where
  types : (ds.map (·.name)).Nodup
  constants : ∀ a ∈ ds, ∀ b ∈ ds, a.name ≠ b.name → a.name.toList <+: b.name.toList →
    ∀ k ∈ a.constants, k ∉ b.names

instance (ds : List TypeDecl) : Decidable (Apart ds) :=
  decidable_of_iff ((ds.map (·.name)).Nodup ∧ ∀ a ∈ ds, ∀ b ∈ ds, a.name ≠ b.name →
    a.name.toList <+: b.name.toList → ∀ k ∈ a.constants, k ∉ b.names)
    ⟨fun h => ⟨h.1, h.2⟩, fun h => ⟨h.types, h.constants⟩⟩

theorem Sound.nodup_names {d : TypeDecl} (h : d.Sound) : d.names.Nodup :=
  List.nodup_cons.2 ⟨fun hmem => (h.longer _ hmem).2 rfl, h.nodup⟩

theorem Sound.starts_of_mem {d : TypeDecl} (h : d.Sound) {k : String} (hk : k ∈ d.names) :
    d.name.toList <+: k.toList := by
  rcases List.mem_cons.1 hk with rfl | hmem
  · exact List.prefix_rfl
  · exact (h.longer k hmem).1

theorem Apart.disjoint_of_starts {ds : List TypeDecl} (h : Apart ds) (hsound : ∀ d ∈ ds, d.Sound)
    {a b : TypeDecl} (ha : a ∈ ds) (hb : b ∈ ds) (hne : a.name ≠ b.name)
    (hstarts : a.name.toList <+: b.name.toList) : a.names.Disjoint b.names := by
  intro k hka hkb
  rcases List.mem_cons.1 hka with rfl | hmem
  · have hback := (hsound b hb).starts_of_mem hkb
    exact hne (String.toList_injective (hstarts.eq_of_length_le hback.length_le))
  · exact h.constants a ha b hb hne hstarts k hmem hkb

/-- A name that two types share starts with the names of both, so that one of these starts the
other. -/
theorem Apart.disjoint {ds : List TypeDecl} (h : Apart ds) (hsound : ∀ d ∈ ds, d.Sound)
    {a b : TypeDecl} (ha : a ∈ ds) (hb : b ∈ ds) (hne : a.name ≠ b.name) :
    a.names.Disjoint b.names := by
  intro k hka hkb
  have hfirst := (hsound a ha).starts_of_mem hka
  have hsecond := (hsound b hb).starts_of_mem hkb
  rcases List.prefix_or_prefix_of_prefix hfirst hsecond with hab | hba
  · exact h.disjoint_of_starts hsound ha hb hne hab hka hkb
  · exact h.disjoint_of_starts hsound hb ha hne.symm hba hkb hka

theorem nodup_flatMap_names {ds : List TypeDecl} (hsound : ∀ d ∈ ds, d.Sound) :
    (ds.flatMap names).Nodup ↔ Apart ds := by
  rw [List.nodup_flatMap]
  constructor
  · rintro ⟨-, hdisjoint⟩
    have hsymm : Std.Symm (Function.onFun List.Disjoint names) :=
      ⟨fun _ _ h => List.Disjoint.symm h⟩
    refine ⟨List.pairwise_map.2 (hdisjoint.imp ?_), ?_⟩
    · intro a b hab heq
      exact hab List.mem_cons_self (heq ▸ List.mem_cons_self)
    · intro a ha b hb hne _ k hk hkb
      exact hdisjoint.forall ha hb (fun heq => hne (heq ▸ rfl)) (List.mem_cons_of_mem _ hk) hkb
  · intro h
    refine ⟨fun d hd => (hsound d hd).nodup_names, ?_⟩
    exact (List.pairwise_map.1 h.types).imp_of_mem fun ha hb hne => h.disjoint hsound ha hb hne

end TypeDecl

def Table.typeDecls (t : Table) : List TypeDecl :=
  ⟨t.names.camelCase, []⟩ :: (Model.enumTypesOf t.names.camelCase t.columns).map .ofEnum

theorem sound_ofEnum {t : EnumType} (h : ∀ v ∈ t.values, v ≠ "") : (TypeDecl.ofEnum t).Sound where
  nodup := Constant.nodup_names t.name t.values
  longer := by
    intro k hk
    obtain ⟨value, hvalue, more, hname, -⟩ := Constant.toList_of_mem_names hk
    refine ⟨⟨_, (List.append_assoc .. ▸ hname).symm⟩, ?_⟩
    rintro rfl
    -- The values are not empty, and cleaning keeps their lengths.
    have hlength := congrArg List.length hname
    have hpos : value.toList ≠ [] := by simpa using h value hvalue
    have hclean : (Name.clean value.toList).length = value.toList.length := by
      simp [Name.clean]
    have := List.length_pos_of_ne_nil hpos
    simp only [List.length_append, TypeDecl.ofEnum] at hlength
    omega

theorem Table.Sound.typeDecls {t : Table} (ht : t.Sound) : ∀ d ∈ t.typeDecls, d.Sound := by
  intro d hd
  rcases List.mem_cons.1 hd with rfl | hmem
  · exact ⟨List.nodup_nil, fun k hk => absurd hk List.not_mem_nil⟩
  · obtain ⟨e, he, rfl⟩ := List.mem_map.1 hmem
    obtain ⟨c, hc, -, rfl⟩ := Model.exists_of_mem_enumTypes he
    exact sound_ofEnum fun v hv => ((ht.columns c hc).enumValues v hv).notEmpty

namespace Reading

def typeName? (line : Line) : Option String :=
  if "type ".toList <+: line then some (String.ofList (before ' ' (line.drop "type ".length)))
  else none

/-- The names that lines declare, where those in a block of constants stand one on each line. -/
def declaredFrom : Bool → List Line → List String
  | _, [] => []
  | true, l :: ls =>
    if l = [')'] then declaredFrom false ls
    else String.ofList (before ' ' l.tail) :: declaredFrom true ls
  | false, l :: ls =>
    if l = "const (".toList then declaredFrom true ls
    else (typeName? l).toList ++ declaredFrom false ls

def declaredNames (text : String) : List String := declaredFrom false (splitOn '\n' text.toList)

theorem declaredFrom_type {name : String} (hname : ' ' ∉ name.toList) (rest : List Char)
    (ls : List Line) : declaredFrom false (("type ".toList ++ (name.toList ++ ' ' :: rest)) :: ls) =
      name :: declaredFrom false ls := by
  have htype : typeName? ("type ".toList ++ (name.toList ++ ' ' :: rest)) = some name := by
    rw [typeName?, if_pos (List.prefix_append _ _), ← String.length_toList, List.drop_left,
      before_append_cons hname, String.ofList_toList]
  rw [declaredFrom, if_neg (by simp), htype]
  rfl

/-- Lines that start neither as a type does nor as a block of constants declare nothing. -/
theorem declaredFrom_other {skipped : List Line}
    (h : ∀ l ∈ skipped, l.head? ≠ some 't' ∧ l.head? ≠ some 'c') (ls : List Line) :
    declaredFrom false (skipped ++ ls) = declaredFrom false ls := by
  induction skipped with
  | nil => rfl
  | cons l skipped ih =>
    rw [List.forall_mem_cons] at h
    have hconst : l ≠ "const (".toList := by
      rintro rfl
      exact h.1.2 rfl
    have htype : typeName? l = none := by
      rw [typeName?, if_neg]
      rintro ⟨rest, rfl⟩
      exact h.1.1 rfl
    rw [List.cons_append, declaredFrom, if_neg hconst, htype, ih h.2]
    rfl

theorem declaredFrom_constants (nameWidth : Nat) (type : String) {names values : List String}
    (hlength : names.length = values.length) (hnames : ∀ name ∈ names, ' ' ∉ name.toList)
    (ls : List Line) :
    declaredFrom true ((List.zipWith (Model.constantLine nameWidth type) names values).map
      String.toList ++ [')'] :: ls) = names ++ declaredFrom false ls := by
  induction names generalizing values with
  | nil => rfl
  | cons name names ih =>
    obtain ⟨value, values, rfl⟩ := List.exists_cons_of_length_eq_add_one hlength.symm
    rw [List.forall_mem_cons] at hnames
    have hline : (Model.constantLine nameWidth type name value).toList = '\t' :: (name.toList ++
        ' ' :: (List.replicate (nameWidth - name.length) ' ' ++
          (type ++ " = " ++ Constant.literal value).toList)) := by
      rw [← Model.toList_padTo_append]
      simp [Model.constantLine]
    rw [List.zipWith_cons_cons, List.map_cons, List.cons_append, declaredFrom, hline,
      if_neg (by simp), List.tail_cons, before_append_cons hnames.1, String.ofList_toList,
      ih (Nat.succ.inj hlength) hnames.2, List.cons_append]

theorem declaredFrom_enumLines {t : EnumType} (hname : Name.IsSafe t.name) (ls : List Line) :
    declaredFrom false ((Model.enumLines t).map String.toList ++ ls) =
      (TypeDecl.ofEnum t).names ++ declaredFrom false ls := by
  have hblank : ' ' ∉ t.name.toList := hname.notMem (by decide)
  have hconstants := declaredFrom_constants (byteWidth (Constant.names t.name t.values)) t.name
    (Constant.length_names t.name t.values)
    (fun name hn => (Constant.isSafe_of_mem_names hname hn).notMem (by decide)) ls
  have hlines : (Model.enumLines t).map String.toList ++ ls =
      [[]] ++ ("type ".toList ++ (t.name.toList ++ ' ' :: t.parent.toList)) :: ([[]] ++
        "const (".toList :: ((Model.constantLines t).map String.toList ++ [')'] :: ls)) := by
    simp [Model.enumLines]
  rw [hlines, declaredFrom_other (by simp), declaredFrom_type hblank, declaredFrom_other (by simp),
    declaredFrom, if_pos rfl, Model.constantLines, hconstants]
  rfl

theorem declaredFrom_structLines {m : Model} (hname : Name.IsSafe m.name) (ls : List Line) :
    declaredFrom false ((Model.structLines m).map String.toList ++ ls) =
      m.name :: declaredFrom false ls := by
  have hblank : ' ' ∉ m.name.toList := hname.notMem (by decide)
  have hmembers : ∀ l ∈ (Model.memberLines m.fields).map String.toList ++ ["\x7d".toList],
      l.head? ≠ some 't' ∧ l.head? ≠ some 'c' := by
    rw [List.forall_mem_append]
    refine ⟨fun l hl => ?_, by simp⟩
    have htab : l.head? = some '\t' := by
      simpa [isIndented] using isIndented_memberLines m.fields l hl
    simp [htab]
  have hlines : (Model.structLines m).map String.toList ++ ls =
      ("type ".toList ++ (m.name.toList ++ ' ' :: "struct \x7b".toList)) ::
        ((Model.memberLines m.fields).map String.toList ++ ["\x7d".toList] ++ ls) := by
    simp [Model.structLines]
  rw [hlines, declaredFrom_type hblank, declaredFrom_other hmembers]

theorem declaredFrom_flatMap_enumLines {types : List EnumType}
    (h : ∀ t ∈ types, Name.IsSafe t.name) (ls : List Line) :
    declaredFrom false ((types.flatMap Model.enumLines).map String.toList ++ ls) =
      (types.map TypeDecl.ofEnum).flatMap TypeDecl.names ++ declaredFrom false ls := by
  induction types with
  | nil => rfl
  | cons t types ih =>
    rw [List.forall_mem_cons] at h
    rw [List.flatMap_cons, List.map_append, List.append_assoc, declaredFrom_enumLines h.1, ih h.2,
      List.map_cons, List.flatMap_cons, List.append_assoc]

theorem declaredNames_contents {t : Table} (ht : t.Sound) {package : String}
    (hpackage : OneLine package) (pointers : Bool) :
    declaredNames (ModelFile.ofTable t package pointers).contents =
      t.typeDecls.flatMap TypeDecl.names := by
  have htypes : ∀ e ∈ (Model.ofTable t package pointers).enumTypes, Name.IsSafe e.name :=
    Model.isSafe_of_mem_enumTypes ht
  have hlines := splitOn_unlines (Model.oneLine_of_mem_sourceLines ht hpackage pointers)
  have hheader : ∀ l ∈ (Model.headerLines (.ofTable t package pointers)).map String.toList,
      l.head? ≠ some 't' ∧ l.head? ≠ some 'c' := by
    unfold Model.headerLines
    split <;> simp
  have hname : Name.IsSafe (Model.ofTable t package pointers).name := ht.isSafe_camelCase
  have hend : declaredFrom false [[]] = [] := rfl
  calc declaredNames (ModelFile.ofTable t package pointers).contents
      = declaredFrom false
          ((Model.ofTable t package pointers).sourceLines.map String.toList ++ [[]]) :=
        congrArg (declaredFrom false) hlines
    _ = (Model.ofTable t package pointers).name ::
          (((Model.ofTable t package pointers).enumTypes.map TypeDecl.ofEnum).flatMap
            TypeDecl.names ++ []) := by
        rw [Model.sourceLines, List.map_append, List.map_append, List.append_assoc,
          List.append_assoc, declaredFrom_other hheader, declaredFrom_structLines hname,
          declaredFrom_flatMap_enumLines htypes, hend]
    _ = t.typeDecls.flatMap TypeDecl.names := by
        rw [List.append_nil]
        rfl

end Reading

end SchemaModels
