import SchemaModels.Discovery
import SchemaModels.Proofs.Glob.Descent

namespace SchemaModels

theorem IsPlainName.ne_empty {name : String} (h : IsPlainName name) : name ≠ "" := by
  rintro rfl
  exact h.notEmpty rfl

namespace Discovery

open Disk Glob

variable {d : Disk} {dir path : Path} {name : String} {names : List String} {loc : Location}
  {text : List Char}

def pieceNames (p : Path) : List String := p.pieces.map String.ofList

/-- The path of an entry of a directory. Dots in front and slashes too many are left out. -/
def entryPath (dir : Path) (name : String) : Path :=
  ⟨"/".intercalate ((behindDots (pieceNames dir)).filter (!·.isEmpty) ++ [name])⟩

/-- A slash too many follows the dots that a path starts with, as in `./` and `.//m`. -/
def HasGap (dir : Path) : Prop := (behindDots (pieceNames dir)).head? = some ""

/-- A file lies directly in the directory that the steps of a path lead to. -/
def HoldsFile (d : Disk) (dir : Path) (name : String) : Prop :=
  ∃ loc bytes, d.walk (d.origin dir) (steps dir) = .ok loc ∧
    d.get? (name :: loc) = some (.file bytes)

/-- A path, and the name at its end, that are not too long to be followed. -/
def InLimits (path : Path) (name : String) : Prop :=
  checkText path = .ok () ∧ name.utf8ByteSize ≤ nameLimit

theorem noSlash_of_mem_pieceNames (p : Path) : ∀ n ∈ pieceNames p, '/' ∉ n.toList := by
  intro n hn
  obtain ⟨piece, hpiece, rfl⟩ := List.mem_map.1 hn
  rw [String.toList_ofList]
  exact Text.notMem_of_mem_splitOn hpiece

theorem intercalate_cons_eq (piece : List Char) (pieces : List (List Char)) :
    ['/'].intercalate (piece :: pieces) = piece ++ pieces.flatMap ('/' :: ·) := by
  induction pieces generalizing piece with
  | nil => simp [List.intercalate]
  | cons next pieces ih =>
    rw [List.intercalate_cons_cons, ih]
    simp

theorem getLast?_ne_slash (hslash : '/' ∉ name.toList) (hne : name ≠ "") (front : List Char) :
    (front ++ '/' :: name.toList).getLast? ≠ some '/' := by
  have hname : name.toList ≠ [] := fun heq => hne (String.toList_eq_nil_iff.1 heq)
  rw [List.append_cons, List.getLast?_append_of_ne_nil _ hname]
  exact fun heq => hslash (List.mem_of_getLast? heq)

theorem text_join_eq (hne : text ≠ []) (hlast : text.getLast? ≠ some '/')
    (hpath : path.text.toList = text ∨ path.text.toList = text ++ ['/'])
    (hslash : '/' ∉ name.toList) :
    (path.join name).text.toList = text ++ '/' :: name.toList := by
  have hhead : name.toList.head? ≠ some '/' := fun heq => hslash (List.mem_of_head? heq)
  unfold Path.join
  rw [if_neg hhead]
  rcases hpath with hpath | hpath
  · have hends : ¬ text.getLast?.all (· == '/') = true := by
      rw [List.getLast?_eq_some_getLast hne] at hlast ⊢
      simpa using hlast
    rw [hpath, if_neg hends]
    simp [hpath]
  · rw [hpath]
    simp [hpath]

/-- Of the names that are joined to a path, the empty ones do not show. -/
theorem text_foldl_join (hne : text ≠ []) (hlast : text.getLast? ≠ some '/')
    (hpath : path.text.toList = text ∨ path.text.toList = text ++ ['/'])
    (hnames : ∀ n ∈ names, '/' ∉ n.toList) (hslash : '/' ∉ name.toList) :
    ((names.foldl Path.join path).join name).text.toList =
      text ++ (names.filter (!·.isEmpty) ++ [name]).flatMap fun n => '/' :: n.toList := by
  induction names generalizing path text with
  | nil => simpa using text_join_eq hne hlast hpath hslash
  | cons n names ih =>
    rw [List.forall_mem_cons] at hnames
    have hjoin := text_join_eq hne hlast hpath hnames.1
    rw [List.foldl_cons]
    by_cases hempty : n = ""
    · -- An empty name leaves a slash at the end, which the next name finds there.
      subst hempty
      rw [ih hne hlast (.inr hjoin) hnames.2]
      rfl
    · rw [ih (by simp) (getLast?_ne_slash hnames.1 hempty text) (.inl hjoin) hnames.2]
      simp [hempty]

theorem below_foldl_pieceNames (hgap : ¬ HasGap dir) (hslash : '/' ∉ name.toList) :
    below ((pieceNames dir).foldl below ⟨"."⟩) name = entryPath dir name := by
  have hnames : ∀ n ∈ behindDots (pieceNames dir), '/' ∉ n.toList := fun n hn =>
    noSlash_of_mem_pieceNames dir n ((List.dropWhile_sublist _).subset hn)
  rw [foldl_behindDots, entryPath]
  cases hbehind : behindDots (pieceNames dir) with
  | nil => rfl
  | cons n names =>
    rw [HasGap, hbehind, List.head?_cons] at hgap
    rw [hbehind, List.forall_mem_cons] at hnames
    have hempty : n ≠ "" := fun heq => hgap (congrArg some heq)
    have hmoves : Moves ⟨n⟩ := moves_of_name hnames.1 hempty (ne_here_of_behindDots hbehind)
    have hall : ∀ m ∈ names ++ [name], '/' ∉ m.toList :=
      List.forall_mem_append.2 ⟨hnames.2, by simpa using hslash⟩
    have hjoins := hmoves.foldl_below hall
    rw [List.foldl_append, List.foldl_append] at hjoins
    have hn : n.toList ≠ [] := fun heq => hempty (String.toList_eq_nil_iff.1 heq)
    have hlast : n.toList.getLast? ≠ some '/' := fun heq => hnames.1 (List.mem_of_getLast? heq)
    have hself : (⟨n⟩ : Path).text.toList = n.toList := rfl
    have htext := text_foldl_join hn hlast (.inl hself) hnames.2 hslash
    refine hjoins.trans (congrArg Path.mk (String.toList_injective ?_))
    rw [String.toList_intercalate, List.filter_cons_of_pos (by simpa using hempty),
      List.cons_append, List.map_cons]
    refine htext.trans ?_
    rw [show "/".toList = ['/'] from rfl, intercalate_cons_eq, List.flatMap_map]

theorem steps_eq_flatMap (p : Path) : steps p = (pieceNames p).flatMap stepsOf := by
  rw [steps, pieceNames, List.flatMap_map]
  induction p.pieces with
  | nil => rfl
  | cons piece pieces ih =>
    rw [List.flatMap_cons, ← ih]
    by_cases hempty : piece = [] <;> simp [stepsOf, hempty]

theorem way_foldl (hnames : ∀ n ∈ names, '/' ∉ n.toList) (path : Path) :
    (names.foldl below path).isAbsolute = path.isAbsolute ∧
      way (names.foldl below path) = way path ++ moving (names.flatMap stepsOf) := by
  induction names generalizing path with
  | nil => simp [moving]
  | cons n names ih =>
    rw [List.forall_mem_cons] at hnames
    obtain ⟨habsolute, hway⟩ := way_below path hnames.1
    obtain ⟨habsolute', hway'⟩ := ih hnames.2 (below path n)
    refine ⟨habsolute'.trans habsolute, ?_⟩
    rw [List.foldl_cons, hway', hway, List.flatMap_cons, moving, moving, moving,
      List.filter_append, List.append_assoc]

theorem way_foldl_pieceNames (hrelative : dir.isAbsolute = false) :
    d.origin ((pieceNames dir).foldl below ⟨"."⟩) = d.origin dir ∧
      way ((pieceNames dir).foldl below ⟨"."⟩) = way dir := by
  obtain ⟨habsolute, hway⟩ := way_foldl (noSlash_of_mem_pieceNames dir) ⟨"."⟩
  refine ⟨?_, ?_⟩
  · rw [origin, origin, habsolute, hrelative]
    rfl
  · rw [hway, ← steps_eq_flatMap]
    rfl

theorem steps_below (path : Path) (h : IsPlainName name) :
    ∃ cs, steps (below path name) = cs ++ [.name name] ∧ moving cs = way path := by
  unfold below
  split
  · rename_i hhere
    refine ⟨[], ?_, (way_of_components_eq_here hhere).2.symm⟩
    rw [← join_empty h.noSlash, steps_join ⟨""⟩ h.noSlash, stepsOf_of_isPlainName h]
    rfl
  · exact ⟨steps path, by rw [steps_join path h.noSlash, stepsOf_of_isPlainName h], rfl⟩

theorem endsInSlash_below (path : Path) (h : IsPlainName name) :
    endsInSlash (below path name) = false := by
  have hname : name.toList.getLast? ≠ some '/' := fun heq => h.noSlash (List.mem_of_getLast? heq)
  rw [endsInSlash, beq_eq_false_iff_ne]
  unfold below
  split
  · exact hname
  · rcases Path.text_join path h.noSlash with ⟨-, htext⟩ | ⟨front, htext, -⟩
    · rwa [htext]
    · rw [htext]
      exact getLast?_ne_slash h.noSlash h.ne_empty front

theorem resolve_below_of_get? (h : IsPlainName name) (hlimits : InLimits (below path name) name)
    (hwalk : d.walk (d.origin path) (way path) = .ok loc) (hdir : d.isDirAt loc = true)
    (hthere : (d.get? (name :: loc)).isSome = true) :
    d.resolve (below path name) = .ok (name :: loc) := by
  obtain ⟨cs, hsteps, hmoving⟩ := steps_below path h
  refine resolve_eq_ok.2 ⟨hlimits.1, ?_, ?_⟩
  · rw [hsteps, walk_append, origin_below path h.noSlash,
      walk_of_walk_moving (hmoving.symm ▸ hwalk) hdir]
    change d.walk loc [.name name] = _
    rw [walk, if_pos hdir, step_name_eq_ok.2 ⟨hlimits.2, hthere, rfl⟩]
    rfl
  · rw [endsInSlash_below path h]
    simp

theorem isFile_entryPath_iff (hd : d.IsTree) (hrelative : dir.isAbsolute = false)
    (hgap : ¬ HasGap dir) (hname : IsPlainName name) :
    d.isFile (entryPath dir name) = true ↔
      HoldsFile d dir name ∧ InLimits (entryPath dir name) name := by
  obtain ⟨horigin, hway⟩ := way_foldl_pieceNames (d := d) hrelative
  rw [← below_foldl_pieceNames hgap hname.noSlash]
  constructor
  · intro hfile
    obtain ⟨place, bytes, hr, hbytes⟩ := isFile_iff_resolve.1 hfile
    have hwalk := walk_way hr
    rw [origin_below _ hname.noSlash, (way_below _ hname.noSlash).2, moving_stepsOf hname, hway,
      horigin] at hwalk
    obtain ⟨loc, hloc, hdir, hstep⟩ := isDirAt_of_walk_concat hwalk
    obtain ⟨hshort, -, rfl⟩ := step_name_eq_ok.1 hstep
    exact ⟨⟨loc, bytes, walk_of_walk_moving hloc hdir, hbytes⟩, (resolve_eq_ok.1 hr).1, hshort⟩
  · rintro ⟨⟨loc, bytes, hloc, hbytes⟩, hlimits⟩
    have hthere : (d.get? (name :: loc)).isSome = true := by simp [hbytes]
    have hwalk := walk_moving hloc
    rw [← way, ← hway, ← horigin] at hwalk
    have hr := resolve_below_of_get? hname hlimits hwalk (hd.isDirAt_of_isSome hthere) hthere
    exact isFile_iff_resolve.2 ⟨name :: loc, bytes, hr, hbytes⟩

end Discovery

end SchemaModels
