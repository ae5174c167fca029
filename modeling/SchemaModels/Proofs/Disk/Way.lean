import SchemaModels.Glob.Walk
import SchemaModels.Proofs.Disk.Names

namespace SchemaModels

namespace Disk

variable {d d' : Disk} {loc dest : Location}

def moving (cs : List Path.Component) : List Path.Component := cs.filter (· != .here)

def way (p : Path) : List Path.Component := moving (steps p)

theorem walk_moving {cs : List Path.Component} (h : d.walk loc cs = .ok dest) :
    d.walk loc (moving cs) = .ok dest := by
  induction cs generalizing loc with
  | nil => exact h
  | cons c cs ih =>
    obtain ⟨hdir, next, hstep, hrest⟩ := walk_cons_eq_ok.1 h
    cases c with
    | here =>
      cases hstep
      exact ih hrest
    | _ => exact walk_cons_eq_ok.2 ⟨hdir, next, hstep, ih hrest⟩

theorem walk_of_walk_moving {cs : List Path.Component} (h : d.walk loc (moving cs) = .ok dest)
    (hdest : d.isDirAt dest = true) : d.walk loc cs = .ok dest := by
  induction cs generalizing loc with
  | nil => exact h
  | cons c cs ih =>
    have hdir := isDirAt_of_walk h hdest
    cases c with
    | here => exact walk_cons_eq_ok.2 ⟨hdir, loc, rfl, ih h⟩
    | _ =>
      obtain ⟨-, next, hstep, hrest⟩ := walk_cons_eq_ok.1 h
      exact walk_cons_eq_ok.2 ⟨hdir, next, hstep, ih hrest⟩

theorem walk_way {p : Path} (h : d.resolve p = .ok loc) : d.walk (d.origin p) (way p) = .ok loc :=
  walk_moving (resolve_eq_ok.1 h).2.1

/-- The moves of a path end at a directory, whatever its text. -/
def IsDirWay (d : Disk) (p : Path) : Prop :=
  ∃ loc, d.walk (d.origin p) (way p) = .ok loc ∧ d.isDirAt loc = true

theorem isDir_iff_resolve {p : Path} :
    d.isDir p = true ↔ ∃ loc, d.resolve p = .ok loc ∧ d.isDirAt loc = true := by
  rw [isDir, node?]
  cases d.resolve p <;> simp [isDirAt]

theorem KeepsDirs.isDir (h : d.KeepsDirs d') {p : Path} (hp : d.isDir p = true) :
    d'.isDir p = true := by
  obtain ⟨loc, hr, hdir⟩ := isDir_iff_resolve.1 hp
  have hr' := h.resolveDir (resolveDir_eq_ok.2 ⟨hr, hdir⟩)
  exact isDir_iff_resolve.2 ⟨loc, resolveDir_eq_ok.1 hr'⟩

theorem isDir_iff {p : Path} : d.isDir p = true ↔ checkText p = .ok () ∧ d.IsDirWay p := by
  rw [isDir_iff_resolve]
  constructor
  · rintro ⟨loc, hr, hdir⟩
    exact ⟨(resolve_eq_ok.1 hr).1, loc, walk_way hr, hdir⟩
  · rintro ⟨htext, loc, hway, hdir⟩
    exact ⟨loc, resolve_eq_ok.2 ⟨htext, walk_of_walk_moving hway hdir, by simp [hdir]⟩, hdir⟩

theorem read_eq_ok {p : Path} {bytes : Text.Bytes} : d.read p = .ok bytes ↔
    ∃ loc, d.resolve p = .ok loc ∧ d.get? loc = some (.file bytes) := by
  rw [read, bind_eq_ok]
  refine exists_congr fun loc => and_congr_right fun _ => ?_
  cases d.get? loc with
  | none => simp
  | some node => cases node <;> simp

theorem isFile_iff_resolve {p : Path} :
    d.isFile p = true ↔ ∃ loc bytes, d.resolve p = .ok loc ∧ d.get? loc = some (.file bytes) := by
  rw [isFile, node?]
  cases d.resolve p with
  | error e => simp
  | ok loc =>
    cases hget : d.get? loc with
    | none => simp [hget]
    | some node => cases node <;> simp [hget]

theorem moving_componentsFrom (inFront : Bool) (pieces : List Path.Piece) :
    moving (Path.componentsFrom inFront pieces) =
      moving ((pieces.filter (!·.isEmpty)).map Path.componentOf) := by
  induction pieces generalizing inFront with
  | nil => rfl
  | cons piece pieces ih =>
    rw [Path.componentsFrom, List.filter_cons]
    by_cases hempty : piece.isEmpty = true
    · simp [Path.saysNothing, hempty, ih]
    · rw [Bool.not_eq_true] at hempty
      by_cases hhere : piece = ['.']
      · subst hhere
        cases inFront <;> simp [Path.saysNothing, Path.componentOf, moving] <;> exact ih false
      · have hkept : Path.saysNothing inFront piece = false := by
          simp [Path.saysNothing, hempty, hhere]
        rw [hkept, hempty]
        simp only [Bool.false_eq_true, if_false, Bool.not_false, if_true, List.map_cons, moving,
          List.filter_cons]
        split
        · exact congrArg _ (ih false)
        · exact ih false

theorem moving_components (p : Path) :
    moving p.components = if p.isAbsolute then .root :: way p else way p := by
  unfold Path.components
  split
  · change Path.Component.root :: moving _ = _
    rw [moving_componentsFrom]
    rfl
  · exact moving_componentsFrom true p.pieces

theorem root_notMem_componentsFrom (inFront : Bool) (pieces : List Path.Piece) :
    .root ∉ Path.componentsFrom inFront pieces := by
  induction pieces generalizing inFront with
  | nil => simp [Path.componentsFrom]
  | cons piece pieces ih =>
    rw [Path.componentsFrom]
    split
    · exact ih false
    · rw [List.mem_cons, not_or]
      refine ⟨?_, ih false⟩
      unfold Path.componentOf
      split
      · simp
      · split <;> simp

theorem isAbsolute_iff {p : Path} : p.isAbsolute = true ↔ .root ∈ p.components := by
  unfold Path.components
  split
  · simp_all
  · simp_all [root_notMem_componentsFrom]

theorem way_eq_of_components_eq {p q : Path} (h : p.components = q.components) :
    p.isAbsolute = q.isAbsolute ∧ way p = way q := by
  have habsolute : p.isAbsolute = q.isAbsolute := by
    rw [Bool.eq_iff_iff, isAbsolute_iff, isAbsolute_iff, h]
  have hmoving := congrArg moving h
  rw [moving_components, moving_components, habsolute] at hmoving
  refine ⟨habsolute, ?_⟩
  split at hmoving
  · exact (List.cons.inj hmoving).2
  · exact hmoving

/-- Two spellings of one list of components lead to one place. -/
theorem resolve_eq_of_components_eq {p q : Path} {dest' : Location}
    (h : p.components = q.components) (hp : d.resolve p = .ok dest)
    (hq : d.resolve q = .ok dest') : dest = dest' := by
  obtain ⟨habsolute, hway⟩ := way_eq_of_components_eq h
  have hp' := walk_way hp
  rw [hway, origin, habsolute] at hp'
  exact Except.ok.inj (hp'.symm.trans (walk_way hq))

def stepsOf (name : String) : List Path.Component :=
  if name.toList = [] then [] else [Path.componentOf name.toList]

theorem stepsOf_of_isPlainName {name : String} (h : IsPlainName name) :
    stepsOf name = [.name name] := by
  simp [stepsOf, Path.componentOf, h.notEmpty, h.notHere, h.notUp]

theorem moving_stepsOf {name : String} (h : IsPlainName name) :
    moving (stepsOf name) = [.name name] := by
  rw [stepsOf_of_isPlainName h]
  rfl

theorem steps_join (p : Path) {name : String} (h : '/' ∉ name.toList) :
    steps (p.join name) = steps p ++ stepsOf name := by
  obtain ⟨front, hjoin, hp⟩ := Path.pieces_join p h
  have hfront : steps p = (front.filter (!·.isEmpty)).map Path.componentOf := by
    rcases hp with hp | hp <;> simp [steps, hp]
  rw [hfront, steps, hjoin, List.filter_append, List.map_append, stepsOf]
  split
  · rename_i hempty
    simp [hempty]
  · rename_i hne
    simp [hne]

theorem isDirAt_of_walk_concat {cs : List Path.Component} {c : Path.Component}
    (h : d.walk loc (cs ++ [c]) = .ok dest) :
    ∃ mid, d.walk loc cs = .ok mid ∧ d.isDirAt mid = true ∧ d.step mid c = .ok dest := by
  rw [walk_append] at h
  obtain ⟨mid, hmid, h⟩ := bind_eq_ok.1 h
  obtain ⟨hdir, next, hstep, hnext⟩ := walk_cons_eq_ok.1 h
  cases hnext
  exact ⟨mid, hmid, hdir, hstep⟩

theorem text_ne_nil_of_checkText {p : Path} (h : checkText p = .ok ()) : p.text.toList ≠ [] := by
  intro hnil
  have hempty : p.text = "" := String.toList_eq_nil_iff.1 hnil
  simp [checkText, hempty] at h

theorem isDirWay_of_resolve_join {p : Path} {name : String} (h : '/' ∉ name.toList)
    (hr : d.resolve (p.join name) = .ok dest) : d.IsDirWay p := by
  obtain ⟨htext, hwalk, hslash⟩ := resolve_eq_ok.1 hr
  have horigin : d.origin (p.join name) = d.origin p := by
    rw [origin, origin, Path.isAbsolute_join p h]
  rw [horigin, steps_join p h, stepsOf] at hwalk
  split at hwalk
  · -- Without a name the path ends in a slash, for it is not empty.
    rename_i hempty
    rw [List.append_nil] at hwalk
    rcases Path.text_join p h with ⟨-, hjoin⟩ | ⟨front, hjoin, -⟩
    · exact absurd (hjoin.trans hempty) (text_ne_nil_of_checkText htext)
    · have hends : endsInSlash (p.join name) = true := by
        rw [endsInSlash, hjoin, hempty]
        simp
      refine ⟨dest, walk_moving hwalk, ?_⟩
      simpa [hends] using hslash
  · obtain ⟨mid, hmid, hdir, -⟩ := isDirAt_of_walk_concat hwalk
    exact ⟨mid, walk_moving hmid, hdir⟩

end Disk

namespace Glob

open Disk

variable {d : Disk} {path : Path} {name : String}

theorem join_empty (h : '/' ∉ name.toList) : (⟨""⟩ : Path).join name = ⟨name⟩ := by
  have hhead : name.toList.head? ≠ some '/' := fun heq => h (List.mem_of_head? heq)
  simp [Path.join, hhead]

theorem way_of_components_eq_here (h : path.components = [.here]) :
    path.isAbsolute = false ∧ way path = [] := by
  have habsolute : path.isAbsolute = false := by
    rw [Bool.eq_false_iff, Ne, isAbsolute_iff, h]
    simp
  have hmoving := moving_components path
  rw [h, habsolute] at hmoving
  exact ⟨habsolute, hmoving.symm⟩

theorem way_join (path : Path) (h : '/' ∉ name.toList) :
    way (path.join name) = way path ++ moving (stepsOf name) := by
  rw [way, steps_join path h, moving, List.filter_append]
  rfl

theorem way_below (path : Path) (h : '/' ∉ name.toList) :
    (below path name).isAbsolute = path.isAbsolute ∧
      way (below path name) = way path ++ moving (stepsOf name) := by
  unfold below
  split
  · rename_i hhere
    obtain ⟨habsolute, hway⟩ := way_of_components_eq_here hhere
    rw [← join_empty h, habsolute, hway]
    exact ⟨Path.isAbsolute_join ⟨""⟩ h, way_join ⟨""⟩ h⟩
  · exact ⟨Path.isAbsolute_join path h, way_join path h⟩

theorem origin_below (path : Path) (h : '/' ∉ name.toList) :
    d.origin (below path name) = d.origin path := by
  rw [origin, origin, (way_below path h).1]

theorem isDirWay_of_resolve_below {dest : Location} (h : '/' ∉ name.toList)
    (hr : d.resolve (below path name) = .ok dest) : d.IsDirWay path := by
  unfold below at hr
  split at hr
  · rename_i hhere
    obtain ⟨habsolute, hway⟩ := way_of_components_eq_here hhere
    rw [← join_empty h] at hr
    have hfront := isDirWay_of_resolve_join h hr
    rw [IsDirWay, origin, habsolute, hway]
    exact hfront
  · exact isDirWay_of_resolve_join h hr

theorem resolve_below {loc dest : Location} (h : IsPlainName name)
    (hp : d.resolve path = .ok loc) (hr : d.resolve (below path name) = .ok dest) :
    dest = name :: loc := by
  have hwalk := walk_way hr
  rw [origin_below path h.noSlash, (way_below path h.noSlash).2, moving_stepsOf h] at hwalk
  obtain ⟨mid, hmid, -, hstep⟩ := isDirAt_of_walk_concat hwalk
  cases hmid.symm.trans (walk_way hp)
  exact (step_name_eq_ok.1 hstep).2.2

theorem fileName?_below (path : Path) (h : IsPlainName name) :
    (below path name).fileName? = some name := by
  have hjoin (p : Path) : (p.join name).fileName? = some name := by
    simp [Path.fileName?, Path.components_join p h]
  unfold below
  split
  · rw [← join_empty h.noSlash]
    exact hjoin ⟨""⟩
  · exact hjoin path

end Glob

end SchemaModels
