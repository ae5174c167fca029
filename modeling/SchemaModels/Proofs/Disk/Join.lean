import SchemaModels.Proofs.Disk.Place
import SchemaModels.Proofs.Text.Lines

namespace SchemaModels

/-- A name that says one step down. -/
structure IsPlainName (name : String) : Prop where
  noSlash : '/' ∉ name.toList
  notEmpty : name.toList ≠ []
  notHere : name.toList ≠ ['.']
  notUp : name.toList ≠ ['.', '.']

namespace Path

theorem text_join (dir : Path) {name : String} (h : '/' ∉ name.toList) :
    dir.text.toList = [] ∧ (dir.join name).text.toList = name.toList ∨
      ∃ front, (dir.join name).text.toList = front ++ '/' :: name.toList ∧
        (dir.text.toList = front ++ ['/'] ∨ dir.text.toList = front ∧ front ≠ []) := by
  have hhead : name.toList.head? ≠ some '/' := fun heq => h (List.mem_of_head? heq)
  unfold join
  rw [if_neg hhead]
  cases hdir : dir.text.toList.getLast? with
  | none =>
    have hnil := List.getLast?_eq_none_iff.1 hdir
    exact Or.inl ⟨hnil, by simp [hnil]⟩
  | some c =>
    obtain ⟨front, hfront⟩ := List.getLast?_eq_some_iff.1 hdir
    refine Or.inr ?_
    by_cases hc : c = '/'
    · subst hc
      exact ⟨front, by simp [hfront], Or.inl hfront⟩
    · exact ⟨dir.text.toList, by simp [hc], Or.inr ⟨rfl, by simp [hfront]⟩⟩

theorem isAbsolute_join (dir : Path) {name : String} (h : '/' ∉ name.toList) :
    (dir.join name).isAbsolute = dir.isAbsolute := by
  have hhead : name.toList.head? ≠ some '/' := fun heq => h (List.mem_of_head? heq)
  unfold isAbsolute
  rcases text_join dir h with ⟨hnil, htext⟩ | ⟨front, htext, hdir⟩
  · rw [htext, hnil, List.head?_nil]
    simpa using hhead
  · rw [htext]
    cases front with
    | nil => rcases hdir with hdir | ⟨-, hne⟩ <;> simp_all
    | cons c front => rcases hdir with hdir | ⟨hdir, -⟩ <;> simp [hdir]

/-- A slash at the end of the directory leaves an empty piece, whose place the name takes. -/
theorem pieces_join (dir : Path) {name : String} (h : '/' ∉ name.toList) :
    ∃ front, (dir.join name).pieces = front ++ [name.toList] ∧
      (dir.pieces = front ∨ dir.pieces = front ++ [[]]) := by
  have hone : Text.splitOn '/' name.toList = [name.toList] := Text.splitOn_of_notMem h
  have cut (above text : List Char) (htext : text = above ++ ['/'] ∨ text = above) :
      ∃ front, Text.splitOn '/' (above ++ '/' :: name.toList) = front ++ [name.toList] ∧
        (Text.splitOn '/' text = front ∨ Text.splitOn '/' text = front ++ [[]]) := by
    refine ⟨Text.splitOn '/' above, by rw [Text.splitOn_append_cons, hone], ?_⟩
    rcases htext with rfl | rfl
    · exact Or.inr (Text.splitOn_append_cons '/' above [])
    · exact Or.inl rfl
  unfold pieces
  rw [isAbsolute_join dir h]
  rcases text_join dir h with ⟨hnil, htext⟩ | ⟨front, htext, hdir⟩
  · have hrelative : dir.isAbsolute = false := by simp [isAbsolute, hnil]
    simp only [htext, hnil, hrelative, Bool.false_eq_true, if_false]
    exact ⟨[], hone, Or.inr rfl⟩
  · rw [htext]
    split
    · -- The slash of the root does not cut, so that it has to be told from the last one.
      cases front with
      | nil =>
        rcases hdir with hdir | ⟨-, hne⟩
        · exact ⟨[], hone, Or.inr (by rw [hdir]; rfl)⟩
        · exact absurd rfl hne
      | cons c front =>
        refine cut front dir.text.toList.tail ?_
        rcases hdir with hdir | ⟨hdir, -⟩ <;> simp [hdir]
    · exact cut front dir.text.toList (hdir.imp_right And.left)

theorem componentsFrom_concat {inFront : Bool} {pieces : List Piece} {name : String}
    (h : IsPlainName name) : componentsFrom inFront (pieces ++ [name.toList]) =
      componentsFrom inFront pieces ++ [.name name] := by
  induction pieces generalizing inFront with
  | nil => simp [componentsFrom, saysNothing, componentOf, h.notEmpty, h.notHere, h.notUp]
  | cons piece pieces ih =>
    rw [List.cons_append, componentsFrom, componentsFrom]
    split
    · exact ih
    · rw [ih, List.cons_append]

theorem componentsFrom_concat_nil (inFront : Bool) (pieces : List Piece) :
    componentsFrom inFront (pieces ++ [[]]) = componentsFrom inFront pieces := by
  induction pieces generalizing inFront with
  | nil => rfl
  | cons piece pieces ih => simp only [List.cons_append, componentsFrom, ih]

theorem components_join (dir : Path) {name : String} (h : IsPlainName name) :
    (dir.join name).components = dir.components ++ [.name name] := by
  obtain ⟨front, hpieces, hdir⟩ := pieces_join dir h.noSlash
  have hfrom (inFront : Bool) : componentsFrom inFront (dir.join name).pieces =
      componentsFrom inFront dir.pieces ++ [.name name] := by
    rw [hpieces, componentsFrom_concat h]
    rcases hdir with hdir | hdir
    · rw [hdir]
    · rw [hdir, componentsFrom_concat_nil]
  unfold components
  rw [isAbsolute_join dir h.noSlash, hfrom, hfrom]
  split <;> simp

end Path

namespace Disk

theorem getLast?_steps_join {dir : Path} {name : String} (h : IsPlainName name) :
    (steps (dir.join name)).getLast? = some (.name name) := by
  obtain ⟨front, hpieces, -⟩ := Path.pieces_join dir h.noSlash
  rw [steps, hpieces, List.filter_append]
  simp [h.notEmpty, Path.componentOf, h.notHere, h.notUp]

theorem place?_join {d : Disk} {dir : Path} {name : String} {loc : Location} (h : IsPlainName name)
    (hp : d.place? (dir.join name) = some loc) : ∃ above, loc = name :: above := by
  obtain ⟨above, n, rfl, hl, -, -⟩ := place?_eq_some.1 hp
  have hlast := (lastStep_eq_ok.1 hl).2.2.2
  rw [getLast?_steps_join h, Option.getD_some, Path.Component.name.injEq] at hlast
  exact ⟨above, by rw [hlast]⟩

end Disk

end SchemaModels
