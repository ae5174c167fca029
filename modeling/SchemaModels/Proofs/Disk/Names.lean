import Mathlib.Data.List.Nodup
import SchemaModels.Proofs.Disk.Change
import SchemaModels.Proofs.Disk.Join
import SchemaModels.Proofs.Text.Parts

namespace SchemaModels.Disk

variable {d : Disk} {loc : Location} {name : String}

/-- Nothing lies twice at one place, and every name says one step down. -/
structure WellNamed (d : Disk) : Prop where
  nodup : (d.entries.map Prod.fst).Nodup
  plain : ∀ name dir, name :: dir ∈ d.entries.map Prod.fst → IsPlainName name

instance (name : String) : Decidable (IsPlainName name) :=
  decidable_of_iff ('/' ∉ name.toList ∧ name.toList ≠ [] ∧ name.toList ≠ ['.'] ∧
    name.toList ≠ ['.', '.']) ⟨fun ⟨h₁, h₂, h₃, h₄⟩ => ⟨h₁, h₂, h₃, h₄⟩,
      fun ⟨h₁, h₂, h₃, h₄⟩ => ⟨h₁, h₂, h₃, h₄⟩⟩

instance (d : Disk) : Decidable d.WellNamed :=
  decidable_of_iff ((d.entries.map Prod.fst).Nodup ∧
    ∀ loc ∈ d.entries.map Prod.fst, ∀ name ∈ loc.head?, IsPlainName name)
    ⟨fun ⟨hnodup, hplain⟩ => ⟨hnodup, fun name dir hmem => hplain (name :: dir) hmem name rfl⟩,
      fun ⟨hnodup, hplain⟩ => ⟨hnodup, fun loc hmem name hname => by
        obtain ⟨dir, rfl⟩ := List.head?_eq_some_iff.1 hname
        exact hplain name dir hmem⟩⟩

def nameBelow? (loc : Location) : Location → Option String
  | [] => none
  | name :: dir => if dir = loc then some name else none

theorem nameBelow?_eq_some {place : Location} :
    nameBelow? loc place = some name ↔ place = name :: loc := by
  cases place with
  | nil => simp [nameBelow?]
  | cons n dir =>
    rw [nameBelow?]
    split <;> simp_all

theorem children_eq (d : Disk) (loc : Location) :
    d.children loc = (d.entries.map Prod.fst).filterMap (nameBelow? loc) := by
  rw [children, List.filterMap_map]
  rfl

theorem mem_children : name ∈ d.children loc ↔ name :: loc ∈ d.entries.map Prod.fst := by
  simp [children_eq, nameBelow?_eq_some]

theorem isSome_get?_cons :
    (d.get? (name :: loc)).isSome = true ↔ name :: loc ∈ d.entries.map Prod.fst := by
  rw [get?, List.isEmpty_cons, if_neg Bool.false_ne_true, ← not_iff_not,
    Option.not_isSome_iff_eq_none, List.lookup_eq_none_iff]
  simp only [bne_iff_ne, List.mem_map, not_exists, not_and]
  exact forall₂_congr fun _ _ => ne_comm

theorem mem_children_iff : name ∈ d.children loc ↔ (d.get? (name :: loc)).isSome = true :=
  mem_children.trans isSome_get?_cons.symm

theorem WellNamed.nodup_children (h : d.WellNamed) (loc : Location) : (d.children loc).Nodup := by
  rw [children_eq]
  refine h.nodup.filterMap ?_
  intro place place' name hname hname'
  rw [Option.mem_def, nameBelow?_eq_some] at hname hname'
  rw [hname, hname']

theorem WellNamed.isPlainName (h : d.WellNamed) (hname : name ∈ d.children loc) :
    IsPlainName name :=
  h.plain name loc (mem_children.1 hname)

/-- A well named disk on which all that is there lies in a directory. -/
structure IsTree (d : Disk) : Prop extends WellNamed d where
  closed : ∀ name dir, name :: dir ∈ d.entries.map Prod.fst → d.isDirAt dir = true

instance (d : Disk) : Decidable d.IsTree :=
  decidable_of_iff (d.WellNamed ∧
    ∀ loc ∈ d.entries.map Prod.fst, loc = [] ∨ d.isDirAt loc.tail = true)
    ⟨fun ⟨hnamed, hclosed⟩ => ⟨hnamed, fun name dir hmem => by simpa using hclosed _ hmem⟩,
      fun ⟨hnamed, hclosed⟩ => ⟨hnamed, fun loc hmem => by
        cases loc with
        | nil => exact .inl rfl
        | cons name dir => exact .inr (hclosed name dir hmem)⟩⟩

theorem IsTree.isDirAt_of_isSome (h : d.IsTree) (hthere : (d.get? (name :: loc)).isSome = true) :
    d.isDirAt loc = true :=
  h.closed name loc (isSome_get?_cons.1 hthere)

theorem IsTree.isDirAt_tail (h : d.IsTree) (hdir : d.isDirAt loc = true) :
    d.isDirAt loc.tail = true := by
  cases loc with
  | nil => exact hdir
  | cons name above =>
    have hthere : (d.get? (name :: above)).isSome = true := by simp [isDirAt_iff.1 hdir]
    exact h.isDirAt_of_isSome hthere

theorem WellNamed.of_entries {d' : Disk} (h : d.WellNamed) (heq : d'.entries = d.entries) :
    d'.WellNamed := by
  obtain ⟨hnodup, hplain⟩ := h
  exact ⟨heq ▸ hnodup, heq ▸ hplain⟩

theorem WellNamed.erase (h : d.WellNamed) (loc : Location) : (d.erase loc).WellNamed := by
  have hsub : ((d.erase loc).entries.map Prod.fst).Sublist (d.entries.map Prod.fst) :=
    List.filter_sublist.map Prod.fst
  exact ⟨h.nodup.sublist hsub, fun name dir hmem => h.plain name dir (hsub.subset hmem)⟩

theorem WellNamed.set (h : d.WellNamed) (hname : IsPlainName name) (node : Node) :
    (d.set (name :: loc) node).WellNamed := by
  have herase := h.erase (name :: loc)
  constructor
  · refine List.nodup_cons.2 ⟨?_, herase.nodup⟩
    intro hmem
    simpa [get?_erase_self] using isSome_get?_cons.2 hmem
  · intro other dir hmem
    rcases List.mem_cons.1 hmem with heq | hmem
    · cases heq
      exact hname
    · exact herase.plain other dir hmem

theorem WellNamed.eraseFile (h : d.WellNamed) (loc : Location) : (d.eraseFile loc).WellNamed := by
  unfold Disk.eraseFile
  split
  · exact h.erase loc
  · exact h

theorem WellNamed.unlink (h : d.WellNamed) (p : Path) : (d.unlink p).WellNamed := by
  unfold Disk.unlink
  split
  · exact h.eraseFile _
  · exact h

theorem isPlainName_of_mem_steps {p : Path} (h : .name name ∈ steps p) : IsPlainName name := by
  obtain ⟨piece, hpiece, heq⟩ := List.mem_map.1 h
  obtain ⟨hpiece, hne⟩ := List.mem_filter.1 hpiece
  have hslash := Text.notMem_of_mem_splitOn hpiece
  unfold Path.componentOf at heq
  split at heq
  · cases heq
  · rename_i hhere
    split at heq
    · cases heq
    · rename_i hup
      cases heq
      rw [← String.toList_ofList (l := piece)] at hslash hhere hup
      refine ⟨hslash, ?_, hhere, hup⟩
      simpa using hne

theorem isPlainName_of_lastStep {p : Path} (h : d.lastStep p = .ok (loc, .name name)) :
    IsPlainName name := by
  obtain ⟨-, -, -, hlast⟩ := lastStep_eq_ok.1 h
  cases hget : (steps p).getLast? with
  | none => simp [hget] at hlast
  | some c =>
    rw [hget, Option.getD_some] at hlast
    exact isPlainName_of_mem_steps (hlast ▸ List.mem_of_getLast? hget)

theorem WellNamed.makeDir {p : Path} {made : Disk} (h : d.WellNamed) (hm : d.makeDir p = .ok made) :
    made.WellNamed := by
  obtain ⟨dir, n, hlast, -, -, rfl⟩ := makeDir_eq_ok hm
  exact h.set (isPlainName_of_lastStep hlast) .dir

theorem WellNamed.makeDirs (h : d.WellNamed) (ps : List Path) : (d.makeDirs ps).1.WellNamed := by
  have hchain := makes_makeDirs d ps
  generalize (d.makeDirs ps).1 = made at hchain ⊢
  induction hchain with
  | refl => exact h
  | tail _ hmakes ih =>
    obtain ⟨p, -, hmade⟩ := hmakes
    exact ih.makeDir hmade

theorem WellNamed.rename {dir target : Path} {moved : Disk} (h : d.WellNamed)
    (hr : d.rename dir name target = .ok moved) : moved.WellNamed := by
  obtain ⟨source, dest, node, -, hdest, -, -, rfl⟩ := rename_eq_ok.1 hr
  obtain ⟨above, n, rfl, hlast, -, -⟩ := place?_eq_some.1 hdest
  exact (h.erase _).set (isPlainName_of_lastStep hlast) node

end SchemaModels.Disk
