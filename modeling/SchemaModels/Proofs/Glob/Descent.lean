import SchemaModels.Proofs.Glob.Escaped
import SchemaModels.Proofs.Glob.Growth

namespace SchemaModels

namespace Disk

variable {d : Disk} {path next : Path} {name : String}

theorem checkText_eq_ok : checkText path = .ok () ↔
    '\x00' ∉ path.text.toList ∧ path.text ≠ "" ∧ path.text.utf8ByteSize < pathLimit := by
  unfold checkText
  split
  · simp_all
  · split
    · simp_all
    · split <;> simp_all

theorem checkText_of_front {p q : Path} (hne : p.text ≠ "")
    (hstarts : p.text.toList <+: q.text.toList) (hq : checkText q = .ok ()) :
    checkText p = .ok () := by
  obtain ⟨rest, hrest⟩ := hstarts
  have htext : q.text = p.text ++ String.ofList rest := by
    rw [← String.toList_inj, String.toList_append, String.toList_ofList, hrest]
  rw [checkText_eq_ok, htext, String.toList_append, String.utf8ByteSize_append,
    List.mem_append, not_or] at hq
  exact checkText_eq_ok.2 ⟨hq.1.1, hne, Nat.lt_of_le_of_lt (Nat.le_add_right _ _) hq.2.2⟩

theorem front_text_join (path : Path) (hslash : '/' ∉ name.toList) :
    path.text.toList <+: (path.join name).text.toList := by
  rcases Path.text_join path hslash with ⟨hnil, -⟩ | ⟨front, htext, hpath⟩
  · rw [hnil]
    exact List.nil_prefix
  · rw [htext]
    rcases hpath with hpath | ⟨hpath, -⟩
    · rw [hpath]
      exact ⟨name.toList, by simp⟩
    · exact ⟨'/' :: name.toList, by rw [hpath]⟩

/-- The moves of a path end at a directory or at a file, and not at both. -/
theorem isFile_of_isDirWay (h : d.IsDirWay path) : d.isFile path = false := by
  rw [← Bool.not_eq_true]
  intro hfile
  obtain ⟨loc, bytes, hr, hbytes⟩ := isFile_iff_resolve.1 hfile
  obtain ⟨loc', hway, hdir⟩ := h
  cases (walk_way hr).symm.trans hway
  rw [isDirAt_iff, hbytes] at hdir
  cases hdir

theorem IsTree.isDirWay_of_isDotName (h : d.IsTree) (hpath : d.IsDirWay path)
    (habsolute : next.isAbsolute = path.isAbsolute)
    (hway : way next = way path ++ moving (stepsOf name)) (hname : name = "." ∨ name = "..") :
    d.IsDirWay next := by
  obtain ⟨loc, hwalk, hdir⟩ := hpath
  have horigin : d.origin next = d.origin path := by rw [origin, origin, habsolute]
  rcases hname with rfl | rfl
  · refine ⟨loc, ?_, hdir⟩
    rw [horigin, hway, show moving (stepsOf ".") = [] from rfl, List.append_nil, hwalk]
  · refine ⟨loc.tail, ?_, h.isDirAt_tail hdir⟩
    rw [horigin, hway, show moving (stepsOf "..") = [.up] from rfl, walk_append, hwalk]
    change d.walk loc [.up] = _
    rw [walk, if_pos hdir]
    rfl

end Disk

namespace Glob

open Disk

variable {d : Disk} {w : Bool} {path next dest : Path} {p : Pattern} {ps rest left : List Pattern}
  {name : String} {names : List String} {s : Step} {t : List Step}

/-- A path with a step that is not a dot. -/
structure Moves (path : Path) : Prop where
  hasText : path.text ≠ ""
  hasWay : way path ≠ []

theorem moves_of_name (hslash : '/' ∉ name.toList) (hempty : name ≠ "") (hhere : name ≠ ".") :
    Moves ⟨name⟩ := by
  have hne : name.toList ≠ [] := fun heq => hempty (String.toList_eq_nil_iff.1 heq)
  have hdot : name.toList ≠ ['.'] := fun heq => hhere (String.toList_injective heq)
  refine ⟨hempty, ?_⟩
  rw [← join_empty hslash, way_join ⟨""⟩ hslash, stepsOf, if_neg hne, Path.componentOf, if_neg hdot]
  split <;> simp [moving]

theorem Moves.below_eq_join (h : Moves path) (name : String) : below path name = path.join name :=
  if_neg fun hhere => h.hasWay (way_of_components_eq_here hhere).2

theorem Moves.join (h : Moves path) (hslash : '/' ∉ name.toList) : Moves (path.join name) := by
  refine ⟨?_, ?_⟩
  · intro hempty
    have hfront := front_text_join path hslash
    rw [hempty] at hfront
    exact h.hasText (String.toList_eq_nil_iff.1 (List.prefix_nil.1 hfront))
  · rw [way_join path hslash]
    exact List.append_ne_nil_of_left_ne_nil h.hasWay _

/-- A path that a descent reaches: the one where it starts, or one that moves. -/
def Stands (path : Path) : Prop := path = ⟨"."⟩ ∨ Moves path

theorem Stands.checkText (h : Stands path) (hslash : '/' ∉ name.toList)
    (hbelow : checkText (below path name) = .ok ()) : checkText path = .ok () := by
  rcases h with rfl | h
  · rfl
  · rw [h.below_eq_join] at hbelow
    exact checkText_of_front h.hasText (front_text_join path hslash) hbelow

theorem Stands.isDir (h : Stands path) (hslash : '/' ∉ name.toList) {loc : Location}
    (hr : d.resolve (below path name) = .ok loc) : d.isDir path = true :=
  isDir_iff.2 ⟨h.checkText hslash (resolve_eq_ok.1 hr).1, isDirWay_of_resolve_below hslash hr⟩

/-- Names that a path can be gone down by: it stands wherever they lead. -/
def GoesDown : Path → List String → Prop
  | path, [] => Stands path
  | path, name :: names => Stands path ∧ '/' ∉ name.toList ∧ GoesDown (below path name) names

theorem GoesDown.stands (h : GoesDown path names) : Stands (names.foldl below path) := by
  induction names generalizing path with
  | nil => exact h
  | cons n names ih => exact ih h.2.2

theorem GoesDown.isDir (h : GoesDown path names)
    (hdir : d.isDir (names.foldl below path) = true) : d.isDir path = true := by
  induction names generalizing path with
  | nil => exact hdir
  | cons n names ih =>
    obtain ⟨hpath, hslash, hrest⟩ := h
    obtain ⟨loc, hr, -⟩ := isDir_iff_resolve.1 (ih hrest hdir)
    exact hpath.isDir hslash hr

theorem Moves.goesDown (h : Moves path) (hnames : ∀ n ∈ names, '/' ∉ n.toList) :
    GoesDown path names := by
  induction names generalizing path with
  | nil => exact .inr h
  | cons n names ih =>
    rw [List.forall_mem_cons] at hnames
    refine ⟨.inr h, hnames.1, ?_⟩
    rw [h.below_eq_join]
    exact ih (h.join hnames.1) hnames.2

theorem Moves.foldl_below (h : Moves path) (hnames : ∀ n ∈ names, '/' ∉ n.toList) :
    names.foldl below path = names.foldl Path.join path := by
  induction names generalizing path with
  | nil => rfl
  | cons n names ih =>
    rw [List.forall_mem_cons] at hnames
    rw [List.foldl_cons, List.foldl_cons, h.below_eq_join, ih (h.join hnames.1) hnames.2]

def behindDots (names : List String) : List String := names.dropWhile (· == ".")

theorem behindDots_here (names : List String) : behindDots ("." :: names) = behindDots names := rfl

theorem behindDots_of_ne (hname : name ≠ ".") (names : List String) :
    behindDots (name :: names) = name :: names :=
  List.dropWhile_cons_of_neg (by simpa using hname)

theorem ne_here_of_behindDots {rest : List String} (h : behindDots names = name :: rest) :
    name ≠ "." := by
  have hfirst := List.head?_dropWhile_not (· == ".") names
  rw [← behindDots, h] at hfirst
  simpa using hfirst

theorem foldl_behindDots (names : List String) :
    names.foldl below ⟨"."⟩ = (behindDots names).foldl below ⟨"."⟩ := by
  induction names with
  | nil => rfl
  | cons n names ih =>
    by_cases hhere : n = "."
    · subst hhere
      rw [behindDots_here]
      exact ih
    · rw [behindDots_of_ne hhere]

theorem goesDown_here (hnames : ∀ n ∈ names, '/' ∉ n.toList)
    (hfirst : (behindDots names).head? ≠ some "") : GoesDown ⟨"."⟩ names := by
  induction names with
  | nil => exact .inl rfl
  | cons n names ih =>
    rw [List.forall_mem_cons] at hnames
    refine ⟨.inl rfl, hnames.1, ?_⟩
    -- A dot stays where the work is done. The first other name moves, and any name may follow it.
    by_cases hhere : n = "."
    · subst hhere
      exact ih hnames.2 hfirst
    · rw [behindDots_of_ne hhere, List.head?_cons, Ne, Option.some.injEq] at hfirst
      exact (moves_of_name hnames.1 hfirst hhere).goesDown hnames.2

theorem Move.of_spelled (h : Move d path (spelled name.toList :: rest) s next left) :
    s = ⟨name, false⟩ ∧ next = below path name ∧ left = rest := by
  have hname {n : String} (ha : accepts (spelled name.toList) n.toList = true) : n = name :=
    String.toList_injective ((spells_spelled _).accepts_iff.1 ha)
  cases h with
  | literal hp =>
    cases hname ((spells_of_literal hp).accepts_iff.2 rfl)
    exact ⟨rfl, rfl, rfl⟩
  | dots hp _ hs =>
    -- The special names are spelled out without wildcards.
    rcases isDotName_of_mem_special hs with rfl | rfl <;>
    · unfold special at hs
      split at hs
      · cases hname (List.mem_filter.1 hs).2
        cases hp
      · cases hs
  | child _ _ _ ht =>
    cases ht with
    | wildcard _ ha =>
      cases hname ha
      exact ⟨rfl, rfl, rfl⟩
    | leave hp => simp [(spells_spelled _).isRecursive_eq_false] at hp
    | directory hp => simp [(spells_spelled _).isRecursive_eq_false] at hp
    | deepen hp => simp [(spells_spelled _).isRecursive_eq_false] at hp

theorem move_of_accepts (hplain : literal? p = none → IsPlainName name)
    (hp : isRecursive p = false) (ha : accepts p name.toList = true) (hdir : d.isDir path = true)
    (hthere : (d.node? (below path name)).isSome = true) (rest : List Pattern) :
    Move d path (p :: rest) ⟨name, false⟩ (below path name) rest := by
  cases hliteral : literal? p with
  | some n =>
    obtain rfl := String.toList_injective ((spells_of_literal hliteral).accepts_iff.1 ha)
    refine .literal hliteral ?_
    rw [isThere]
    split
    · exact hdir
    · exact hthere
  | none =>
    obtain ⟨loc, hloc, -⟩ := isDir_iff_resolve.1 hdir
    obtain ⟨place, hr, hplace⟩ := isSome_node?_iff.1 hthere
    cases resolve_below (hplain hliteral) hloc hr
    have hmem : name ∈ childNames d path :=
      mem_childNames.2 ⟨loc, hloc, mem_children_iff.2 hplace⟩
    exact .child hliteral hdir hmem (.wildcard hp ha)

theorem isPlainName_of_literal_spelled (hslash : '/' ∉ name.toList)
    (hp : literal? (spelled name.toList) = none) : IsPlainName name := by
  refine ⟨hslash, ?_, ?_, ?_⟩ <;>
  · intro heq
    rw [heq] at hp
    cases hp

def spelledNames (names : List String) : List Pattern := names.map fun n => spelled n.toList

theorem Leads.of_spelled (hps : ps ≠ []) (h : Leads d w path (spelledNames names ++ ps) t dest) :
    ∃ t', t = names.map (⟨·, false⟩) ++ t' ∧
      Leads d w (names.foldl Glob.below path) ps t' dest := by
  induction names generalizing path t with
  | nil => exact ⟨t, rfl, h⟩
  | cons n names ih =>
    change Leads d w path (spelled n.toList :: (spelledNames names ++ ps)) t dest at h
    obtain ⟨s, next, left, hmove, ht⟩ := leads_iff.1 h
    obtain ⟨rfl, rfl, rfl⟩ := hmove.of_spelled
    rw [Onward, if_neg (List.append_ne_nil_of_right_ne_nil _ hps)] at ht
    obtain ⟨t', rfl, ht⟩ := ht
    obtain ⟨t'', rfl, hrest⟩ := ih ht
    exact ⟨t'', rfl, hrest⟩

theorem leads_spelled (h : GoesDown path names) (hps : ps ≠ [])
    (hdir : d.isDir (names.foldl below path) = true)
    (hl : Leads d w (names.foldl below path) ps t dest) :
    Leads d w path (spelledNames names ++ ps) (names.map (⟨·, false⟩) ++ t) dest := by
  induction names generalizing path with
  | nil => exact hl
  | cons n names ih =>
    obtain ⟨hpath, hslash, hrest⟩ := h
    have hnext := hrest.isDir hdir
    obtain ⟨loc, hr, -⟩ := isDir_iff_resolve.1 hnext
    have hmove := move_of_accepts (isPlainName_of_literal_spelled hslash)
      (spells_spelled _).isRecursive_eq_false ((spells_spelled _).accepts_iff.2 rfl)
      (hpath.isDir hslash hr) (isSome_node?_of_isDir hnext) (spelledNames names ++ ps)
    exact .step hmove (List.append_ne_nil_of_right_ne_nil _ hps) (ih hrest hdir hl)

theorem Move.isThere_of_spelled (h : Move d path (spelled name.toList :: rest) s next left)
    (hname : literal? (spelled name.toList) = some name) : isThere d path name = true := by
  cases h with
  | literal hp hthere =>
    cases hp.symm.trans hname
    exact hthere
  | dots hp | child hp => cases hp.symm.trans hname

/-- Behind the dots at the front an empty name leads nowhere. -/
theorem not_leads_of_empty (hps : ps ≠ []) (hfirst : (behindDots names).head? = some "") :
    ¬ Leads d w ⟨"."⟩ (spelledNames names ++ ps) t dest := by
  induction names generalizing t with
  | nil => cases hfirst
  | cons n names ih =>
    intro h
    change Leads d w ⟨"."⟩ (spelled n.toList :: (spelledNames names ++ ps)) t dest at h
    obtain ⟨s, next, left, hmove, ht⟩ := leads_iff.1 h
    by_cases hhere : n = "."
    · subst hhere
      obtain ⟨rfl, rfl, rfl⟩ := hmove.of_spelled
      rw [Onward, if_neg (List.append_ne_nil_of_right_ne_nil _ hps)] at ht
      obtain ⟨t', -, ht⟩ := ht
      exact ih hfirst ht
    · rw [behindDots_of_ne hhere, List.head?_cons, Option.some.injEq] at hfirst
      subst hfirst
      cases hmove.isThere_of_spelled rfl

theorem Move.left_eq (hp : isRecursive p = false) (hmove : Move d path (p :: rest) s next left) :
    left = rest := by
  cases hmove with
  | literal => rfl
  | dots => rfl
  | child _ _ _ ht => cases ht <;> simp_all

theorem Move.not_isDotName (hd : d.IsTree) (hps : ∀ p ∈ ps, SlashFree p)
    (hmove : Move d path ps s next rest) (hfile : d.isFile next = true) :
    s.name ≠ "." ∧ s.name ≠ ".." := by
  rw [← not_or]
  intro hdot
  obtain ⟨habsolute, hway⟩ := hmove.way_eq hd.toWellNamed hps
  have hnext := hd.isDirWay_of_isDotName (hmove.isDirWay hps) habsolute hway hdot
  rw [isFile_of_isDirWay hnext] at hfile
  cases hfile

theorem leads_file_iff (hd : d.IsTree) (hpath : Stands path) (hne : p ≠ []) (hslash : SlashFree p)
    (hp : isRecursive p = false) :
    Leads d false path [p] t dest ∧ d.isFile dest = true ↔
      ∃ n, IsPlainName n ∧ accepts p n.toList = true ∧ t = [⟨n, false⟩] ∧ dest = below path n ∧
        d.isFile dest = true := by
  constructor
  · rintro ⟨hl, hfile⟩
    have hps : ∀ q ∈ [p], SlashFree q := by simpa using hslash
    -- No pattern is left behind the first step, so that it is the only one.
    obtain ⟨s, next, left, hmove, ht⟩ := leads_iff.1 hl
    obtain rfl := hmove.left_eq hp
    obtain ⟨rfl, rfl⟩ : t = [s] ∧ dest = next := by simpa [Onward] using ht
    obtain ⟨hhere, hup⟩ := hmove.not_isDotName hd hps hfile
    cases hmove with
    | @literal _ _ n hp' _ =>
      have hspells := spells_of_literal hp'
      have hempty : n.toList ≠ [] := by
        intro hnil
        rw [hnil] at hspells
        cases hspells
        exact hne rfl
      have hplain : IsPlainName n := ⟨hslash n hp', hempty,
        fun heq => hhere (String.toList_injective heq),
        fun heq => hup (String.toList_injective heq)⟩
      exact ⟨n, hplain, hspells.accepts_iff.2 rfl, rfl, rfl, hfile⟩
    | dots _ _ hs => exact ((isDotName_of_mem_special hs).elim hup hhere).elim
    | @child _ _ _ n _ _ _ hname ht =>
      have hplain := isPlainName_of_mem_childNames hd.toWellNamed hname
      cases ht with
      | wildcard _ ha => exact ⟨n, hplain, ha, rfl, rfl, hfile⟩
      | leave hp' => simp [hp] at hp'
      | directory hp' => simp [hp] at hp'
  · rintro ⟨n, hplain, ha, rfl, rfl, hfile⟩
    obtain ⟨loc, bytes, hr, hbytes⟩ := isFile_iff_resolve.1 hfile
    have hthere : (d.node? (below path n)).isSome = true :=
      isSome_node?_iff.2 ⟨loc, hr, by simp [hbytes]⟩
    have hmove := move_of_accepts (fun _ => hplain) hp ha (hpath.isDir hplain.noSlash hr) hthere []
    exact ⟨.last hmove (by simp), hfile⟩

/-- Names that are spelled out and one more pattern lead to the files directly in the directory
below the names. -/
theorem leads_names_file_iff (hd : d.IsTree) (hnames : GoesDown path names) (hne : p ≠ [])
    (hslash : SlashFree p) (hp : isRecursive p = false) :
    Leads d false path (spelledNames names ++ [p]) t dest ∧ d.isFile dest = true ↔
      ∃ n, IsPlainName n ∧ accepts p n.toList = true ∧
        t = names.map (⟨·, false⟩) ++ [⟨n, false⟩] ∧ dest = below (names.foldl below path) n ∧
        d.isFile dest = true := by
  have hps : [p] ≠ [] := List.cons_ne_nil p []
  have hstands := hnames.stands
  constructor
  · rintro ⟨hl, hfile⟩
    obtain ⟨t', rfl, hl'⟩ := hl.of_spelled hps
    obtain ⟨n, hplain, ha, rfl, hdest, -⟩ :=
      (leads_file_iff hd hstands hne hslash hp).1 ⟨hl', hfile⟩
    exact ⟨n, hplain, ha, rfl, hdest, hfile⟩
  · rintro ⟨n, hplain, ha, rfl, rfl, hfile⟩
    obtain ⟨loc, bytes, hr, -⟩ := isFile_iff_resolve.1 hfile
    obtain ⟨hl, -⟩ := (leads_file_iff hd hstands hne hslash hp).2 ⟨n, hplain, ha, rfl, rfl, hfile⟩
    exact ⟨leads_spelled hnames hps (hstands.isDir hplain.noSlash hr) hl, hfile⟩

end Glob

end SchemaModels
