import SchemaModels.Proofs.Disk.Way

namespace SchemaModels.Glob

open Disk

section Enumerates

variable {α β τ : Type} {P Q : τ → α → Prop} {xs ys : List α}

/-- The list holds the results of `P`, each as often as there are reasons for it. -/
def Enumerates (P : τ → α → Prop) (xs : List α) : Prop :=
  ∃ pairs : List (τ × α), pairs.Nodup ∧ (∀ t x, (t, x) ∈ pairs ↔ P t x) ∧ pairs.map Prod.snd = xs

theorem Enumerates.nil (h : ∀ t x, ¬ P t x) : Enumerates P [] := ⟨[], .nil, by simp [h], rfl⟩

theorem Enumerates.single (t : τ) (x : α) : Enumerates (fun u y => u = t ∧ y = x) [x] :=
  ⟨[(t, x)], List.nodup_singleton _, by simp, rfl⟩

theorem Enumerates.congr (h : Enumerates P xs) (hiff : ∀ t x, P t x ↔ Q t x) :
    Enumerates Q xs := by
  obtain ⟨pairs, hnodup, hmem, rfl⟩ := h
  exact ⟨pairs, hnodup, fun t x => (hmem t x).trans (hiff t x), rfl⟩

theorem Enumerates.append (h : Enumerates P xs) (h' : Enumerates Q ys)
    (hapart : ∀ t x, P t x → ¬ Q t x) : Enumerates (fun t x => P t x ∨ Q t x) (xs ++ ys) := by
  obtain ⟨pairs, hnodup, hmem, rfl⟩ := h
  obtain ⟨pairs', hnodup', hmem', rfl⟩ := h'
  refine ⟨pairs ++ pairs', List.nodup_append.2 ⟨hnodup, hnodup', ?_⟩, ?_, List.map_append⟩
  · rintro ⟨t, x⟩ hp _ hq rfl
    exact hapart t x ((hmem t x).1 hp) ((hmem' t x).1 hq)
  · intro t x
    rw [List.mem_append, hmem, hmem']

theorem Enumerates.ite {c : Prop} [Decidable c] (h : c → Enumerates P xs) :
    Enumerates (fun t x => c ∧ P t x) (if c then xs else []) := by
  split
  · rename_i hc
    exact (h hc).congr fun t x => (and_iff_right hc).symm
  · rename_i hc
    exact .nil fun t x hP => hc hP.1

theorem Enumerates.flatMap {items : List β} {R : β → τ → α → Prop} {f : β → List α}
    (hitems : items.Nodup) (h : ∀ i ∈ items, Enumerates (R i) (f i))
    (hapart : ∀ i j t x, R i t x → R j t x → i = j) :
    Enumerates (fun t x => ∃ i ∈ items, R i t x) (items.flatMap f) := by
  induction items with
  | nil => exact .nil fun t x hR => by simp at hR
  | cons i items ih =>
    obtain ⟨hi, hitems⟩ := List.nodup_cons.1 hitems
    rw [List.forall_mem_cons] at h
    have happend := h.1.append (ih hitems h.2) fun t x hR ⟨j, hj, hR'⟩ =>
      hi (hapart i j t x hR hR' ▸ hj)
    exact happend.congr fun t x => by simp

theorem Enumerates.cons {P : List τ → α → Prop} (h : Enumerates P xs) (s : τ) :
    Enumerates (fun t x => ∃ t', t = s :: t' ∧ P t' x) xs := by
  obtain ⟨pairs, hnodup, hmem, rfl⟩ := h
  refine ⟨pairs.map fun e => (s :: e.1, e.2), hnodup.map ?_, ?_, by simp⟩
  · rintro ⟨t, x⟩ ⟨t', x'⟩ heq
    simpa using heq
  · intro t x
    simp only [List.mem_map, Prod.exists, Prod.mk.injEq, hmem]
    constructor
    · rintro ⟨t', x', hP, rfl, rfl⟩
      exact ⟨t', rfl, hP⟩
    · rintro ⟨t', rfl, hP⟩
      exact ⟨t', x, hP, rfl, rfl⟩

theorem Enumerates.filter (h : Enumerates P xs) (f : α → Bool) :
    Enumerates (fun t x => P t x ∧ f x = true) (xs.filter f) := by
  obtain ⟨pairs, hnodup, hmem, rfl⟩ := h
  refine ⟨pairs.filter fun e => f e.2, hnodup.filter _, ?_, ?_⟩
  · intro t x
    rw [List.mem_filter, hmem]
  · rw [List.filter_map]
    rfl

theorem Enumerates.mem_iff (h : Enumerates P xs) {x : α} : x ∈ xs ↔ ∃ t, P t x := by
  obtain ⟨pairs, -, hmem, rfl⟩ := h
  simp [hmem]

theorem Enumerates.perm (h : Enumerates P xs) (h' : Enumerates P ys) : xs.Perm ys := by
  obtain ⟨pairs, hnodup, hmem, rfl⟩ := h
  obtain ⟨pairs', hnodup', hmem', rfl⟩ := h'
  refine List.Perm.map _ ((List.perm_ext_iff_of_nodup hnodup hnodup').2 ?_)
  rintro ⟨t, x⟩
  rw [hmem, hmem']

/-- No two results look the same exactly if there is one reason for each look. -/
theorem Enumerates.nodup_map_iff (h : Enumerates P xs) (look : α → β) :
    (xs.map look).Nodup ↔ ∀ t t' x x', P t x → P t' x' → look x = look x' → t = t' ∧ x = x' := by
  obtain ⟨pairs, hnodup, hmem, rfl⟩ := h
  rw [List.map_map, List.nodup_map_iff_inj_on hnodup]
  constructor
  · intro hinj t t' x x' ht ht' heq
    exact Prod.mk.inj (hinj (t, x) ((hmem t x).2 ht) (t', x') ((hmem t' x').2 ht') heq)
  · rintro hone ⟨t, x⟩ hx ⟨t', x'⟩ hx' heq
    obtain ⟨rfl, rfl⟩ := hone t t' x x' ((hmem t x).1 hx) ((hmem t' x').1 hx') heq
    rfl

end Enumerates

/-- A name that is followed, and whether a double star goes on below it. -/
structure Step where
  name : String
  goesOn : Bool
  deriving DecidableEq

/-- What is left of the patterns after a name in a directory, which leads to `next`. -/
inductive Takes (d : Disk) (p : Pattern) (rest : List Pattern) (next : Path) (name : String) :
    Bool → List Pattern → Prop
  | wildcard (hp : isRecursive p = false) (hname : accepts p name.toList = true) :
    Takes d p rest next name false rest
  | leave {q : Pattern} {left : List Pattern} (hp : isRecursive p = true)
    (hrest : rest.dropWhile isRecursive = q :: left) (hname : accepts q name.toList = true) :
    Takes d p rest next name false left
  | directory (hp : isRecursive p = true) (hrest : rest.dropWhile isRecursive = [])
    (hdir : d.isDir next = true) : Takes d p rest next name false []
  | deepen (hp : isRecursive p = true) (hdir : d.isDir next = true) :
    Takes d p rest next name true (p :: rest.dropWhile isRecursive)

def isThere (d : Disk) (path : Path) (s : String) : Bool :=
  if isDotName s then d.isDir path else (d.node? (below path s)).isSome

def special (p : Pattern) : List String :=
  if p.head? = some (.char '.') then ["..", "."].filter fun s => accepts p s.toList else []

/-- One step from a directory by the first of the patterns. -/
inductive Move (d : Disk) (path : Path) : List Pattern → Step → Path → List Pattern → Prop
  | literal {p : Pattern} {rest : List Pattern} {s : String} (hp : literal? p = some s)
    (hthere : isThere d path s = true) : Move d path (p :: rest) ⟨s, false⟩ (below path s) rest
  | dots {p : Pattern} {rest : List Pattern} {s : String} (hp : literal? p = none)
    (hdir : d.isDir path = true) (hs : s ∈ special p) :
    Move d path (p :: rest) ⟨s, false⟩ (path.join s) rest
  | child {p : Pattern} {rest left : List Pattern} {name : String} {goesOn : Bool}
    (hp : literal? p = none) (hdir : d.isDir path = true) (hname : name ∈ childNames d path)
    (ht : Takes d p rest (below path name) name goesOn left) :
    Move d path (p :: rest) ⟨name, goesOn⟩ (below path name) left

/-- A trail follows the patterns from a path to one that they describe. -/
inductive Leads (d : Disk) (wantsDir : Bool) : Path → List Pattern → List Step → Path → Prop
  | last {path next : Path} {ps : List Pattern} {s : Step} (hmove : Move d path ps s next [])
    (hdir : wantsDir = true → d.isDir next = true) : Leads d wantsDir path ps [s] next
  | step {path next dest : Path} {ps rest : List Pattern} {s : Step} {t : List Step}
    (hmove : Move d path ps s next rest) (hrest : rest ≠ [])
    (ht : Leads d wantsDir next rest t dest) :
    Leads d wantsDir path ps (s :: t) dest

variable {d : Disk} {w : Bool} {path next dest : Path} {p : Pattern} {ps rest left : List Pattern}
  {name : String} {s : Step} {t : List Step} {fuel : Nat}

/-- How a trail goes on after a step. -/
def Onward (d : Disk) (w : Bool) (s : Step) (next : Path) (rest : List Pattern) (t : List Step)
    (dest : Path) : Prop :=
  if rest = [] then (w = true → d.isDir next = true) ∧ t = [s] ∧ dest = next
  else ∃ t', t = s :: t' ∧ Leads d w next rest t' dest

theorem leads_iff : Leads d w path ps t dest ↔
    ∃ s next rest, Move d path ps s next rest ∧ Onward d w s next rest t dest := by
  constructor
  · intro h
    cases h with
    | last hmove hdir => exact ⟨_, _, _, hmove, by simpa [Onward] using hdir⟩
    | step hmove hrest ht => exact ⟨_, _, _, hmove, by simpa [Onward, hrest] using ht⟩
  · rintro ⟨s, next, rest, hmove, h⟩
    unfold Onward at h
    split at h
    · rename_i hnil
      obtain ⟨hdir, rfl, rfl⟩ := h
      exact .last (hnil ▸ hmove) hdir
    · rename_i hrest
      obtain ⟨t', rfl, ht⟩ := h
      exact .step hmove hrest ht

theorem Onward.head?_eq (h : Onward d w s next rest t dest) : t.head? = some s := by
  unfold Onward at h
  split at h
  · obtain ⟨-, rfl, -⟩ := h
    rfl
  · obtain ⟨t', rfl, -⟩ := h
    rfl

def visits (d : Disk) (w : Bool) (fuel : Nat) (next : Path) (rest : List Pattern) : List Path :=
  if rest = [] then if w = true → d.isDir next = true then [next] else []
  else (reach d next rest).flatMap (matching d w fuel)

theorem found_eq : (if w && !d.isDir next then [] else [next]) =
    if w = true → d.isDir next = true then [next] else [] := by
  cases w <;> cases d.isDir next <;> rfl

theorem matching_nil : matching d w (fuel + 1) ⟨next, []⟩ = visits d w fuel next [] := by
  rw [matching, visits, if_pos rfl]
  exact found_eq

theorem flatMap_onward : (if rest.isEmpty then [⟨next, []⟩] else reach d next rest).flatMap
    (matching d w (fuel + 1)) = visits d w (fuel + 1) next rest := by
  cases rest with
  | nil => simp [matching_nil, visits]
  | cons p rest => simp [visits]

theorem flatMap_reach_literal {name : String} (hp : literal? p = some name) :
    (reach d path (p :: rest)).flatMap (matching d w (fuel + 1)) =
      if isThere d path name then visits d w (fuel + 1) (below path name) rest else [] := by
  rw [reach, hp]
  dsimp only
  rw [← isThere]
  split
  · exact flatMap_onward
  · rfl

theorem flatMap_reach_wildcard (hp : literal? p = none) :
    (reach d path (p :: rest)).flatMap (matching d w (fuel + 1)) =
      if d.isDir path then
        (special p).flatMap (fun s => visits d w (fuel + 1) (path.join s) rest) ++
          (childNames d path).flatMap fun name =>
            matching d w (fuel + 1) ⟨below path name, p :: rest⟩
      else [] := by
  rw [reach, hp]
  dsimp only
  split
  · rw [← special, List.flatMap_append, List.flatMap_assoc, List.flatMap_map]
    simp only [flatMap_onward]
  · rfl

theorem matching_of_not_isRecursive (hp : isRecursive p = false)
    (hname : next.fileName? = some name) : matching d w (fuel + 1) ⟨next, p :: rest⟩ =
      if accepts p name.toList then visits d w fuel next rest else [] := by
  rw [matching]
  simp only [hp, hname, Bool.not_false, if_true, Bool.not_eq_true', visits, found_eq,
    List.isEmpty_iff]
  cases accepts p name.toList <;> simp

theorem matching_of_isRecursive (hp : isRecursive p = true)
    (hname : next.fileName? = some name) : matching d w (fuel + 1) ⟨next, p :: rest⟩ =
      (match rest.dropWhile isRecursive with
        | [] => if d.isDir next then visits d w fuel next [] else []
        | q :: left => if accepts q name.toList then visits d w fuel next left else []) ++
      if d.isDir next then visits d w fuel next (p :: rest.dropWhile isRecursive) else [] := by
  rw [matching]
  simp only [hp, hname, Bool.not_true, Bool.false_eq_true, if_false, visits, found_eq,
    List.isEmpty_iff]
  cases rest.dropWhile isRecursive with
  | nil => cases d.isDir next <;> simp
  | cons q left =>
    by_cases hq : accepts q name.toList = true <;> cases d.isDir next <;> simp [hq]

/-- How many entries lie below the directory that a path leads to. -/
def room (d : Disk) (path : Path) : Nat :=
  match d.resolve path with
  | .ok loc => (d.entries.filter fun e => loc.isSuffixOf e.1 && e.1 != loc).length
  | .error _ => 0

/-- A bound on the length of the trails from a path on. -/
def need (d : Disk) (path : Path) (ps : List Pattern) : Nat :=
  ps.length * (d.entries.length + 2) + room d path

theorem room_le (d : Disk) (path : Path) : room d path ≤ d.entries.length := by
  unfold room
  split
  · exact List.length_filter_le _ _
  · exact Nat.zero_le _

theorem mem_childNames :
    name ∈ childNames d path ↔ ∃ loc, d.resolve path = .ok loc ∧ name ∈ d.children loc := by
  unfold childNames
  cases d.resolve path with
  | ok loc => simp
  | error e => simp

theorem need_lt_of_length_lt (h : rest.length < ps.length) (path next : Path) :
    need d next rest < need d path ps := by
  have hroom := room_le d next
  have hmul := Nat.mul_le_mul_right (d.entries.length + 2) h
  rw [Nat.succ_mul] at hmul
  unfold need
  omega

theorem room_lt {loc : Location} (hpath : d.resolve path = .ok loc)
    (hnext : d.resolve next = .ok (name :: loc)) (hname : name ∈ d.children loc) :
    room d next < room d path := by
  have hbelow (e : Location) (h : name :: loc <:+ e) : loc <:+ e ∧ e ≠ loc := by
    refine ⟨(List.suffix_cons name loc).trans h, ?_⟩
    rintro rfl
    exact Nat.not_succ_le_self _ h.length_le
  obtain ⟨⟨_, node⟩, hentry, rfl⟩ := List.mem_map.1 (mem_children.1 hname)
  rw [room, room, hpath, hnext]
  -- What is below the name is below the directory, and the name itself is no longer counted.
  have hsub := List.monotone_filter_right d.entries
    (p := fun e => (name :: loc).isSuffixOf e.1 && e.1 != name :: loc)
    (q := fun e => loc.isSuffixOf e.1 && e.1 != loc) fun e he => by
      simp only [Bool.and_eq_true, List.isSuffixOf_iff_suffix, bne_iff_ne] at he ⊢
      exact hbelow e.1 he.1
  refine Nat.lt_of_not_le fun hle => ?_
  have heq := hsub.eq_of_length_le hle
  have hmem : (name :: loc, node) ∈ d.entries.filter fun e => loc.isSuffixOf e.1 && e.1 != loc := by
    simp [hentry]
  rw [← heq] at hmem
  simp at hmem

theorem length_lt_of_dropWhile_eq {q : Pattern} (h : rest.dropWhile isRecursive = q :: left) :
    left.length < (p :: rest).length := by
  have hlength := (List.dropWhile_sublist isRecursive (l := rest)).length_le
  rw [h] at hlength
  simp only [List.length_cons] at hlength ⊢
  omega

theorem Move.need_lt (h : d.WellNamed) (hmove : Move d path ps s next rest) :
    need d next rest < need d path ps := by
  cases hmove with
  | literal hp hthere => exact need_lt_of_length_lt (Nat.lt_succ_self _) _ _
  | dots hp hdir hs => exact need_lt_of_length_lt (Nat.lt_succ_self _) _ _
  | @child p before _ name _ hp hdir hname ht =>
    cases ht with
    | wildcard hp hname => exact need_lt_of_length_lt (Nat.lt_succ_self _) _ _
    | leave hp hrest hname => exact need_lt_of_length_lt (length_lt_of_dropWhile_eq hrest) _ _
    | directory hp hrest hdir => exact need_lt_of_length_lt (by simp) _ _
    | deepen hrec hnext =>
      obtain ⟨loc, hloc, hmem⟩ := mem_childNames.1 hname
      obtain ⟨dest, hdest, -⟩ := isDir_iff_resolve.1 hnext
      have hbelow := resolve_below (h.isPlainName hmem) hloc hdest
      have hroom := room_lt hloc (hbelow ▸ hdest) hmem
      have hlength := (List.dropWhile_sublist isRecursive (l := before)).length_le
      have hmul := Nat.mul_le_mul_right (d.entries.length + 2) (Nat.succ_le_succ hlength)
      exact Nat.add_lt_add_of_le_of_lt hmul hroom

theorem enumerates_visits
    (h : rest ≠ [] → Enumerates (Leads d w next rest)
      ((reach d next rest).flatMap (matching d w fuel))) (s : Step) :
    Enumerates (Onward d w s next rest) (visits d w fuel next rest) := by
  unfold visits
  split
  · rename_i hnil
    have hone := Enumerates.ite (c := w = true → d.isDir next = true) fun _ =>
      Enumerates.single [s] next
    exact hone.congr fun t dest => by rw [Onward, if_pos hnil]
  · rename_i hrest
    exact ((h hrest).cons s).congr fun t dest => by rw [Onward, if_neg hrest]

theorem Onward.step_eq {s' : Step} {next' : Path} {rest' : List Pattern}
    (h : Onward d w s next rest t dest) (h' : Onward d w s' next' rest' t dest) : s = s' :=
  Option.some.inj (h.head?_eq.symm.trans h'.head?_eq)

def OnwardChild (d : Disk) (w : Bool) (p : Pattern) (rest : List Pattern) (next : Path)
    (name : String) (goesOn : Bool) (t : List Step) (dest : Path) : Prop :=
  ∃ left, Takes d p rest next name goesOn left ∧ Onward d w ⟨name, goesOn⟩ next left t dest

theorem enumerates_leave (hp : isRecursive p = true)
    (h : ∀ left, Takes d p rest next name false left →
      Enumerates (Onward d w ⟨name, false⟩ next left) (visits d w fuel next left)) :
    Enumerates (OnwardChild d w p rest next name false)
      (match rest.dropWhile isRecursive with
        | [] => if d.isDir next then visits d w fuel next [] else []
        | q :: left => if accepts q name.toList then visits d w fuel next left else []) := by
  cases hrest : rest.dropWhile isRecursive with
  | nil =>
    refine (Enumerates.ite fun hdir => h [] (.directory hp hrest hdir)).congr fun t dest => ?_
    constructor
    · rintro ⟨hdir, ht⟩
      exact ⟨[], .directory hp hrest hdir, ht⟩
    · rintro ⟨left, htakes, ht⟩
      cases htakes with
      | directory _ _ hdir => exact ⟨hdir, ht⟩
      | _ => simp_all
  | cons q left =>
    refine (Enumerates.ite fun hc => h left (.leave hp hrest hc)).congr fun t dest => ?_
    constructor
    · rintro ⟨hc, ht⟩
      exact ⟨left, .leave hp hrest hc, ht⟩
    · rintro ⟨left', htakes, ht⟩
      cases htakes with
      | leave _ hrest' hc =>
        cases hrest.symm.trans hrest'
        exact ⟨hc, ht⟩
      | _ => simp_all

theorem enumerates_child (hname : next.fileName? = some name)
    (h : ∀ goesOn left, Takes d p rest next name goesOn left →
      Enumerates (Onward d w ⟨name, goesOn⟩ next left) (visits d w fuel next left)) :
    Enumerates (fun t dest => ∃ goesOn, OnwardChild d w p rest next name goesOn t dest)
      (matching d w (fuel + 1) ⟨next, p :: rest⟩) := by
  cases hp : isRecursive p with
  | false =>
    rw [matching_of_not_isRecursive hp hname]
    refine (Enumerates.ite fun hc => h false rest (.wildcard hp hc)).congr fun t dest => ?_
    constructor
    · rintro ⟨hc, ht⟩
      exact ⟨false, rest, .wildcard hp hc, ht⟩
    · rintro ⟨goesOn, left, htakes, ht⟩
      cases htakes with
      | wildcard _ hc => exact ⟨hc, ht⟩
      | _ => simp_all
  | true =>
    rw [matching_of_isRecursive hp hname]
    -- The double star ends above the name or goes on below it, and the steps tell the two apart.
    have hdeepen := Enumerates.ite fun hdir => h true _ (.deepen hp hdir)
    refine ((enumerates_leave hp (h false)).append hdeepen ?_).congr fun t dest => ?_
    · rintro t dest ⟨left, -, ht⟩ ⟨-, ht'⟩
      cases ht.step_eq ht'
    · constructor
      · rintro (ht | ⟨hdir, ht⟩)
        · exact ⟨false, ht⟩
        · exact ⟨true, _, .deepen hp hdir, ht⟩
      · rintro ⟨goesOn, left, htakes, ht⟩
        cases goesOn with
        | false => exact Or.inl ⟨left, htakes, ht⟩
        | true =>
          cases htakes with
          | deepen _ hdir => exact Or.inr ⟨hdir, ht⟩

theorem nodup_special (p : Pattern) : (special p).Nodup := by
  unfold special
  split
  · exact List.Nodup.filter _ (by decide)
  · exact .nil

theorem isDotName_of_mem_special {s : String} (h : s ∈ special p) : s = ".." ∨ s = "." := by
  unfold special at h
  split at h
  · simpa using (List.mem_filter.1 h).1
  · cases h

theorem nodup_childNames (h : d.WellNamed) (path : Path) : (childNames d path).Nodup := by
  unfold childNames
  split
  · rename_i loc hloc
    exact (List.mergeSort_perm _ _).nodup_iff.2 (h.nodup_children loc)
  · exact .nil

theorem isPlainName_of_mem_childNames (h : d.WellNamed) (hname : name ∈ childNames d path) :
    IsPlainName name := by
  obtain ⟨loc, -, hmem⟩ := mem_childNames.1 hname
  exact h.isPlainName hmem

theorem enumerates_literal (hp : literal? p = some name)
    (hvisits : ∀ {s next left}, Move d path (p :: rest) s next left →
      Enumerates (Onward d w s next left) (visits d w (fuel + 1) next left)) :
    Enumerates (Leads d w path (p :: rest))
      ((reach d path (p :: rest)).flatMap (matching d w (fuel + 1))) := by
  rw [flatMap_reach_literal hp]
  refine (Enumerates.ite fun hthere => hvisits (.literal hp hthere)).congr fun t dest => ?_
  rw [leads_iff]
  constructor
  · rintro ⟨hthere, ht⟩
    exact ⟨_, _, _, .literal hp hthere, ht⟩
  · rintro ⟨s, next, left, hmove, ht⟩
    cases hmove with
    | literal hp' hthere =>
      cases hp.symm.trans hp'
      exact ⟨hthere, ht⟩
    | _ => simp_all

theorem leads_wildcard_iff (hp : literal? p = none) : Leads d w path (p :: rest) t dest ↔
    d.isDir path = true ∧
      ((∃ s ∈ special p, Onward d w ⟨s, false⟩ (path.join s) rest t dest) ∨
        ∃ name ∈ childNames d path, ∃ goesOn,
          OnwardChild d w p rest (below path name) name goesOn t dest) := by
  rw [leads_iff]
  constructor
  · rintro ⟨s, next, left, hmove, ht⟩
    cases hmove with
    | literal hp' => simp [hp] at hp'
    | dots _ hdir hs => exact ⟨hdir, Or.inl ⟨_, hs, ht⟩⟩
    | child _ hdir hname htakes => exact ⟨hdir, Or.inr ⟨_, hname, _, _, htakes, ht⟩⟩
  · rintro ⟨hdir, ⟨s, hs, ht⟩ | ⟨name, hname, goesOn, left, htakes, ht⟩⟩
    · exact ⟨_, _, _, .dots hp hdir hs, ht⟩
    · exact ⟨_, _, _, .child hp hdir hname htakes, ht⟩

theorem enumerates_wildcard (h : d.WellNamed) (hp : literal? p = none)
    (hvisits : ∀ {s next left}, Move d path (p :: rest) s next left → ∀ more,
      Enumerates (Onward d w s next left) (visits d w (fuel + more) next left)) :
    Enumerates (Leads d w path (p :: rest))
      ((reach d path (p :: rest)).flatMap (matching d w (fuel + 1))) := by
  rw [flatMap_reach_wildcard hp]
  have hdots (hdir : d.isDir path = true) : Enumerates
      (fun t dest => ∃ s ∈ special p, Onward d w ⟨s, false⟩ (path.join s) rest t dest)
      ((special p).flatMap fun s => visits d w (fuel + 1) (path.join s) rest) := by
    refine .flatMap (nodup_special p) (fun s hs => hvisits (.dots hp hdir hs) 1) ?_
    exact fun s s' t dest ht ht' => congrArg Step.name (ht.step_eq ht')
  have hchildren (hdir : d.isDir path = true) : Enumerates
      (fun t dest => ∃ name ∈ childNames d path, ∃ goesOn,
        OnwardChild d w p rest (below path name) name goesOn t dest)
      ((childNames d path).flatMap fun name =>
        matching d w (fuel + 1) ⟨below path name, p :: rest⟩) := by
    refine .flatMap (nodup_childNames h path) ?_ ?_
    · intro name hname
      have hplain := isPlainName_of_mem_childNames h hname
      exact enumerates_child (fileName?_below path hplain) fun goesOn left htakes =>
        hvisits (.child hp hdir hname htakes) 0
    · rintro name name' t dest ⟨_, _, -, ht⟩ ⟨_, _, -, ht'⟩
      exact congrArg Step.name (ht.step_eq ht')
  have hall := Enumerates.ite fun hdir => (hdots hdir).append (hchildren hdir) ?_
  · exact hall.congr fun t dest => (leads_wildcard_iff hp).symm
  · -- The special names are not listed in a directory.
    rintro t dest ⟨s, hs, ht⟩ ⟨name, hname, _, _, -, ht'⟩
    have hplain := isPlainName_of_mem_childNames h hname
    have heq : s = name := congrArg Step.name (ht.step_eq ht')
    subst heq
    rcases isDotName_of_mem_special hs with rfl | rfl
    · exact hplain.notUp rfl
    · exact hplain.notHere rfl

/-- A search from a path on finds what trails lead to, once for each trail. -/
theorem enumerates_reach (h : d.WellNamed) (hfuel : need d path ps < fuel) :
    Enumerates (Leads d w path ps) ((reach d path ps).flatMap (matching d w fuel)) := by
  -- On the bound, which every step lowers.
  induction hn : need d path ps using Nat.strong_induction_on generalizing path ps fuel with
  | _ n ih =>
  subst hn
  obtain ⟨fuel, rfl⟩ := Nat.exists_eq_succ_of_ne_zero (Nat.ne_zero_of_lt hfuel)
  have hvisits {s next rest} (hmove : Move d path ps s next rest) (more : Nat) :
      Enumerates (Onward d w s next rest) (visits d w (fuel + more) next rest) := by
    have hlt := hmove.need_lt h
    exact enumerates_visits (fun _ => ih _ hlt (by omega) rfl) s
  cases ps with
  | nil =>
    refine .nil fun t dest ht => ?_
    obtain ⟨_, _, _, hmove, -⟩ := leads_iff.1 ht
    cases hmove
  | cons p rest =>
    cases hp : literal? p with
    | some name => exact enumerates_literal hp fun hmove => hvisits hmove 1
    | none => exact enumerates_wildcard h hp hvisits

theorem Query.enumerates_paths (h : d.WellNamed) (q : Query) :
    Enumerates (Leads d q.wantsDir q.scope q.patterns) (q.paths d) := by
  refine enumerates_reach h ?_
  have hroom := room_le d q.scope
  rw [need, Nat.succ_mul]
  omega

end SchemaModels.Glob
