import Mathlib.Algebra.GroupWithZero.Nat
import Mathlib.Data.List.DropRight
import SchemaModels.Proofs.Glob.Growth

namespace SchemaModels.Glob

open Disk

variable {d : Disk} {w : Bool} {path path' next next' dest dest' : Path} {p : Pattern}
  {ps rest rest' left : List Pattern} {name : String} {s s' : Step} {t t' : List Step}

/-- Whether the double stars stand together. -/
def oneRun : List Pattern → Bool
  | [] => true
  | p :: rest =>
    if isRecursive p then (rest.dropWhile isRecursive).all (!isRecursive ·) else oneRun rest

/-- The double stars stand together, and no wildcards take the special names. -/
structure OneWay (ps : List Pattern) : Prop where
  together : oneRun ps = true
  notSpecial : ∀ p ∈ ps, literal? p = none → special p = []

theorem oneRun_of_forall (h : ∀ p ∈ ps, isRecursive p = false) : oneRun ps = true := by
  induction ps with
  | nil => rfl
  | cons p ps ih =>
    rw [List.forall_mem_cons] at h
    simpa [oneRun, h.1] using ih h.2

theorem OneWay.notMem_special (h : OneWay (p :: rest)) (hp : literal? p = none) :
    name ∉ special p := by
  simp [h.notSpecial p List.mem_cons_self hp]

theorem OneWay.forall_of_isRecursive (h : OneWay (p :: rest)) (hp : isRecursive p = true) :
    ∀ q ∈ rest.dropWhile isRecursive, isRecursive q = false := by
  have hone := h.together
  rw [oneRun, if_pos hp, List.all_eq_true] at hone
  intro q hq
  simpa using hone q hq

theorem oneRun_of_not_isRecursive (h : OneWay (p :: rest)) (hp : isRecursive p = false) :
    oneRun rest = true := by
  have hone := h.together
  rwa [oneRun, hp] at hone

theorem OneWay.move (h : OneWay ps) (hmove : Move d path ps s next rest) : OneWay rest := by
  refine ⟨?_, fun q hq => h.notSpecial q (hmove.subset hq)⟩
  cases hmove with
  | literal hp => exact oneRun_of_not_isRecursive h (isRecursive_of_literal hp)
  | dots hp _ hs => exact absurd hs (h.notMem_special hp)
  | child _ _ _ ht =>
    cases ht with
    | wildcard hp => exact oneRun_of_not_isRecursive h hp
    | leave hp hrest =>
      have hafter := h.forall_of_isRecursive hp
      rw [hrest, List.forall_mem_cons] at hafter
      exact oneRun_of_forall hafter.2
    | directory => rfl
    | deepen hp =>
      have hafter := h.forall_of_isRecursive hp
      rw [oneRun, if_pos hp, List.dropWhile_idempotent isRecursive, List.all_eq_true]
      simpa using hafter

theorem Move.rest_eq (h : OneWay ps) (hmove : Move d path ps s next rest)
    (hmove' : Move d path' ps s next' rest') : rest = rest' := by
  cases hmove with
  | literal hp =>
    cases hmove' with
    | literal => rfl
    | dots hp' => cases hp.symm.trans hp'
    | child hp' => cases hp.symm.trans hp'
  | dots hp _ hs => exact absurd hs (h.notMem_special hp)
  | child hp _ _ ht =>
    cases hmove' with
    | literal hp' => cases hp.symm.trans hp'
    | dots hp _ hs => exact absurd hs (h.notMem_special hp)
    | child _ _ _ ht' => cases ht <;> cases ht' <;> simp_all

theorem Move.next_eq (h : OneWay ps) (hmove : Move d path ps s next rest) :
    next = below path s.name := by
  cases hmove with
  | literal => rfl
  | dots hp _ hs => exact absurd hs (h.notMem_special hp)
  | child => rfl

theorem Move.name_eq (hd : d.WellNamed) (h : OneWay ps) (hmove : Move d path ps s next rest)
    (hmove' : Move d path' ps s' next' rest')
    (heq : moves (s :: t) = moves (s' :: t')) : s.name = s'.name := by
  cases hmove with
  | literal hp =>
    cases hmove' with
    | literal hp' => exact Option.some.inj (hp.symm.trans hp')
    | dots hp' => cases hp.symm.trans hp'
    | child hp' => cases hp.symm.trans hp'
  | dots hp _ hs => exact absurd hs (h.notMem_special hp)
  | child hp _ hname =>
    cases hmove' with
    | literal hp' => cases hp.symm.trans hp'
    | dots hp _ hs => exact absurd hs (h.notMem_special hp)
    | child _ _ hname' =>
      rw [moves_cons, moves_cons, moving_stepsOf (isPlainName_of_mem_childNames hd hname),
        moving_stepsOf (isPlainName_of_mem_childNames hd hname')] at heq
      exact Path.Component.name.inj (List.cons.inj heq).1

def moveCount (p : Pattern) : Nat :=
  match literal? p with
  | some name => (moving (stepsOf name)).length
  | none => 1

theorem Move.length_eq (hd : d.WellNamed) (h : OneWay (p :: left)) (hp : isRecursive p = false)
    (hmove : Move d path (p :: left) s next rest) :
    rest = left ∧ (moving (stepsOf s.name)).length = moveCount p := by
  cases hmove with
  | literal hs => simp [moveCount, hs]
  | dots hs _ hname => exact absurd hname (h.notMem_special hs)
  | child hs _ hname ht =>
    rw [moveCount, hs, moving_stepsOf (isPlainName_of_mem_childNames hd hname)]
    cases ht <;> simp_all

theorem Leads.length_moves (hd : d.WellNamed) (h : OneWay ps)
    (hps : ∀ p ∈ ps, isRecursive p = false) (hl : Leads d w path ps t dest) :
    (moves t).length = (ps.map moveCount).sum := by
  induction hl with
  | @last _ _ ps _ hmove =>
    cases ps with
    | nil => cases hmove
    | cons p left =>
      obtain ⟨rfl, hlength⟩ := hmove.length_eq hd h (hps p List.mem_cons_self)
      simp [hlength, moves]
  | @step _ _ _ ps _ _ _ hmove _ _ ih =>
    cases ps with
    | nil => cases hmove
    | cons p left =>
      rw [List.forall_mem_cons] at hps
      obtain ⟨rfl, hlength⟩ := hmove.length_eq hd h hps.1
      simp [hlength, ih (h.move hmove) hps.2]

/-- How many moves are made at least by double stars in front of some patterns and by those. -/
def leastMoves (rest : List Pattern) : Nat :=
  1 + ((rest.dropWhile isRecursive).tail.map moveCount).sum

theorem leastMoves_dropWhile (rest : List Pattern) :
    leastMoves (rest.dropWhile isRecursive) = leastMoves rest := by
  rw [leastMoves, leastMoves, List.dropWhile_idempotent isRecursive]

theorem Move.of_isRecursive (hd : d.WellNamed) (h : OneWay (p :: rest)) (hp : isRecursive p = true)
    (hmove : Move d path (p :: rest) s next left) : (moving (stepsOf s.name)).length = 1 ∧
      if s.goesOn then left = p :: rest.dropWhile isRecursive
      else left = (rest.dropWhile isRecursive).tail := by
  cases hmove with
  | literal hs =>
    rw [isRecursive_of_literal hs] at hp
    cases hp
  | dots hs _ hname => exact absurd hname (h.notMem_special hs)
  | child hs _ hname ht =>
    rw [moving_stepsOf (isPlainName_of_mem_childNames hd hname)]
    cases ht with
    | wildcard hp' => cases hp.symm.trans hp'
    | leave _ hrest => exact ⟨rfl, by simp [hrest]⟩
    | directory _ hrest => exact ⟨rfl, by simp [hrest]⟩
    | deepen => exact ⟨rfl, rfl⟩

theorem OneWay.tail (h : OneWay (p :: rest)) (hp : isRecursive p = true) :
    ∀ q ∈ (rest.dropWhile isRecursive).tail, isRecursive q = false :=
  fun q hq => h.forall_of_isRecursive hp q (List.mem_of_mem_tail hq)

theorem Leads.leastMoves_le (hd : d.WellNamed) (h : OneWay (p :: rest)) (hp : isRecursive p = true)
    (hl : Leads d w path (p :: rest) t dest) : leastMoves rest ≤ (moves t).length := by
  generalize hps : p :: rest = ps at hl
  induction hl generalizing rest with
  | @last _ _ _ s hmove =>
    subst hps
    obtain ⟨hlength, hleft⟩ := hmove.of_isRecursive hd h hp
    split at hleft
    · cases hleft
    · simp [leastMoves, ← hleft, hlength]
  | @step _ _ _ _ _ s _ hmove _ ht ih =>
    subst hps
    obtain ⟨hlength, hleft⟩ := hmove.of_isRecursive hd h hp
    have hleftWay := h.move hmove
    rw [moves_cons, List.length_append, hlength]
    split at hleft
    · have hle := ih (hleft ▸ hleftWay) hleft.symm
      rw [leastMoves_dropWhile] at hle
      omega
    · rw [ht.length_moves hd hleftWay (hleft ▸ h.tail hp), hleft, leastMoves]

/-- The number of moves tells whether a double star goes on below the first name. -/
theorem Leads.length_moves_cons (hd : d.WellNamed) (h : OneWay (p :: rest))
    (hp : isRecursive p = true) (hl : Leads d w path (p :: rest) (s :: t) dest) :
    s.goesOn = true ↔ leastMoves rest < (moves (s :: t)).length := by
  cases hl with
  | last hmove =>
    obtain ⟨hlength, hleft⟩ := hmove.of_isRecursive hd h hp
    split at hleft
    · cases hleft
    · simp_all [leastMoves, moves]
  | step hmove _ ht =>
    obtain ⟨hlength, hleft⟩ := hmove.of_isRecursive hd h hp
    have hleftWay := h.move hmove
    rw [moves_cons, List.length_append, hlength]
    split at hleft
    · rename_i hgoes
      subst hleft
      have hle := ht.leastMoves_le hd hleftWay hp
      rw [leastMoves_dropWhile] at hle
      simp only [hgoes, true_iff]
      omega
    · rename_i hgoes
      rw [ht.length_moves hd hleftWay (hleft ▸ h.tail hp), hleft, leastMoves]
      simp [hgoes]

theorem Move.goesOn_eq_false (hp : isRecursive p = false)
    (hmove : Move d path (p :: rest) s next left) : s.goesOn = false := by
  cases hmove with
  | literal => rfl
  | dots => rfl
  | child _ _ _ ht => cases ht <;> simp_all

theorem Leads.head_eq (hd : d.WellNamed) (h : OneWay ps) (hl : Leads d w path ps (s :: t) dest)
    (hl' : Leads d w path' ps (s' :: t') dest') (heq : moves (s :: t) = moves (s' :: t')) :
    s = s' ∧ moves t = moves t' := by
  obtain ⟨s₁, next, rest, hmove, hon⟩ := leads_iff.1 hl
  obtain ⟨s₂, next', rest', hmove', hon'⟩ := leads_iff.1 hl'
  cases hon.head?_eq
  cases hon'.head?_eq
  have hname := hmove.name_eq hd h hmove' heq
  -- Only a double star can go on, and the moves that are left tell whether it does.
  have hgoes : s.goesOn = s'.goesOn := by
    cases ps with
    | nil => cases hmove
    | cons p left =>
      cases hp : isRecursive p with
      | false => rw [hmove.goesOn_eq_false hp, hmove'.goesOn_eq_false hp]
      | true =>
        rw [Bool.eq_iff_iff, hl.length_moves_cons hd h hp, hl'.length_moves_cons hd h hp, heq]
  obtain ⟨name, goesOn⟩ := s
  cases hname
  cases hgoes
  exact ⟨rfl, List.append_cancel_left heq⟩

/-- The moves along a trail tell which trail it is. -/
theorem Leads.trail_eq (hd : d.WellNamed) (h : OneWay ps) (hl : Leads d w path ps t dest)
    (hl' : Leads d w path' ps t' dest') (heq : moves t = moves t') : t = t' := by
  induction hl generalizing path' t' with
  | last hmove hdir =>
    have hlast := Leads.last hmove hdir
    cases hl' with
    | last hmove' hdir' =>
      obtain ⟨rfl, -⟩ := hlast.head_eq hd h (.last hmove' hdir') heq
      rfl
    | step hmove' hrest' ht' =>
      obtain ⟨rfl, -⟩ := hlast.head_eq hd h (.step hmove' hrest' ht') heq
      exact absurd (hmove.rest_eq h hmove').symm hrest'
  | step hmove hrest ht ih =>
    have hstep := Leads.step hmove hrest ht
    cases hl' with
    | last hmove' hdir' =>
      obtain ⟨rfl, -⟩ := hstep.head_eq hd h (.last hmove' hdir') heq
      exact absurd (hmove.rest_eq h hmove') hrest
    | step hmove' hrest' ht' =>
      obtain ⟨rfl, htail⟩ := hstep.head_eq hd h (.step hmove' hrest' ht') heq
      cases hmove.rest_eq h hmove'
      rw [ih (h.move hmove) ht' htail]

theorem Leads.dest_eq (h : OneWay ps) (hl : Leads d w path ps t dest)
    (hl' : Leads d w path ps t dest') : dest = dest' := by
  induction hl with
  | last hmove =>
    cases hl' with
    | last hmove' => rw [hmove.next_eq h, hmove'.next_eq h]
    | step _ _ ht' => cases ht'
  | step hmove _ ht ih =>
    cases hl' with
    | last => cases ht
    | step hmove' _ ht' =>
      cases hmove.rest_eq h hmove'
      rw [hmove'.next_eq h, ← hmove.next_eq h] at ht'
      exact ih (h.move hmove) ht'

end SchemaModels.Glob
