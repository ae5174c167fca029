import SchemaModels.Disk.Path

namespace SchemaModels.Path

theorem Component.before_iff {a b : Component} : a.before b = true ↔
    a.rank < b.rank ∨ ∃ s t, a = .name s ∧ b = .name t ∧ s < t := by
  cases a <;> cases b <;> simp [before, rank]

theorem Component.before_trans {a b c : Component} (h : a.before b = true)
    (h' : b.before c = true) : a.before c = true := by
  rw [before_iff] at h h' ⊢
  rcases h with h | ⟨s, t, rfl, rfl, hst⟩
  · rcases h' with h' | ⟨t, u, rfl, rfl, -⟩
    · exact Or.inl (Nat.lt_trans h h')
    · exact Or.inl h
  · rcases h' with h' | ⟨t', u, heq, rfl, htu⟩
    · exact Or.inl h'
    · cases heq
      exact Or.inr ⟨s, u, rfl, rfl, String.lt_trans hst htu⟩

theorem Component.before_asymm {a b : Component} (h : a.before b = true) :
    b.before a = false := by
  rw [Bool.eq_false_iff]
  intro h'
  rcases before_iff.1 (before_trans h h') with hrank | ⟨s, t, hs, ht, hst⟩
  · exact Nat.lt_irrefl _ hrank
  · cases hs.symm.trans ht
    exact String.lt_irrefl s hst

theorem Component.before_total {a b : Component} (h : a ≠ b) :
    a.before b = true ∨ b.before a = true := by
  rw [before_iff, before_iff]
  rcases Nat.lt_trichotomy a.rank b.rank with hlt | heq | hgt
  · exact Or.inl (Or.inl hlt)
  · obtain ⟨s, t, rfl, rfl⟩ : ∃ s t, a = .name s ∧ b = .name t := by
      cases a <;> cases b <;> simp_all [rank]
    rcases Std.lt_trichotomy s t with hlt | heq | hgt
    · exact Or.inl (Or.inr ⟨s, t, rfl, rfl, hlt⟩)
    · exact absurd (congrArg Component.name heq) h
    · exact Or.inr (Or.inr ⟨t, s, rfl, rfl, hgt⟩)
  · exact Or.inr (Or.inl hgt)

theorem componentsLe_total (as bs : List Component) :
    (componentsLe as bs || componentsLe bs as) = true := by
  induction as generalizing bs with
  | nil => rfl
  | cons a as ih =>
    cases bs with
    | nil => rfl
    | cons b bs =>
      rw [componentsLe, componentsLe]
      by_cases heq : a = b
      · rw [if_pos heq, if_pos heq.symm]
        exact ih bs
      · rw [if_neg heq, if_neg (Ne.symm heq), Bool.or_eq_true]
        exact Component.before_total heq

theorem componentsLe_trans {as bs cs : List Component} (h : componentsLe as bs = true)
    (h' : componentsLe bs cs = true) : componentsLe as cs = true := by
  induction as generalizing bs cs with
  | nil => rfl
  | cons a as ih =>
    cases bs with
    | nil => cases h
    | cons b bs =>
      cases cs with
      | nil => cases h'
      | cons c cs =>
        rw [componentsLe] at h h' ⊢
        -- The first components decide, unless they are equal.
        by_cases hab : a = b
        · subst hab
          rw [if_pos rfl] at h
          split
          · rename_i hac
            rw [if_pos hac] at h'
            exact ih h h'
          · rename_i hac
            rwa [if_neg hac] at h'
        · rw [if_neg hab] at h
          by_cases hbc : b = c
          · subst hbc
            rwa [if_neg hab]
          · rw [if_neg hbc] at h'
            have hac : a ≠ c := by
              rintro rfl
              simp [Component.before_asymm h] at h'
            rw [if_neg hac]
            exact Component.before_trans h h'

theorem componentsLe_antisymm {as bs : List Component} (h : componentsLe as bs = true)
    (h' : componentsLe bs as = true) : as = bs := by
  induction as generalizing bs with
  | nil =>
    cases bs with
    | nil => rfl
    | cons b bs => cases h'
  | cons a as ih =>
    cases bs with
    | nil => cases h
    | cons b bs =>
      rw [componentsLe] at h h'
      by_cases heq : a = b
      · subst heq
        rw [if_pos rfl] at h h'
        rw [ih h h']
      · rw [if_neg heq] at h
        rw [if_neg (Ne.symm heq)] at h'
        simp [Component.before_asymm h] at h'

theorem le_total (p q : Path) : (p.le q || q.le p) = true := componentsLe_total _ _

theorem le_trans {p q r : Path} (h : p.le q = true) (h' : q.le r = true) : p.le r = true :=
  componentsLe_trans h h'

theorem le_of_components_eq {p q : Path} (h : p.components = q.components) : p.le q = true := by
  have hself := le_total q q
  rw [Bool.or_self] at hself
  rwa [le, h]

theorem le_sorted (ps : List Path) : (ps.mergeSort le).Pairwise fun p q => p.le q = true := by
  apply List.pairwise_mergeSort
  · intro p q r hpq hqr
    exact le_trans hpq hqr
  · exact le_total

/-- Each path of a list comes before the next, and not only with it. -/
def Increasing (ps : List Path) : Prop := ps.Pairwise fun p q => q.le p = false

theorem increasing_mergeSort_iff {ps : List Path} :
    Increasing (ps.mergeSort le) ↔ (ps.map components).Nodup := by
  rw [← ((List.mergeSort_perm ps le).map components).nodup_iff, List.Nodup, List.pairwise_map]
  constructor
  · refine List.Pairwise.imp fun {p q} hpq heq => ?_
    rw [le_of_components_eq heq.symm] at hpq
    cases hpq
  · intro h
    refine ((le_sorted ps).and h).imp fun {p q} ⟨hle, hne⟩ => ?_
    rw [Bool.eq_false_iff]
    exact fun hge => hne (componentsLe_antisymm hle hge)

theorem Increasing.eq_of_perm {ps qs : List Path} (hp : Increasing ps) (hq : Increasing qs)
    (h : ps.Perm qs) : ps = qs := by
  refine List.Perm.eq_of_pairwise ?_ hp hq h
  intro p q _ _ hqp hpq
  have htotal := le_total p q
  simp [hqp, hpq] at htotal

end SchemaModels.Path
